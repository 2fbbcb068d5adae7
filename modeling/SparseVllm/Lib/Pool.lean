import Mathlib.Data.List.Nodup

/-!
# Pools

A pool is a stack of free resources; `held` says which resource each holder has, if any. `Pool free
held`: the free resources are distinct, no two holders share one, and what is held is not free. Its
rules are for a change of holders alone, for holders that take from the top of the stack and for
resources that come back.
-/

namespace SparseVllm.Lib

variable {ι : Type} {free : List Nat} {held held' : ι → Option Nat}

/-- The free resources and those that are held. -/
structure Pool (free : List Nat) (held : ι → Option Nat) : Prop where
  distinct : free.Nodup
  apart : ∀ {a b s}, held a = some s → held b = some s → a = b
  taken : ∀ {a s}, held a = some s → s ∉ free

namespace Pool

/-- A pool without holders. -/
theorem empty (hnd : free.Nodup) (h : ∀ a, held a = none) : Pool free held where
  distinct := hnd
  apart {a} := fun ha => absurd ((h a).symm.trans ha) (Option.some_ne_none _).symm
  taken {a} := fun ha => absurd ((h a).symm.trans ha) (Option.some_ne_none _).symm

/-- Holders may leave, without giving back. -/
theorem mono (h : Pool free held) (hle : ∀ a s, held' a = some s → held a = some s) :
    Pool free held' where
  distinct := h.distinct
  apart ha hb := h.apart (hle _ _ ha) (hle _ _ hb)
  taken ha := h.taken (hle _ _ ha)

/-- Holders may pass on what they hold. -/
theorem pass (h : Pool free held) (source : ι → ι)
    (hle : ∀ a s, held' a = some s → held (source a) = some s)
    (hinj : ∀ a b s, held' a = some s → held' b = some s → source a = source b → a = b) :
    Pool free held' where
  distinct := h.distinct
  apart {a b s} ha hb := hinj a b s ha hb (h.apart (hle _ _ ha) (hle _ _ hb))
  taken ha := h.taken (hle _ _ ha)

/-- The order of the stack does not matter. -/
theorem perm (h : Pool free held) {free' : List Nat} (hperm : free.Perm free') : Pool free' held where
  distinct := hperm.nodup h.distinct
  apart := h.apart
  taken ha hin := h.taken ha (hperm.mem_iff.mpr hin)

/-- New holders take what is on top of the stack. -/
theorem take (h : Pool free held) {rest taken : List Nat} (hfree : free = rest ++ taken)
    (cells : List (ι × Nat)) (hcells : cells.map Prod.snd = taken)
    (hle : ∀ a s, held' a = some s → held a = some s ∨ (a, s) ∈ cells) : Pool rest held' := by
  have hnd : (rest ++ taken).Nodup := hfree ▸ h.distinct
  obtain ⟨hrest, htaken, hdisjoint⟩ := List.nodup_append'.mp hnd
  have htop : ∀ {a s}, (a, s) ∈ cells → s ∈ taken := fun hin =>
    hcells ▸ List.mem_map_of_mem hin
  refine ⟨hrest, fun {a b s} ha hb => ?_, fun {a s} ha hin => ?_⟩
  · rcases hle a s ha with ha | ha
    · have hout : s ∉ taken := fun hin =>
        h.taken ha (hfree ▸ List.mem_append_right _ hin)
      rcases hle b s hb with hb | hb
      · exact h.apart ha hb
      · exact absurd (htop hb) hout
    · rcases hle b s hb with hb | hb
      · exact absurd (hfree ▸ List.mem_append_right _ (htop ha)) (h.taken hb)
      · rw [← hcells] at htaken
        exact congrArg Prod.fst (List.inj_on_of_nodup_map htaken ha hb rfl)
  · rcases hle a s ha with ha | ha
    · exact h.taken ha (hfree ▸ List.mem_append_left _ hin)
    · exact hdisjoint hin (htop ha)

/-- What was held comes back. -/
theorem give (h : Pool free held) {back : List Nat} (hnd : back.Nodup)
    (hback : ∀ s ∈ back, ∃ a, held a = some s)
    (hle : ∀ a s, held' a = some s → held a = some s ∧ s ∉ back) : Pool (free ++ back) held' where
  distinct := by
    refine List.nodup_append'.mpr ⟨h.distinct, hnd, fun s hfree hin => ?_⟩
    obtain ⟨a, ha⟩ := hback s hin
    exact h.taken ha hfree
  apart ha hb := h.apart (hle _ _ ha).1 (hle _ _ hb).1
  taken ha hin := by
    obtain ⟨hold, hout⟩ := hle _ _ ha
    rcases List.mem_append.mp hin with hin | hin
    · exact h.taken hold hin
    · exact hout hin

end Pool

end SparseVllm.Lib
