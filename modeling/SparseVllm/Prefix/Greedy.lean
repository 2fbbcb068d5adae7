import Mathlib.Algebra.Order.BigOperators.Group.List
import SparseVllm.Prefix.Shrinks

/-!
# The eviction loops are greedy

The naive procedure (`greedyLoop`) scans every block before each removal and takes the eligible one
whose key is least. The loops of the source scan once and then queue only the parent of what they
take. The heap holds the eligible blocks all along (`Queued`), since a block becomes eligible when its
last child goes and in no other way: so both take the same blocks.

## Results

* **`evictions_greedy`**: the three loops return what the naive procedure returns, and leave the same
  index.
* `greedyLoop_harvest`: what the procedure takes, and what it leaves.
-/

namespace SparseVllm.RadixPrefixIndex

open SparseVllm.Lib

variable {B P : Type} [LinearOrder B]

/-! ## The naive procedure -/

/-- The keys of all eligible blocks. -/
def eligibleKeys (eligible : RadixPrefixIndex B P → PrefixCacheBlock B P → Bool)
    (s : RadixPrefixIndex B P) : List (EvictionKey B) :=
  s.blocks.entries.filterMap fun e =>
    if eligible s e.2 then some (evictionKey e.1 e.2) else none

/-- The id in a key. -/
def keyId (key : EvictionKey B) : B := (ofLex (ofLex key).2).2

/-- Take the eligible block of the least key until the weight is reached. -/
def greedyLoop (policy : EvictionPolicy B P) (needed : Int) :
    Nat → Int → PrefixIndexM B P (List (PrefixCacheBlock B P))
  | 0, _ => pure []
  | fuel + 1, taken =>
    if needed ≤ taken then pure []
    else do
      let s ← get
      match (s.eligibleKeys policy.eligible).min?.bind fun key => s.getBlock (keyId key) with
      | none => pure []
      | some block =>
        raiseIf (policy.weight block < 0)
          (policy.negativeWeight block.stableBlockId (policy.weight block))
        let gone ← policy.take block
        let rest ← greedyLoop policy needed fuel (taken + policy.weight block)
        pure (gone :: rest)

omit [LinearOrder B] in
@[simp] theorem keyId_evictionKey (id : B) (b : PrefixCacheBlock B P) :
    keyId (evictionKey id b) = id := rfl

/-- The block at `id` is eligible. -/
def EligibleAt (eligible : RadixPrefixIndex B P → PrefixCacheBlock B P → Bool)
    (s : RadixPrefixIndex B P) (id : B) : Prop :=
  ∃ b, s.getBlock id = some b ∧ eligible s b = true

variable {eligible : RadixPrefixIndex B P → PrefixCacheBlock B P → Bool}
  {s t : RadixPrefixIndex B P} {id : B} {b : PrefixCacheBlock B P}

theorem mem_eligibleKeys {k : EvictionKey B} : k ∈ s.eligibleKeys eligible ↔
    ∃ id b, s.getBlock id = some b ∧ eligible s b = true ∧ k = evictionKey id b := by
  unfold eligibleKeys
  rw [List.mem_filterMap]
  constructor
  · rintro ⟨⟨id, b⟩, hmem, hk⟩
    split at hk
    · exact ⟨id, b, Dict.mem_entries.mp hmem, ‹_›, (Option.some.inj hk).symm⟩
    · cases hk
  · rintro ⟨id, b, hb, hok, rfl⟩
    exact ⟨⟨id, b⟩, Dict.mem_entries.mpr hb, if_pos hok⟩

/-! ## Policies that peel -/

/-- What taking the block at `id` does: it is gone from `ok` and from the children, and `left` is what
is at `id` then. -/
structure Peeled (child : RadixPrefixIndex B P → B → B → Prop)
    (ok : RadixPrefixIndex B P → B → Prop) (size : RadixPrefixIndex B P → Nat)
    (left : Option (PrefixCacheBlock B P)) (s : RadixPrefixIndex B P) (id : B)
    (t : RadixPrefixIndex B P) : Prop where
  indexed : Indexed t
  here : t.getBlock id = left
  kept : ∀ q, q ≠ id → t.getBlock q = s.getBlock q
  ok : ∀ q, ok t q ↔ ok s q ∧ q ≠ id
  child : ∀ c p, child t c p ↔ child s c p ∧ c ≠ id
  size : size t < size s

/-- The policy takes the blocks that are `ok` and have no `child`; `result` is what it returns, and
`left` what it leaves, of a block. -/
structure Peels (policy : EvictionPolicy B P) (child : RadixPrefixIndex B P → B → B → Prop)
    (ok : RadixPrefixIndex B P → B → Prop) (size : RadixPrefixIndex B P → Nat)
    (result : PrefixCacheBlock B P → PrefixCacheBlock B P)
    (left : PrefixCacheBlock B P → Option (PrefixCacheBlock B P)) : Prop where
  eligible_iff : ∀ {s id b}, Indexed s → s.getBlock id = some b →
    (policy.eligible s b = true ↔ ok s id ∧ ∀ c, ¬ child s c id)
  indexed_of_ok : ∀ {s id}, ok s id → ∃ b, s.getBlock id = some b
  parent : ∀ {s c p}, child s c p → ∃ b, s.getBlock c = some b ∧ b.parentBlockId = some p
  take : ∀ {s id b}, Indexed s → s.getBlock id = some b → policy.eligible s b = true →
    ∃ t, policy.take b s = .ok (result b) t ∧ Peeled child ok size (left b) s id t

section Heap

variable {policy : EvictionPolicy B P} {child : RadixPrefixIndex B P → B → B → Prop}
  {ok : RadixPrefixIndex B P → B → Prop} {size : RadixPrefixIndex B P → Nat}
  {result : PrefixCacheBlock B P → PrefixCacheBlock B P}
  {left : PrefixCacheBlock B P → Option (PrefixCacheBlock B P)}

theorem Peels.eligibleAt_iff (h : Peels policy child ok size result left) (hs : Indexed s) :
    EligibleAt policy.eligible s id ↔ ok s id ∧ ∀ c, ¬ child s c id := by
  constructor
  · rintro ⟨b, hb, hok⟩
    exact (h.eligible_iff hs hb).mp hok
  · rintro ⟨hok, hleaf⟩
    obtain ⟨b, hb⟩ := h.indexed_of_ok hok
    exact ⟨b, hb, (h.eligible_iff hs hb).mpr ⟨hok, hleaf⟩⟩

/-- **Only the parent of what goes becomes eligible**, and the others stay so. -/
theorem Peels.eligible_after (h : Peels policy child ok size result left) (hs : Indexed s)
    (hb : s.getBlock id = some b) (ht : Peeled child ok size (left b) s id t) {q : B} :
    (EligibleAt policy.eligible s q ∧ q ≠ id → EligibleAt policy.eligible t q) ∧
      (EligibleAt policy.eligible t q →
        q ≠ id ∧ (EligibleAt policy.eligible s q ∨ b.parentBlockId = some q)) := by
  rw [h.eligibleAt_iff hs, h.eligibleAt_iff ht.indexed, ht.ok]
  constructor
  · rintro ⟨⟨hok, hleaf⟩, hne⟩
    exact ⟨⟨hok, hne⟩, fun c hc => hleaf c ((ht.child c q).mp hc).1⟩
  · rintro ⟨⟨hok, hne⟩, hleaf⟩
    refine ⟨hne, ?_⟩
    by_cases hchild : ∃ c, child s c q
    · obtain ⟨c, hc⟩ := hchild
      right
      by_cases hcid : c = id
      · subst c
        obtain ⟨b', hb', hp⟩ := h.parent hc
        obtain rfl : b = b' := Option.some.inj (hb.symm.trans hb')
        exact hp
      · exact absurd ((ht.child c q).mpr ⟨hc, hcid⟩) (hleaf c)
    · exact Or.inl ⟨hok, fun c hc => hchild ⟨c, hc⟩⟩

/-! ## The heap -/

/-- The queue holds the eligible ids of `S`, each once and under its key. -/
structure Queued (eligible : RadixPrefixIndex B P → PrefixCacheBlock B P → Bool)
    (s : RadixPrefixIndex B P) (S : B → Prop) (q : List (EvictionKey B) × List B) : Prop where
  nodup : q.1.Nodup
  heap : ∀ k, k ∈ q.1 ↔
    ∃ id b, S id ∧ s.getBlock id = some b ∧ eligible s b = true ∧ k = evictionKey id b
  queued : ∀ id, id ∈ q.2 ↔ S id ∧ EligibleAt eligible s id

theorem Queued.empty : Queued eligible s (fun _ => False) ([], []) where
  nodup := List.nodup_nil
  heap := by simp
  queued := by simp

theorem Queued.congr {S S' : B → Prop} {q : List (EvictionKey B) × List B}
    (h : Queued eligible s S q) (hS : ∀ id, EligibleAt eligible s id → (S id ↔ S' id)) :
    Queued eligible s S' q where
  nodup := h.nodup
  heap k := by
    rw [h.heap]
    constructor
    · rintro ⟨id, b, hid, hb, hok, hk⟩
      exact ⟨id, b, (hS id ⟨b, hb, hok⟩).mp hid, hb, hok, hk⟩
    · rintro ⟨id, b, hid, hb, hok, hk⟩
      exact ⟨id, b, (hS id ⟨b, hb, hok⟩).mpr hid, hb, hok, hk⟩
  queued id := by
    rw [h.queued]
    constructor
    · exact fun hid => ⟨(hS id hid.2).mp hid.1, hid.2⟩
    · exact fun hid => ⟨(hS id hid.2).mpr hid.1, hid.2⟩

/-- `queue_if_…(id)` adds `id`. -/
theorem Queued.queueIf {S : B → Prop} {q : List (EvictionKey B) × List B}
    (h : Queued eligible s S q) (id : B) :
    Queued eligible s (fun other => S other ∨ other = id) (queueIf eligible s q id) := by
  -- an id that is queued already, or not eligible, adds nothing
  have hsame : (EligibleAt eligible s id → S id) →
      Queued eligible s (fun other => S other ∨ other = id) q := by
    intro hid
    apply h.congr
    intro other hother
    constructor
    · exact Or.inl
    · rintro (hmem | rfl)
      · exact hmem
      · exact hid hother
  unfold RadixPrefixIndex.queueIf
  split
  · rename_i hmem
    exact hsame fun _ => ((h.queued id).mp hmem).1
  · rename_i hmem
    rw [h.queued, not_and] at hmem
    cases hb : s.getBlock id with
    | none =>
      apply hsame
      rintro ⟨b, hb', _⟩
      rw [hb] at hb'
      cases hb'
    | some b =>
      dsimp only
      by_cases hok : eligible s b = true
      · rw [if_pos hok]
        have hnew : ¬ S id := fun hS => hmem hS ⟨b, hb, hok⟩
        refine ⟨List.nodup_cons.mpr ⟨?_, h.nodup⟩, fun k => ?_, fun other => ?_⟩
        · rw [h.heap]
          rintro ⟨other, b', hS, _, _, hk⟩
          have hid : id = other := congrArg keyId hk
          exact hnew (hid ▸ hS)
        · rw [List.mem_cons, h.heap]
          constructor
          · rintro (rfl | ⟨other, b', hS, hb', hok', hk⟩)
            · exact ⟨id, b, Or.inr rfl, hb, hok, rfl⟩
            · exact ⟨other, b', Or.inl hS, hb', hok', hk⟩
          · rintro ⟨other, b', hS | rfl, hb', hok', hk⟩
            · exact Or.inr ⟨other, b', hS, hb', hok', hk⟩
            · obtain rfl : b = b' := Option.some.inj (hb.symm.trans hb')
              exact Or.inl hk
        · rw [List.mem_cons, h.queued]
          constructor
          · rintro (rfl | ⟨hS, hother⟩)
            · exact ⟨Or.inr rfl, b, hb, hok⟩
            · exact ⟨Or.inl hS, hother⟩
          · rintro ⟨hS | rfl, hother⟩
            · exact Or.inr ⟨hS, hother⟩
            · exact Or.inl rfl
      · rw [if_neg hok]
        apply hsame
        rintro ⟨b', hb', hok'⟩
        obtain rfl : b = b' := Option.some.inj (hb.symm.trans hb')
        exact absurd hok' hok

theorem Queued.foldl {S : B → Prop} {q : List (EvictionKey B) × List B}
    (h : Queued eligible s S q) (ids : List B) :
    Queued eligible s (fun id => S id ∨ id ∈ ids)
      (ids.foldl (RadixPrefixIndex.queueIf eligible s) q) := by
  induction ids generalizing S q with
  | nil => exact h.congr fun id _ => by simp
  | cons i ids ih =>
    refine (ih (h.queueIf i)).congr fun id _ => ?_
    rw [List.mem_cons, or_assoc]

/-- The heap and the naive scan have the same least key. -/
theorem Queued.popMin {q : List (EvictionKey B) × List B}
    (h : Queued eligible s (fun _ => True) q) :
    (Lib.popMin q.1).map Prod.fst = (s.eligibleKeys eligible).min? := by
  have hmem : ∀ k, k ∈ q.1 ↔ k ∈ s.eligibleKeys eligible := by
    intro k
    rw [h.heap, mem_eligibleKeys]
    simp
  cases hpop : Lib.popMin q.1 with
  | none =>
    rw [popMin_eq_none] at hpop
    have hnil : s.eligibleKeys eligible = [] := by
      rw [List.eq_nil_iff_forall_not_mem]
      intro k hk
      rw [← hmem, hpop] at hk
      cases hk
    rw [hnil]
    rfl
  | some r =>
    obtain ⟨m, rest⟩ := r
    obtain ⟨hperm, hle⟩ := popMin_spec hpop
    symm
    rw [Option.map_some, List.min?_eq_some_iff]
    constructor
    · rw [← hmem]
      exact hperm.mem_iff.mpr List.mem_cons_self
    · exact fun k hk => hle k ((hmem k).mpr hk)

/-- What is left when the least key is popped. -/
theorem Queued.popped {q : List (EvictionKey B) × List B} {S : B → Prop} {k : EvictionKey B}
    {rest : List (EvictionKey B)} (h : Queued eligible s S q)
    (hpop : Lib.popMin q.1 = some (k, rest)) :
    ∃ b, S (keyId k) ∧ s.getBlock (keyId k) = some b ∧ eligible s b = true ∧
      Queued eligible s (fun id => S id ∧ id ≠ keyId k) (rest, q.2.filter (· ≠ keyId k)) := by
  obtain ⟨hperm, -⟩ := popMin_spec hpop
  obtain ⟨id, b, hS, hb, hok, rfl⟩ := (h.heap k).mp (hperm.mem_iff.mpr List.mem_cons_self)
  obtain ⟨hnew, hnodup⟩ := List.nodup_cons.mp (hperm.nodup_iff.mp h.nodup)
  refine ⟨b, hS, hb, hok, hnodup, fun k => ?_, fun other => ?_⟩
  · have hrest : k ∈ rest ↔ k ∈ q.1 ∧ k ≠ evictionKey id b := by
      rw [hperm.mem_iff, List.mem_cons]
      constructor
      · exact fun hk => ⟨Or.inr hk, fun he => hnew (he ▸ hk)⟩
      · exact fun ⟨hk, hne⟩ => hk.resolve_left hne
    show k ∈ rest ↔ _
    rw [hrest, h.heap]
    constructor
    · rintro ⟨⟨other, b', hS', hb', hok', rfl⟩, hne⟩
      refine ⟨other, b', ⟨hS', fun he => hne ?_⟩, hb', hok', rfl⟩
      obtain rfl : other = id := he
      rw [Option.some.inj (hb.symm.trans hb')]
    · rintro ⟨other, b', ⟨hS', hne⟩, hb', hok', rfl⟩
      exact ⟨⟨other, b', hS', hb', hok', rfl⟩, fun he => hne (congrArg keyId he)⟩
  · show other ∈ q.2.filter (· ≠ id) ↔ _
    rw [List.mem_filter, h.queued, decide_eq_true_eq]
    exact and_right_comm

/-- Once the block is taken and its parent queued, the queue is complete again. -/
theorem Queued.taken {q : List (EvictionKey B) × List B} (h : Peels policy child ok size result left)
    (hs : Indexed s) (hb : s.getBlock id = some b) (ht : Peeled child ok size (left b) s id t)
    (hq : Queued policy.eligible s (fun other => True ∧ other ≠ id) q) :
    Queued policy.eligible t (fun _ => True) (queueParent policy.eligible t q b) := by
  have hafter := fun q => h.eligible_after (q := q) hs hb ht
  have hold : Queued policy.eligible t
      (fun other => EligibleAt policy.eligible s other ∧ other ≠ id) q := by
    refine ⟨hq.nodup, fun k => ?_, fun other => ?_⟩
    · rw [hq.heap]
      constructor
      · rintro ⟨other, b', ⟨_, hne⟩, hb', hok', hk⟩
        obtain ⟨b'', hb'', hok''⟩ := (hafter other).1 ⟨⟨b', hb', hok'⟩, hne⟩
        obtain rfl : b' = b'' := by
          rw [ht.kept other hne, hb'] at hb''
          exact Option.some.inj hb''
        exact ⟨other, b', ⟨⟨b', hb', hok'⟩, hne⟩, hb'', hok'', hk⟩
      · rintro ⟨other, b', ⟨⟨b'', hb'', hok''⟩, hne⟩, hb', _, hk⟩
        obtain rfl : b'' = b' := by
          rw [ht.kept other hne, hb''] at hb'
          exact Option.some.inj hb'
        exact ⟨other, b'', ⟨trivial, hne⟩, hb'', hok'', hk⟩
    · rw [hq.queued]
      constructor
      · exact fun ⟨⟨_, hne⟩, hother⟩ => ⟨⟨hother, hne⟩, (hafter other).1 ⟨hother, hne⟩⟩
      · exact fun ⟨⟨hother, hne⟩, _⟩ => ⟨⟨trivial, hne⟩, hother⟩
  unfold queueParent
  cases hp : b.parentBlockId with
  | none =>
    refine hold.congr fun other hother => ⟨fun _ => trivial, fun _ => ?_⟩
    obtain ⟨hne, hother | hparent⟩ := (hafter other).2 hother
    · exact ⟨hother, hne⟩
    · rw [hp] at hparent
      cases hparent
  | some p =>
    refine (hold.queueIf p).congr fun other hother => ⟨fun _ => trivial, fun _ => ?_⟩
    obtain ⟨hne, hother | hparent⟩ := (hafter other).2 hother
    · exact Or.inl ⟨hother, hne⟩
    · exact Or.inr (Option.some.inj (hp.symm.trans hparent)).symm

/-- **The heap loop is the naive procedure**, whatever fuel above the number of blocks each has. -/
theorem evictionLoop_eq_greedyLoop (h : Peels policy child ok size result left) {needed : Int} :
    ∀ {fuel fuel' : Nat} {taken : Int} {q : List (EvictionKey B) × List B}
      {s : RadixPrefixIndex B P}, Indexed s → Queued policy.eligible s (fun _ => True) q →
      size s < fuel → size s < fuel' →
      evictionLoop policy needed fuel taken q s = greedyLoop policy needed fuel' taken s
  | 0, _, _, _, _, _, _, hfuel, _ => absurd hfuel (Nat.not_lt_zero _)
  | _ + 1, 0, _, _, _, _, _, _, hfuel => absurd hfuel (Nat.not_lt_zero _)
  | fuel + 1, fuel' + 1, taken, (heap, queued), s, hs, hq, hfuel, hfuel' => by
    unfold evictionLoop greedyLoop
    by_cases hdone : needed ≤ taken
    · rw [if_pos hdone, if_pos hdone]
    rw [if_neg hdone, if_neg hdone, get_bind, ← hq.popMin]
    cases hpop : Lib.popMin heap with
    | none => rfl
    | some r =>
      obtain ⟨key, rest⟩ := r
      obtain ⟨b, -, hb, hok, hrest⟩ := hq.popped hpop
      obtain ⟨t, htake, ht⟩ := h.take hs hb hok
      have hid : b.stableBlockId = (ofLex (ofLex key).2).2 := hs.ids _ b hb
      have hfilter : (s.getBlock (ofLex (ofLex key).2).2).filter (policy.eligible s) = some b := by
        rw [show s.getBlock (ofLex (ofLex key).2).2 = some b from hb]
        simp [hok]
      simp only [get_bind, hfilter, Option.map_some, Option.bind_some, hb, hid]
      rw [raiseIf_bind, raiseIf_bind]
      split
      · rfl
      rw [bind_ok htake, bind_ok htake, get_bind]
      have hloop : evictionLoop policy needed fuel (taken + policy.weight b)
          (queueParent policy.eligible t (rest, queued.filter (· ≠ keyId key)) b) t =
          greedyLoop policy needed fuel' (taken + policy.weight b) t :=
        evictionLoop_eq_greedyLoop h ht.indexed (Queued.taken h hs hb ht hrest)
          (by have := ht.size; omega) (by have := ht.size; omega)
      rw [bind_apply, bind_apply, ← hloop]
      rfl

/-! ## What the procedure takes -/

/-- The weight of blocks. -/
def totalWeight (weight : PrefixCacheBlock B P → Int) (blocks : List (PrefixCacheBlock B P)) : Int :=
  (blocks.map weight).sum

/-- `blocks` are what is taken from `s`, in order, up to `needed`. -/
structure Harvest (policy : EvictionPolicy B P) (child : RadixPrefixIndex B P → B → B → Prop)
    (ok : RadixPrefixIndex B P → B → Prop)
    (left : PrefixCacheBlock B P → Option (PrefixCacheBlock B P)) (needed taken : Int)
    (s : RadixPrefixIndex B P) (blocks : List (PrefixCacheBlock B P)) (t : RadixPrefixIndex B P) :
    Prop where
  indexed : Indexed t
  mem : ∀ b ∈ blocks, s.getBlock b.stableBlockId = some b ∧ t.getBlock b.stableBlockId = left b
  peeling : Peeling (child s) (ok s) ∅ (blocks.map (·.stableBlockId))
  kept : ∀ q, q ∉ blocks.map (·.stableBlockId) → t.getBlock q = s.getBlock q
  enough : needed ≤ taken + totalWeight policy.weight blocks ∨
    ∀ x, ok s x → (∀ c, child s c x → c ∈ blocks.map (·.stableBlockId)) →
      x ∈ blocks.map (·.stableBlockId)
  tight : ∀ pre b post, blocks = pre ++ b :: post →
    taken + totalWeight policy.weight pre < needed

/-- Nothing is taken when the weight is reached or no block is eligible. -/
theorem Harvest.nil {needed taken : Int} (hs : Indexed s)
    (h : needed ≤ taken ∨ ∀ x, ok s x → ¬ ∀ c, ¬ child s c x) :
    Harvest policy child ok left needed taken s [] s where
  indexed := hs
  mem := by simp
  peeling := trivial
  kept _ _ := rfl
  enough := by
    rcases h with h | h
    · exact Or.inl (by simpa [totalWeight] using h)
    · exact Or.inr fun x hx hall => absurd (fun c hc => by simpa using hall c hc) (h x hx)
  tight pre b post h := by simp at h

/-- One block, and then what is taken from there. -/
theorem Harvest.cons {needed taken : Int} {blocks : List (PrefixCacheBlock B P)}
    {u : RadixPrefixIndex B P} (hs : Indexed s) (hb : s.getBlock id = some b)
    (hlow : taken < needed) (hok : ok s id) (hleaf : ∀ c, ¬ child s c id)
    (ht : Peeled child ok size (left b) s id t)
    (h : Harvest policy child ok left needed (taken + policy.weight b) t blocks u) :
    Harvest policy child ok left needed taken s (b :: blocks) u := by
  have hid := hs.ids id b hb
  have hnew : id ∉ blocks.map (·.stableBlockId) := by
    intro hmem
    exact ((ht.ok id).mp (h.peeling.mem_ok hmem).1).2 rfl
  refine ⟨h.indexed, ?_, ?_, ?_, ?_, ?_⟩
  · intro b' hb'
    rcases List.mem_cons.mp hb' with rfl | hb'
    · rw [hid, h.kept id hnew]
      exact ⟨hb, ht.here⟩
    · obtain ⟨hmem, hleft⟩ := h.mem b' hb'
      have hne : b'.stableBlockId ≠ id := fun he => hnew (he ▸ List.mem_map_of_mem hb')
      exact ⟨(ht.kept _ hne).symm.trans hmem, hleft⟩
  · rw [List.map_cons, hid]
    refine ⟨⟨hok, Set.notMem_empty id, fun c hc => absurd hc (hleaf c)⟩, ?_⟩
    apply Peeling.of_removed
    have hchild : child t = fun c y => child s c y ∧ c ≠ id := by
      funext c y
      exact propext (ht.child c y)
    have hokeq : ok t = fun y => ok s y ∧ y ≠ id := by
      funext y
      exact propext (ht.ok y)
    rw [← hchild, ← hokeq]
    exact h.peeling
  · intro q hq
    rw [List.map_cons, List.mem_cons, not_or, hid] at hq
    exact (h.kept q hq.2).trans (ht.kept q hq.1)
  · rcases h.enough with henough | hall
    · left
      rw [totalWeight, List.map_cons, List.sum_cons]
      rw [totalWeight] at henough
      omega
    · right
      intro x hx hbelow
      rw [List.map_cons, List.mem_cons, hid]
      by_cases hxid : x = id
      · exact Or.inl hxid
      · refine Or.inr (hall x ((ht.ok x).mpr ⟨hx, hxid⟩) fun c hc => ?_)
        obtain ⟨hc, hcid⟩ := (ht.child c x).mp hc
        have := hbelow c hc
        rw [List.map_cons, List.mem_cons, hid] at this
        exact this.resolve_left hcid
  · intro pre b' post hsplit
    cases pre with
    | nil => simpa [totalWeight] using hlow
    | cons b'' pre =>
      obtain ⟨rfl, hrest⟩ := List.cons.inj hsplit
      have := h.tight pre b' post hrest
      rw [totalWeight, List.map_cons, List.sum_cons]
      rw [totalWeight] at this
      omega

/-- **The procedure returns**, when no weight is negative, what it harvests. -/
theorem greedyLoop_harvest (h : Peels policy child ok size result left)
    (hweight : ∀ b, 0 ≤ policy.weight b) {needed : Int} :
    ∀ {fuel : Nat} {taken : Int} {s : RadixPrefixIndex B P}, Indexed s → size s < fuel →
      ∃ blocks t, greedyLoop policy needed fuel taken s = .ok (blocks.map result) t ∧
        Harvest policy child ok left needed taken s blocks t
  | 0, _, _, _, hfuel => absurd hfuel (Nat.not_lt_zero _)
  | fuel + 1, taken, s, hs, hfuel => by
    unfold greedyLoop
    by_cases hdone : needed ≤ taken
    · rw [if_pos hdone]
      exact ⟨[], s, rfl, Harvest.nil hs (Or.inl hdone)⟩
    rw [if_neg hdone, get_bind]
    cases hmin : (s.eligibleKeys policy.eligible).min? with
    | none =>
      refine ⟨[], s, rfl, Harvest.nil hs (Or.inr fun x hx hleaf => ?_)⟩
      obtain ⟨b, hb, hok⟩ := (h.eligibleAt_iff hs).mpr ⟨hx, hleaf⟩
      have hmem := mem_eligibleKeys.mpr ⟨x, b, hb, hok, rfl⟩
      rw [List.min?_eq_none_iff] at hmin
      rw [hmin] at hmem
      cases hmem
    | some key =>
      obtain ⟨id, b, hb, hok, rfl⟩ := mem_eligibleKeys.mp (List.min?_mem hmin)
      obtain ⟨hbase, hleaf⟩ := (h.eligible_iff hs hb).mp hok
      obtain ⟨t, htake, ht⟩ := h.take hs hb hok
      have hnext : ∃ blocks u, greedyLoop policy needed fuel (taken + policy.weight b) t =
            .ok (blocks.map result) u ∧
          Harvest policy child ok left needed (taken + policy.weight b) t blocks u :=
        greedyLoop_harvest h hweight ht.indexed (by have := ht.size; omega)
      obtain ⟨blocks, u, hrun, hharvest⟩ := hnext
      refine ⟨b :: blocks, u, ?_, Harvest.cons hs hb (by omega) hbase hleaf ht hharvest⟩
      simp only [Option.bind_some, keyId_evictionKey, hb]
      rw [raiseIf_bind, if_neg (not_lt.mpr (hweight b)), bind_ok htake, bind_ok hrun]
      rfl

/-- **Started on enough candidates, an eviction is greedy.** -/
theorem runEviction_eq_greedyLoop (h : Peels policy child ok size result left) {needed : Int}
    {candidates : RadixPrefixIndex B P → List B} (hs : Indexed s)
    (hcand : ∀ id, EligibleAt policy.eligible s id → id ∈ candidates s)
    (hsize : size s ≤ s.size) {fuel : Nat} (hfuel : s.size < fuel) :
    runEviction policy needed candidates s = greedyLoop policy needed fuel 0 s := by
  unfold runEviction
  rw [get_bind]
  have hstart : Queued policy.eligible s (fun _ => False) ([], []) := Queued.empty
  have hq := hstart.foldl (candidates s)
  have hall : Queued policy.eligible s (fun _ => True)
      ((candidates s).foldl (queueIf policy.eligible s) ([], [])) :=
    hq.congr fun id hid => ⟨fun _ => trivial, fun _ => Or.inr (hcand id hid)⟩
  apply evictionLoop_eq_greedyLoop h hs hall
  · unfold evictionFuel
    unfold RadixPrefixIndex.size at hsize
    omega
  · omega

end Heap

/-! ## The three policies -/

/-- The policy of `evict_until_weight`. -/
def evictionPolicy (weight : PrefixCacheBlock B P → Int) : EvictionPolicy B P where
  eligible := canEvict
  weight := weight
  negativeWeight := .evictionWeight
  take := fun block => removeBlockFromIndex block.stableBlockId

/-- The policy of `evict_host_until_freeable`. -/
def hostEvictionPolicy : EvictionPolicy B P where
  eligible := canEvictHost
  weight := fun _ => 1
  negativeWeight := .evictionWeight
  take := fun block => removeBlockFromIndex block.stableBlockId

/-- The policy of `demote_device_until_weight`. -/
def demotionPolicy (weight : PrefixCacheBlock B P → Int) : EvictionPolicy B P where
  eligible := canDemoteDevice
  weight := weight
  negativeWeight := .demotionWeight
  take := demote

theorem Removed.child_iff (h : Removed s id t) {c p : B} : t.Child c p ↔ s.Child c p ∧ c ≠ id := by
  rw [RadixPrefixIndex.child_iff, RadixPrefixIndex.child_iff, h.getBlock]
  by_cases hc : c = id
  · simp [hc]
  · simp [hc]

/-- The block at `id` passes `base`. -/
def At (base : PrefixCacheBlock B P → Bool) (s : RadixPrefixIndex B P) (id : B) : Prop :=
  ∃ b, s.getBlock id = some b ∧ base b = true

/-- Removing leaves that pass a test. -/
theorem peels_removal {policy : EvictionPolicy B P} {base : PrefixCacheBlock B P → Bool}
    (hbase : ∀ b, base b = true → Removable b)
    (heligible : ∀ s b, policy.eligible s b =
      (base b && decide (s.backend.childCount b.stableBlockId = 0)))
    (htake : ∀ b, policy.take b = removeBlockFromIndex b.stableBlockId) :
    Peels policy Child (At base) size (fun b => b) (fun _ => none) where
  eligible_iff := by
    intro s id b hs hb
    rw [heligible, hs.ids id b hb, Bool.and_eq_true, decide_eq_true_eq, hs.childCount_eq_zero]
    constructor
    · exact fun ⟨hok, hleaf⟩ => ⟨⟨b, hb, hok⟩, hleaf⟩
    · rintro ⟨⟨b', hb', hok⟩, hleaf⟩
      obtain rfl : b = b' := Option.some.inj (hb.symm.trans hb')
      exact ⟨hok, hleaf⟩
  indexed_of_ok := by
    rintro s id ⟨b, hb, _⟩
    exact ⟨b, hb⟩
  parent := fun h => RadixPrefixIndex.child_iff.mp h
  take := by
    intro s id b hs hb hok
    rw [heligible, Bool.and_eq_true, decide_eq_true_eq] at hok
    rw [hs.ids id b hb] at hok
    obtain ⟨t, hrun, hgone⟩ := removeBlockFromIndex_ok hs hb (hbase b hok.1) hok.2
    refine ⟨t, by rw [htake, hs.ids id b hb, hrun], hs.removed hgone, ?_, fun q hq => ?_, fun q => ?_,
      fun c p => hgone.child_iff, ?_⟩
    · rw [hgone.getBlock, if_pos rfl]
    · rw [hgone.getBlock, if_neg hq]
    · unfold At
      rw [hgone.getBlock]
      by_cases hq : q = id
      · simp [hq]
      · simp [hq]
    · have := hgone.size
      omega

theorem peels_eviction (weight : PrefixCacheBlock B P → Int) :
    Peels (evictionPolicy weight) Child (At fun b => decide (Removable b)) size (fun b => b)
      (fun _ => none) :=
  peels_removal (fun _ hb => of_decide_eq_true hb) (fun _ _ => rfl) fun _ => rfl

theorem peels_hostEviction :
    Peels (hostEvictionPolicy (B := B) (P := P)) Child
      (At fun b => decide (Removable b) && !b.residency.devicePresent && b.residency.hostPresent)
      size (fun b => b) (fun _ => none) := by
  refine peels_removal (fun b hb => ?_) (fun _ _ => rfl) fun _ => rfl
  simp only [Bool.and_eq_true, decide_eq_true_eq] at hb
  exact hb.1.1

/-! ### Demotion -/

/-- A block without its device payload. -/
def demoted (b : PrefixCacheBlock B P) : PrefixCacheBlock B P :=
  { b with residency := { b.residency with devicePresent := false } }

theorem childOnDevice_demoted {q : B} :
    (s.resided id b (demoted b).residency).childOnDevice q = true ↔
      s.childOnDevice q = true ∧ q ≠ id := by
  unfold childOnDevice
  rw [getBlock_resided]
  by_cases hq : q = id
  · simp [hq, demoted]
  · simp [hq]

theorem child_resided {r : PrefixBlockResidency} (hb : s.getBlock id = some b) {c p : B} :
    (s.resided id b r).Child c p ↔ s.Child c p := by
  rw [RadixPrefixIndex.child_iff, RadixPrefixIndex.child_iff, getBlock_resided]
  by_cases hc : c = id
  · simp [hc, hb]
  · simp [hc]

theorem reclaimableAt_demoted {q : B} :
    (s.resided id b (demoted b).residency).reclaimableAt false q = true ↔
      s.reclaimableAt false q = true ∧ q ≠ id := by
  unfold reclaimableAt
  rw [getBlock_resided]
  by_cases hq : q = id
  · simp [hq, demoted, DeviceReclaimable]
  · simp [hq]

omit [LinearOrder B] in
theorem deviceIds_length : s.deviceIds.length =
    s.blocks.values.countP fun b => b.residency.devicePresent := by
  unfold deviceIds Dict.values
  rw [List.length_map, ← List.countP_eq_length_filter, List.countP_map]
  rfl

omit [LinearOrder B] in
theorem deviceIds_length_le : s.deviceIds.length ≤ s.size := by
  unfold deviceIds RadixPrefixIndex.size
  rw [List.length_map]
  exact List.length_filter_le _ _

/-- One block fewer has a device payload. -/
theorem deviceIds_demoted (hb : s.getBlock id = some b) (hdevice : b.residency.devicePresent = true) :
    (s.resided id b (demoted b).residency).deviceIds.length < s.deviceIds.length := by
  have hvalues : (s.resided id b (demoted b).residency).blocks.values =
      demoted b :: (s.blocks.pop id).values := Dict.values_set _ _ _
  rw [deviceIds_length, deviceIds_length, hvalues,
    (Dict.values_perm (d := s.blocks) hb).countP_eq, List.countP_cons, List.countP_cons]
  simp [demoted, hdevice]

theorem canDemoteDevice_iff (hs : Indexed s) (hb : s.getBlock id = some b) :
    s.canDemoteDevice b = true ↔
      s.reclaimableAt false id = true ∧ ∀ c, ¬ s.DeviceChild c id := by
  unfold canDemoteDevice reclaimableAt
  simp only [hb, hs.ids id b hb, Bool.and_eq_true, decide_eq_true_eq, hs.deviceChildCount_eq_zero]
  unfold DeviceReclaimable Removable
  simp only [Bool.false_eq_true, false_and, or_false]
  tauto

theorem peels_demotion (weight : PrefixCacheBlock B P → Int) :
    Peels (demotionPolicy weight) DeviceChild (fun s id => s.reclaimableAt false id = true)
      (fun s => s.deviceIds.length) demoted (fun b => some (demoted b)) where
  eligible_iff := fun hs hb => canDemoteDevice_iff hs hb
  indexed_of_ok := by
    intro s id hok
    unfold reclaimableAt at hok
    cases hb : s.getBlock id with
    | none => rw [hb] at hok; cases hok
    | some b => exact ⟨b, rfl⟩
  parent := fun h => RadixPrefixIndex.child_iff.mp h.1
  take := by
    intro s id b hs hb hok
    obtain ⟨r, rfl, hchange, hrun⟩ := demote_run hs hb hok
    refine ⟨s.resided id b (demoted b).residency, hrun, hs.resided hb (hchange.valid (hs.valid id b hb)),
      ?_, fun q hq => ?_, fun q => reclaimableAt_demoted, fun c p => ?_, ?_⟩
    · rw [getBlock_resided, if_pos rfl]
      rfl
    · rw [getBlock_resided, if_neg hq]
    · unfold DeviceChild
      rw [child_resided hb, childOnDevice_demoted]
      exact and_assoc.symm
    · exact deviceIds_demoted hb (canDemoteDevice_spec hs hok).2.1

/-! ## The evictions -/

/-- A leaf of the tree is among the leaf ids. -/
theorem mem_leafBlockIds (hs : Indexed s) (hb : s.getBlock id = some b) (hleaf : ∀ c, ¬ s.Child c id) :
    id ∈ s.backend.leafBlockIds := by
  rw [s.backend.leaves]
  exact ⟨hs.mem_ids.mpr ⟨b, hb⟩, fun c hc =>
    hleaf c (RadixPrefixIndex.child_iff.mpr ((hs.edges c _).mp hc))⟩

theorem evictUntilWeight_eq_greedyLoop (hs : Indexed s) (needed : Int)
    (weight : PrefixCacheBlock B P → Int) {fuel : Nat} (hfuel : s.size < fuel) :
    evictUntilWeight needed weight s = greedyLoop (evictionPolicy weight) needed fuel 0 s := by
  refine runEviction_eq_greedyLoop (peels_eviction weight) hs (fun id hid => ?_) le_rfl hfuel
  obtain ⟨⟨b, hb, _⟩, hleaf⟩ := ((peels_eviction weight).eligibleAt_iff hs).mp hid
  exact mem_leafBlockIds hs hb hleaf

theorem demoteDeviceUntilWeight_eq_greedyLoop (hs : Indexed s) (needed : Int)
    (weight : PrefixCacheBlock B P → Int) {fuel : Nat} (hfuel : s.size < fuel) :
    demoteDeviceUntilWeight needed weight s = greedyLoop (demotionPolicy weight) needed fuel 0 s := by
  refine runEviction_eq_greedyLoop (peels_demotion weight) hs (fun id hid => ?_) ?_ hfuel
  · obtain ⟨hok, hleaf⟩ := ((peels_demotion weight).eligibleAt_iff hs).mp hid
    rw [List.mem_filter, mem_deviceIds, decide_eq_true_eq, hs.deviceChildCount_eq_zero]
    exact ⟨childOnDevice_of_reclaimable hok, hleaf⟩
  · exact deviceIds_length_le

theorem evictHostUntilFreeable_eq_greedyLoop (hs : Indexed s) (needed : Int) {fuel : Nat}
    (hfuel : s.size < fuel) :
    evictHostUntilFreeable needed s = greedyLoop hostEvictionPolicy needed fuel 0 s := by
  refine runEviction_eq_greedyLoop peels_hostEviction hs (fun id hid => ?_) le_rfl hfuel
  obtain ⟨⟨b, hb, _⟩, hleaf⟩ := (peels_hostEviction.eligibleAt_iff hs).mp hid
  exact mem_leafBlockIds hs hb hleaf

/-- **The heap of each loop is the greedy policy**: what `evict_until_weight`,
`demote_device_until_weight` and `evict_host_until_freeable` return or raise, and the index they
leave, is what the procedure gives that scans all eligible blocks before each removal. -/
theorem evictions_greedy (hs : Indexed s) (needed : Int) (weight : PrefixCacheBlock B P → Int)
    {fuel : Nat} (hfuel : s.size < fuel) :
    evictUntilWeight needed weight s = greedyLoop (evictionPolicy weight) needed fuel 0 s ∧
      demoteDeviceUntilWeight needed weight s = greedyLoop (demotionPolicy weight) needed fuel 0 s ∧
      evictHostUntilFreeable needed s = greedyLoop hostEvictionPolicy needed fuel 0 s :=
  ⟨evictUntilWeight_eq_greedyLoop hs needed weight hfuel,
    demoteDeviceUntilWeight_eq_greedyLoop hs needed weight hfuel,
    evictHostUntilFreeable_eq_greedyLoop hs needed hfuel⟩

/-- A block of one position, its id the position after it. -/
def unitBlock (id : Nat) (parentBlockId : Option Nat) : PrefixCacheBlock Nat Unit where
  stableBlockId := id
  parentBlockId := parentBlockId
  blockSize := 1
  logicalBlockIdx := id - 1
  payload := ()

/-- The insertion of a block and of its child. -/
def twoBlocksRun : List (IndexOp Nat Unit) := [.insert (unitBlock 1 none), .insert (unitBlock 2 (some 1))]

/-- A block and its child. -/
def twoBlocks : RadixPrefixIndex Nat Unit := runAll IndexOp.exec (initial 1 none) twoBlocksRun

theorem evictions_greedy_twoBlocks :
    evictUntilWeight 2 (fun _ => 1) twoBlocks =
        greedyLoop (evictionPolicy fun _ => 1) 2 3 0 twoBlocks ∧
      demoteDeviceUntilWeight 2 (fun _ => 1) twoBlocks =
        greedyLoop (demotionPolicy fun _ => 1) 2 3 0 twoBlocks ∧
      evictHostUntilFreeable 2 twoBlocks = greedyLoop hostEvictionPolicy 2 3 0 twoBlocks := by
  have run : Reachable IndexOp.exec (fun _ _ => True) (initial 1 none) twoBlocks :=
    Reachable.init.runAll (by simp [twoBlocksRun, Along])
  exact evictions_greedy (indexed_of_run run) 2 (fun _ => 1) (by decide +kernel)

end SparseVllm.RadixPrefixIndex
