import Mathlib.Data.List.Chain
import SparseVllm.Prefix.Offload
import SparseVllm.Prefix.Residency

/-!
# Promotion of a host-only chain (`submit_h2d`)

A hit chain that is on the host only is promoted from the root down: `begin_h2d` wants a parent on
the device. The controller begins the blocks without tokens before the others, so the order of a
chain is kept only when its blocks without tokens come first.

## Results

* **`submitH2d_iff`**: a host-only chain is promoted exactly when no block without tokens follows a
  block with tokens (`EmptiesFirst`).
* `submitH2d_raises`: a chain of a block with tokens and its pruned child.
-/

namespace SparseVllm

open SparseVllm.Lib RadixPrefixIndex

variable {B : Type} [LinearOrder B]

/-! ## The order of a promotion -/

namespace RadixPrefixIndex

variable {s t : StandardIndex B}

/-- Every block of the list has its parent on the device, or earlier in the list. -/
def Fed (s : StandardIndex B) (l : List B) : Prop :=
  ∀ l₁ id l₂, l = l₁ ++ id :: l₂ → ∀ p, s.Child id p → p ∈ l₁ ∨ s.childOnDevice p = true

theorem Fed.left {l m : List B} (h : Fed s (l ++ m)) : Fed s l := by
  intro l₁ id l₂ hl p hp
  exact h l₁ id (l₂ ++ m) (by simp [hl]) p hp

/-- The blocks of the list came to the device; nothing else changed. -/
structure Landed (s : StandardIndex B) (l : List B) (t : StandardIndex B) : Prop where
  indexed : Indexed t
  landed : ∀ q ∈ l, ∃ b r, s.getBlock q = some b ∧ r.devicePresent = true ∧
    t.getBlock q = some { b with residency := r }
  others : ∀ q, q ∉ l → t.getBlock q = s.getBlock q

theorem Landed.nil (hs : Indexed s) : Landed s [] s := ⟨hs, nofun, fun _ _ => rfl⟩

theorem Landed.onDevice_iff (h : Landed s l t) (q : B) :
    t.childOnDevice q = true ↔ q ∈ l ∨ s.childOnDevice q = true := by
  by_cases hq : q ∈ l
  · obtain ⟨b, r, _, hr, ht⟩ := h.landed q hq
    simp [childOnDevice, ht, hr, hq]
  · simp [childOnDevice, h.others q hq, hq]

theorem Landed.child_iff (h : Landed s l t) (c p : B) : t.Child c p ↔ s.Child c p := by
  rw [RadixPrefixIndex.child_iff, RadixPrefixIndex.child_iff]
  by_cases hc : c ∈ l
  · obtain ⟨b, r, hb, _, ht⟩ := h.landed c hc
    simp [hb, ht]
  · rw [h.others c hc]

theorem Landed.trans {l m : List B} {u : StandardIndex B} (h : Landed s l t) (h' : Landed t m u)
    (hdisjoint : ∀ q ∈ m, q ∉ l) : Landed s (l ++ m) u where
  indexed := h'.indexed
  landed q hq := by
    by_cases hm : q ∈ m
    · obtain ⟨b, r, hb, hr, ht⟩ := h'.landed q hm
      exact ⟨b, r, h.others q (hdisjoint q hm) ▸ hb, hr, ht⟩
    · rw [h'.others q hm]
      exact h.landed q ((List.mem_append.mp hq).resolve_right hm)
  others q hq := by
    rw [List.mem_append, not_or] at hq
    rw [h'.others q hq.2, h.others q hq.1]

/-- A list is fed piecewise: the second piece from where the first one landed. -/
theorem Landed.fed_append {l m : List B} (h : Landed s l t) : Fed s (l ++ m) ↔ Fed s l ∧ Fed t m := by
  constructor
  · refine fun hfed => ⟨Fed.left hfed, ?_⟩
    intro m₁ id m₂ hm p hp
    have := hfed (l ++ m₁) id m₂ (by simp [hm]) p ((h.child_iff id p).mp hp)
    rw [h.onDevice_iff]
    rw [List.mem_append] at this
    tauto
  · rintro ⟨hl, hm⟩ l₁ id l₂ heq p hp
    rcases List.append_eq_append_iff.mp heq with ⟨k, rfl, rfl⟩ | ⟨k, rfl, hk⟩
    · have := hm k id l₂ rfl p ((h.child_iff id p).mpr hp)
      rw [h.onDevice_iff] at this
      rw [List.mem_append]
      tauto
    · cases k with
      | nil =>
        rw [List.nil_append] at hk
        have := hm [] id l₂ hk.symm p ((h.child_iff id p).mpr hp)
        rw [h.onDevice_iff, List.append_nil] at this
        exact this.resolve_left List.not_mem_nil
      | cons a k =>
        obtain ⟨rfl, rfl⟩ : id = a ∧ l₂ = k ++ m := by simpa using hk
        exact hl l₁ id k rfl p hp

theorem fed_singleton {id : B} : Fed s [id] ↔ ∀ p, s.Child id p → s.childOnDevice p = true := by
  constructor
  · intro h p hp
    exact (h [] id [] rfl p hp).resolve_left List.not_mem_nil
  · intro h l₁ q l₂ hl p hp
    obtain ⟨rfl, rfl, rfl⟩ : l₁ = [] ∧ q = id ∧ l₂ = [] := by
      cases l₁ with
      | nil => simpa [eq_comm] using hl
      | cons a l₁ => simp at hl
    exact Or.inr (h p hp)

theorem parentReady_device (hs : Indexed s) {id : B} {b : StandardBlock B}
    (hb : s.getBlock id = some b) :
    s.parentReady b (·.devicePresent) = true ↔ Fed s [id] := by
  rw [fed_singleton]
  cases hp : b.parentBlockId with
  | none =>
    simp only [parentReady, hp, true_iff]
    intro p hchild
    obtain ⟨b', hb', hp'⟩ := child_iff.mp hchild
    obtain rfl := Option.some.inj (hb.symm.trans hb')
    simp [hp] at hp'
  | some p =>
    obtain ⟨parent, hparent⟩ := hs.parent_indexed hb hp
    rw [parentReady_iff hp hparent]
    have honDevice : s.childOnDevice p = parent.residency.devicePresent := by
      simp [childOnDevice, hparent]
    constructor
    · intro hdevice q hchild
      obtain ⟨b', hb', hp'⟩ := child_iff.mp hchild
      obtain rfl := Option.some.inj (hb.symm.trans hb')
      obtain rfl := Option.some.inj (hp.symm.trans hp')
      rw [honDevice, hdevice]
    · intro h
      rw [← honDevice]
      exact h p (child_iff.mpr ⟨b, hb, hp⟩)

end RadixPrefixIndex

namespace StandardPrefixOffloadController

variable {c t : StandardPrefixOffloadController B}

/-! ## The loops -/

omit [LinearOrder B] in
theorem onIndex_ok {α : Type} {m : PrefixIndexM B StandardPrefixBlockPayload α} {a : α}
    {s : StandardIndex B} (h : m c.prefixCache = .ok a s) :
    onIndex m c = .ok a { c with prefixCache := s } := zoom_ok h

/-- The block at `id` is on the host only, with no transfer. -/
def HostOnly (s : StandardIndex B) (id : B) : Prop :=
  ∃ b, s.getBlock id = some b ∧ b.residency = ⟨false, true, none⟩

theorem beginH2d_ok (hs : Indexed c.prefixCache) {id : B} (h : HostOnly c.prefixCache id) :
    (∃ e u, onIndex (beginH2d id) c = .error e u) ∧ ¬ Fed c.prefixCache [id] ∨
      Fed c.prefixCache [id] ∧ ∃ b, c.prefixCache.getBlock id = some b ∧
        onIndex (beginH2d id) c = .ok () { c with
          prefixCache := c.prefixCache.resided id b ⟨true, true, some .h2d⟩ } := by
  obtain ⟨b, hb, hres⟩ := h
  have hvalid := hs.valid id b hb
  have hstart : beginH2d id c.prefixCache =
      (raiseIf (c.prefixCache.parentReady b (·.devicePresent) = false) .h2dPathBroken >>= fun _ =>
        reside id b { b.residency with devicePresent := true, transfer := some .h2d })
          c.prefixCache := by
    unfold beginH2d
    rw [bind_ok (indexed_some _ hb), bind_ok (validate_ok hvalid)]
    simp [raiseIf_bind, hres]
  rw [raiseIf_bind] at hstart
  by_cases hready : c.prefixCache.parentReady b (·.devicePresent) = true
  · right
    refine ⟨(parentReady_device hs hb).mp hready, b, hb, onIndex_ok ?_⟩
    rw [hstart, if_neg (by simp [hready]), hres]
    exact reside_ok (by decide)
  · left
    refine ⟨⟨_, _, zoom_error (hstart.trans (if_pos (by simpa using hready)))⟩, ?_⟩
    exact fun hfed => hready ((parentReady_device hs hb).mpr hfed)

/-- A method that brings one host-only block to the device, or raises when its parent is not
there. -/
structure Promoter (promote : B → PrefixOffloadM B Unit) : Prop where
  raises : ∀ c id, Indexed c.prefixCache → HostOnly c.prefixCache id → ¬ Fed c.prefixCache [id] →
    ∃ e u, promote id c = .error e u
  lands : ∀ c id, Indexed c.prefixCache → HostOnly c.prefixCache id → Fed c.prefixCache [id] →
    ∃ s, promote id c = .ok () { c with prefixCache := s } ∧ Landed c.prefixCache [id] s

theorem landed_resided {s : StandardIndex B} (hs : Indexed s) {id : B} {b : StandardBlock B}
    {r : PrefixBlockResidency} (hb : s.getBlock id = some b) (hr : r.Valid)
    (hdevice : r.devicePresent = true) : Landed s [id] (s.resided id b r) where
  indexed := hs.resided hb hr
  landed q hq := by
    obtain rfl := List.mem_singleton.mp hq
    exact ⟨b, r, hb, hdevice, by rw [getBlock_resided, if_pos rfl]⟩
  others q hq := by
    rw [getBlock_resided, if_neg (by simpa using hq)]

theorem promoter_beginH2d : Promoter (B := B) fun id => onIndex (beginH2d id) where
  raises c id hs h hfed := by
    rcases beginH2d_ok hs h with ⟨hraise, _⟩ | ⟨hfed', _⟩
    · exact hraise
    · exact absurd hfed' hfed
  lands c id hs h hfed := by
    rcases beginH2d_ok hs h with ⟨_, hnot⟩ | ⟨_, b, hb, hok⟩
    · exact absurd hfed hnot
    · exact ⟨_, hok, landed_resided hs hb (by decide) rfl⟩

theorem promoter_promoteEmpty : Promoter (B := B) promoteEmpty where
  raises c id hs h hfed := by
    obtain ⟨e, u, hraise⟩ := promoter_beginH2d.raises c id hs h hfed
    exact ⟨e, u, bind_error hraise⟩
  lands c id hs h hfed := by
    rcases beginH2d_ok hs h with ⟨_, hnot⟩ | ⟨_, b, hb, hok⟩
    · exact absurd hfed hnot
    have hnew := hs.resided hb (r := ⟨true, true, some .h2d⟩) (by decide)
    have hhere : (c.prefixCache.resided id b ⟨true, true, some .h2d⟩).getBlock id =
        some { b with residency := ⟨true, true, some .h2d⟩ } := by
      rw [getBlock_resided, if_pos rfl]
    have hfinish : finishH2d id (c.prefixCache.resided id b ⟨true, true, some .h2d⟩) =
        .ok () ((c.prefixCache.resided id b ⟨true, true, some .h2d⟩).resided id
          { b with residency := ⟨true, true, some .h2d⟩ } ⟨true, true, none⟩) := by
      unfold finishH2d
      rw [bind_ok (indexed_some _ hhere)]
      simp only [raiseIf_bind, ne_eq, not_true_eq_false, if_false]
      exact reside_ok (by decide)
    refine ⟨_, (bind_ok hok).trans (onIndex_ok hfinish), ?_⟩
    constructor
    · exact hnew.resided hhere (by decide)
    · intro q hq
      obtain rfl := List.mem_singleton.mp hq
      exact ⟨b, ⟨true, true, none⟩, hb, rfl, by rw [getBlock_resided, if_pos rfl]⟩
    · intro q hq
      have hne : q ≠ id := by simpa using hq
      rw [getBlock_resided, if_neg hne, getBlock_resided, if_neg hne]

/-- **A loop over host-only blocks** returns exactly when the list is fed. -/
theorem Promoter.forEach {promote : B → PrefixOffloadM B Unit} (hp : Promoter promote)
    (l : List B) : ∀ {c : StandardPrefixOffloadController B}, Indexed c.prefixCache → l.Nodup →
    (∀ id ∈ l, HostOnly c.prefixCache id) →
    (∃ e u, forEach l promote c = .error e u) ∧ ¬ Fed c.prefixCache l ∨
      Fed c.prefixCache l ∧ ∃ s, forEach l promote c = .ok () { c with prefixCache := s } ∧
        Landed c.prefixCache l s := by
  induction l with
  | nil =>
    intro c hs _ _
    exact Or.inr ⟨fun l₁ id l₂ h => by simp at h, c.prefixCache, rfl, Landed.nil hs⟩
  | cons id l ih =>
    intro c hs hnodup hhost
    obtain ⟨hid, hnodup⟩ := List.nodup_cons.mp hnodup
    have hhere := hhost id List.mem_cons_self
    by_cases hfed : Fed c.prefixCache [id]
    · obtain ⟨s, hok, hland⟩ := hp.lands c id hs hhere hfed
      have hsplit : Fed c.prefixCache (id :: l) ↔ Fed s l := by
        rw [← List.singleton_append, hland.fed_append]
        exact and_iff_right hfed
      have hrest : ∀ q ∈ l, HostOnly s q := by
        intro q hq
        obtain ⟨b, hb, hres⟩ := hhost q (List.mem_cons_of_mem id hq)
        have hne : q ∉ [id] := by
          rintro hmem
          obtain rfl := List.mem_singleton.mp hmem
          exact hid hq
        exact ⟨b, (hland.others q hne).trans hb, hres⟩
      rcases ih (c := { c with prefixCache := s }) hland.indexed hnodup hrest with
        ⟨⟨e, u, hraise⟩, hnot⟩ | ⟨hfed', s', hrun, hland'⟩
      · exact Or.inl ⟨⟨e, u, (bind_ok hok).trans hraise⟩, fun h => hnot (hsplit.mp h)⟩
      · refine Or.inr ⟨hsplit.mpr hfed', s', (bind_ok hok).trans hrun, ?_⟩
        refine hland.trans hland' fun q hq hmem => ?_
        obtain rfl := List.mem_singleton.mp hmem
        exact hid hq
    · left
      obtain ⟨e, u, hraise⟩ := hp.raises c id hs hhere hfed
      exact ⟨⟨e, u, bind_error hraise⟩, fun h => hfed (Fed.left (l := [id]) h)⟩

omit [LinearOrder B] in
/-- The handlers of a begin loop do not change whether it returns. -/
theorem beginEach_cases (begin : B → PrefixOffloadM B Unit) (undo : List B → PrefixOffloadM B Unit)
    (l : List B) : ∀ (begun : List B) (c : StandardPrefixOffloadController B),
    (∀ u, forEach l begin c = .ok () u → beginEach begin undo l begun c = .ok () u) ∧
      ((∃ e u, forEach l begin c = .error e u) →
        ∃ e u, beginEach begin undo l begun c = .error e u) := by
  induction l with
  | nil =>
    intro begun c
    exact ⟨fun u h => h, fun ⟨e, u, h⟩ => by cases h⟩
  | cons id l ih =>
    intro begun c
    unfold beginEach Lib.forEach
    cases h : begin id c with
    | ok _ t =>
      rw [bind_ok h, bind_ok (onRaise_ok h)]
      exact ih (id :: begun) t
    | error e t =>
      rw [bind_error h]
      refine ⟨fun u hu => (by cases hu), fun _ => ?_⟩
      obtain ⟨e', u, hraise⟩ := onRaise_error (undo begun) h
      exact ⟨e', u, bind_error hraise⟩

/-! ## `submit_h2d` -/

/-- The block at `id` retains no token. -/
def tokenless (c : StandardPrefixOffloadController B) (id : B) : Bool :=
  match c.prefixCache.getBlock id with
  | some block => block.payload.residentTokens c.blockSize = 0
  | none => false

/-- What a block on the host only carries when it is promoted: device slots for its retained
tokens, and its host index. -/
structure Promotable (blockSize : Nat) (block : StandardBlock B) : Prop where
  hostOnly : block.residency = ⟨false, true, none⟩
  slots : (block.payload.deviceSlots blockSize).isSome
  offsets : ∀ offset ∈ block.payload.offsets blockSize, offset < blockSize
  hostIndex : block.payload.hostBlockIndex.isSome

/-- A root-to-leaf list of host-only blocks below the root or a block on the device. -/
structure HitChain (c : StandardPrefixOffloadController B) (blocks : List B) : Prop where
  nonempty : blocks ≠ []
  promotable : ∀ id ∈ blocks, ∃ block, c.prefixCache.getBlock id = some block ∧
    Promotable c.blockSize block
  path : blocks.IsChain fun parent child => c.prefixCache.Child child parent
  top : ∀ id ∈ blocks.head?, ∀ p, c.prefixCache.Child id p → c.prefixCache.childOnDevice p = true

/-- `submit_h2d` returns, with every block of the list on the device. -/
def Promotes (c : StandardPrefixOffloadController B) (blocks : List B) : Prop :=
  ∃ operation t, submitH2d blocks c = .ok operation t ∧
    ∀ id ∈ blocks, t.prefixCache.childOnDevice id = true

/-- No block without tokens comes after a block with tokens. -/
def EmptiesFirst (c : StandardPrefixOffloadController B) (blocks : List B) : Prop :=
  blocks.Pairwise fun a b => c.tokenless b = true → c.tokenless a = true

instance (c : StandardPrefixOffloadController B) (blocks : List B) :
    Decidable (EmptiesFirst c blocks) := by
  unfold EmptiesFirst
  infer_instance

section Chain

variable {blocks : List B}

theorem HitChain.hostOnly (h : HitChain c blocks) {id : B} (hid : id ∈ blocks) :
    HostOnly c.prefixCache id := by
  obtain ⟨block, hblock, hp⟩ := h.promotable id hid
  exact ⟨block, hblock, hp.hostOnly⟩

theorem HitChain.not_onDevice (h : HitChain c blocks) {id : B} (hid : id ∈ blocks) :
    ¬ c.prefixCache.childOnDevice id = true := by
  obtain ⟨block, hblock, hres⟩ := h.hostOnly hid
  simp [childOnDevice, hblock, hres]

/-- The blocks get deeper along the chain. -/
theorem HitChain.nodup (hs : Indexed c.prefixCache) (h : HitChain c blocks) : blocks.Nodup := by
  have hdeeper : blocks.IsChain fun a b => c.prefixCache.depth a < c.prefixCache.depth b := by
    refine h.path.imp fun a b hchild => ?_
    rw [hs.depth_child hchild]
    exact Nat.lt_succ_self _
  have htrans : IsTrans B fun a b => c.prefixCache.depth a < c.prefixCache.depth b :=
    ⟨fun _ _ _ => Nat.lt_trans⟩
  refine (List.isChain_iff_pairwise.mp hdeeper).imp ?_
  rintro a b hlt rfl
  exact Nat.lt_irrefl _ hlt

omit [LinearOrder B] in
theorem filter_append_filter_not (p : B → Bool) (l : List B)
    (h : l.Pairwise fun a b => p b = true → p a = true) :
    l.filter p ++ l.filter (fun a => !p a) = l := by
  induction l with
  | nil => rfl
  | cons a l ih =>
    obtain ⟨ha, hl⟩ := List.pairwise_cons.mp h
    by_cases hp : p a = true
    · simp [hp, ih hl]
    · have hrest : ∀ b ∈ l, p b = false := fun b hb => by
        simpa using fun hb' => hp (ha b hb hb')
      have hempty : l.filter p = [] := List.filter_eq_nil_iff.mpr fun b hb => by simp [hrest b hb]
      have hall : l.filter (fun a => !p a) = l :=
        List.filter_eq_self.mpr fun b hb => by simp [hrest b hb]
      simp [hp, hempty, hall]

/-- Promoting the blocks without tokens first feeds the chain exactly when they come first. -/
theorem HitChain.fed_iff (h : HitChain c blocks) :
    Fed c.prefixCache (blocks.filter c.tokenless ++ blocks.filter fun id => !c.tokenless id) ↔
      EmptiesFirst c blocks := by
  constructor
  · intro hfed
    have htrans : IsTrans B fun a b => c.tokenless b = true → c.tokenless a = true :=
      ⟨fun _ _ _ hab hbc hc => hab (hbc hc)⟩
    refine List.isChain_iff_pairwise.mp ?_
    refine List.IsChain.imp_of_mem_imp (fun a b ha hb hchild hempty => ?_) h.path
    obtain ⟨l₁, l₂, hl⟩ := List.append_of_mem (List.mem_filter.mpr ⟨hb, hempty⟩)
    have hparent := hfed l₁ b (l₂ ++ blocks.filter fun id => !c.tokenless id)
      (by rw [hl, List.append_assoc, List.cons_append]) a hchild
    have hmem : a ∈ blocks.filter c.tokenless := by
      rw [hl]
      exact List.mem_append_left _ (hparent.resolve_right (h.not_onDevice ha))
    exact (List.mem_filter.mp hmem).2
  · intro hfirst
    rw [filter_append_filter_not _ _ hfirst]
    intro l₁ id l₂ hl p hp
    rcases List.eq_nil_or_concat' l₁ with rfl | ⟨l, a, rfl⟩
    · exact Or.inr (h.top id (by simp [hl]) p hp)
    · left
      have hchild : c.prefixCache.Child id a :=
        List.isChain_iff_forall_rel_of_append_cons_cons.mp h.path (by simpa using hl)
      have hparent : some p = some a := hp.symm.trans hchild
      obtain rfl := Option.some.inj hparent
      simp

theorem blockOf_ok {id : B} {block : StandardBlock B} (h : c.prefixCache.getBlock id = some block) :
    blockOf id c = .ok block c := onIndex_ok (indexed_some _ h)

theorem payloadDeviceSlots_ok {id : B} {block : StandardBlock B} {slots : List Nat}
    (h : c.prefixCache.getBlock id = some block)
    (hslots : block.payload.deviceSlots c.blockSize = some slots) :
    payloadDeviceSlots id c = .ok slots c := by
  unfold payloadDeviceSlots
  rw [bind_ok (blockOf_ok h), get_bind, hslots]
  rfl

theorem payloadRetainedOffsets_ok {id : B} {block : StandardBlock B}
    (h : c.prefixCache.getBlock id = some block)
    (hoffsets : ∀ offset ∈ block.payload.offsets c.blockSize, offset < c.blockSize) :
    payloadRetainedOffsets id c = .ok (block.payload.offsets c.blockSize) c := by
  unfold payloadRetainedOffsets
  rw [bind_ok (blockOf_ok h), get_bind, raiseIf_bind, if_neg]
  · rfl
  · rintro ⟨offset, hmem, hle⟩
    exact absurd (hoffsets offset hmem) (Nat.not_lt.mpr hle)

theorem payloadHostIndex_ok {id : B} {block : StandardBlock B} {index : Nat}
    (h : c.prefixCache.getBlock id = some block)
    (hindex : block.payload.hostBlockIndex = some index) :
    payloadHostIndex id c = .ok index c := by
  unfold payloadHostIndex
  rw [bind_ok (blockOf_ok h), hindex]
  rfl

omit [LinearOrder B] in
theorem filter_zip_map {β : Type} (f : B → β) (p : β → Bool) (l : List B) :
    ((l.zip (l.map f)).filter fun entry => p entry.2).map (·.1) = l.filter fun a => p (f a) := by
  induction l with
  | nil => rfl
  | cons a l ih =>
    rw [List.map_cons, List.zip_cons_cons]
    by_cases hp : p (f a) = true
    · simp [hp, ih]
    · simp [hp, ih]

theorem emptyBlocks_ok (h : ∀ id ∈ blocks, ∃ block, c.prefixCache.getBlock id = some block ∧
    Promotable c.blockSize block) : emptyBlocks blocks c = .ok (blocks.filter c.tokenless) c := by
  let slotsAt : B → List Nat := fun id =>
    ((c.prefixCache.getBlock id).bind fun block => block.payload.deviceSlots c.blockSize).getD []
  have hat : ∀ id ∈ blocks, payloadDeviceSlots id c = .ok (slotsAt id) c ∧
      c.tokenless id = decide ((slotsAt id).length = 0) := by
    intro id hid
    obtain ⟨block, hblock, hp⟩ := h id hid
    obtain ⟨slots, hslots⟩ := Option.isSome_iff_exists.mp hp.slots
    have hlength : slots.length = block.payload.residentTokens c.blockSize := by
      simpa using (Option.filter_eq_some_iff.mp hslots).2
    have hslotsAt : slotsAt id = slots := by simp [slotsAt, hblock, hslots]
    rw [hslotsAt]
    exact ⟨payloadDeviceSlots_ok hblock hslots, by simp [tokenless, hblock, hlength]⟩
  unfold emptyBlocks
  rw [bind_ok (mapEach_ok fun id hid => (hat id hid).1),
    filter_zip_map slotsAt fun slots => decide (slots.length = 0)]
  rw [List.filter_congr fun id hid => (hat id hid).2]
  rfl

variable (blocks) in
/-- The asynchronous part returns exactly when its begin loop does. -/
theorem transferH2d_cases (h : ∀ id ∈ blocks, ∃ block, c.prefixCache.getBlock id = some block ∧
    Promotable c.blockSize block) :
    (∀ s, forEach blocks (fun id => onIndex (beginH2d id)) c = .ok () { c with prefixCache := s } →
      ∃ operation t, transferH2d blocks c = .ok operation t ∧ t.prefixCache = s) ∧
    ((∃ e u, forEach blocks (fun id => onIndex (beginH2d id)) c = .error e u) →
      ∃ e u, transferH2d blocks c = .error e u) := by
  by_cases hnil : blocks = []
  · subst hnil
    refine ⟨fun s hs => ⟨none, c, rfl, ?_⟩, fun ⟨e, u, h⟩ => (nomatch h)⟩
    have hc : c = { c with prefixCache := s } := by simpa [Lib.forEach] using hs
    exact congrArg prefixCache hc
  have hread : transferH2d blocks c = (beginEach (fun id => onIndex (beginH2d id))
      (fun begun => forEach begun fun id => onIndex (abortH2d id)) blocks [] >>= fun _ => do
        let operation : PrefixH2DOperation B := { blocks := blocks, deviceTokenIndices :=
          (blocks.map fun id => ((c.prefixCache.getBlock id).bind fun block =>
            block.payload.deviceSlots c.blockSize).getD []).flatten }
        modify fun c => { c with
          h2dOperations := c.h2dOperations ++ [operation]
          h2dBlockIds := blocks ++ c.h2dBlockIds }
        pure (some operation)) c := by
    have hindex : ∀ id ∈ blocks, payloadHostIndex id c = .ok
        (((c.prefixCache.getBlock id).bind fun block => block.payload.hostBlockIndex).getD 0)
          c := by
      intro id hid
      obtain ⟨block, hblock, hp⟩ := h id hid
      obtain ⟨index, hindex⟩ := Option.isSome_iff_exists.mp hp.hostIndex
      simpa [hblock, hindex] using payloadHostIndex_ok hblock hindex
    have hoffsets : ∀ id ∈ blocks, payloadRetainedOffsets id c = .ok
        (((c.prefixCache.getBlock id).map fun block =>
          block.payload.offsets c.blockSize).getD []) c := by
      intro id hid
      obtain ⟨block, hblock, hp⟩ := h id hid
      simpa [hblock] using payloadRetainedOffsets_ok hblock hp.offsets
    have hslots : ∀ id ∈ blocks, payloadDeviceSlots id c = .ok
        (((c.prefixCache.getBlock id).bind fun block =>
          block.payload.deviceSlots c.blockSize).getD []) c := by
      intro id hid
      obtain ⟨block, hblock, hp⟩ := h id hid
      obtain ⟨slots, hslots⟩ := Option.isSome_iff_exists.mp hp.slots
      simpa [hblock, hslots] using payloadDeviceSlots_ok hblock hslots
    unfold transferH2d
    rw [if_neg hnil, bind_ok (mapEach_ok hindex), bind_ok (mapEach_ok hoffsets),
      bind_ok (mapEach_ok hslots)]
  rw [hread]
  have hcases := beginEach_cases (fun id => onIndex (beginH2d id))
    (fun begun => forEach begun fun id => onIndex (abortH2d id)) blocks [] c
  constructor
  · intro s hs
    exact ⟨_, _, bind_ok (hcases.1 _ hs), rfl⟩
  · rintro hraise
    obtain ⟨e, u, hraise⟩ := hcases.2 hraise
    exact ⟨e, u, bind_error hraise⟩

/-- **A host-only chain is promoted exactly when its blocks without tokens come first.** -/
theorem submitH2d_iff (hs : Indexed c.prefixCache) (h : HitChain c blocks) :
    Promotes c blocks ↔ EmptiesFirst c blocks := by
  rw [← h.fed_iff]
  have hnodup := h.nodup hs
  have hkept : blocks.filter (· ∉ blocks.filter c.tokenless) =
      blocks.filter fun id => !c.tokenless id :=
    List.filter_congr fun id hid => by simp [hid]
  have hstart : submitH2d blocks c = (forEach (blocks.filter c.tokenless) promoteEmpty >>= fun _ =>
      transferH2d (blocks.filter fun id => !c.tokenless id)) c := by
    unfold submitH2d
    rw [raiseIf_bind, if_neg h.nonempty, bind_ok (emptyBlocks_ok h.promotable), hkept]
  rcases promoter_promoteEmpty.forEach (blocks.filter c.tokenless) hs (hnodup.filter _)
    (fun id hid => h.hostOnly (List.mem_of_mem_filter hid)) with
    ⟨⟨e, u, hraise⟩, hnot⟩ | ⟨hfed, s, hrun, hland⟩
  · -- a block without tokens is not fed: the first loop raises
    constructor
    · rintro ⟨operation, t, hok, _⟩
      rw [hstart, bind_error hraise] at hok
      cases hok
    · intro hall
      exact absurd (Fed.left hall) hnot
  · rw [hland.fed_append, and_iff_right hfed]
    have hothers : ∀ id ∈ blocks.filter (fun id => !c.tokenless id),
        id ∈ blocks ∧ s.getBlock id = c.prefixCache.getBlock id := by
      intro id hid
      obtain ⟨hmem, hfull⟩ := List.mem_filter.mp hid
      refine ⟨hmem, hland.others id fun hempty => ?_⟩
      simp [(List.mem_filter.mp hempty).2] at hfull
    have hhost : ∀ id ∈ blocks.filter (fun id => !c.tokenless id), HostOnly s id := by
      intro id hid
      obtain ⟨hmem, hsame⟩ := hothers id hid
      obtain ⟨block, hblock, hres⟩ := h.hostOnly hmem
      exact ⟨block, hsame.trans hblock, hres⟩
    have htransfer := transferH2d_cases (c := { c with prefixCache := s })
      (blocks.filter fun id => !c.tokenless id) fun id hid => by
        obtain ⟨hmem, hsame⟩ := hothers id hid
        obtain ⟨block, hblock, hp⟩ := h.promotable id hmem
        exact ⟨block, hsame.trans hblock, hp⟩
    rcases promoter_beginH2d.forEach (c := { c with prefixCache := s }) _ hland.indexed
      (hnodup.filter _) hhost with ⟨hraise, hnot⟩ | ⟨hfed', s', hrun', hland'⟩
    · -- a block with tokens is not fed: the second loop raises
      refine iff_of_false ?_ hnot
      rintro ⟨operation, t, hok, _⟩
      obtain ⟨e, u, hraise⟩ := htransfer.2 hraise
      rw [hstart, bind_ok hrun, hraise] at hok
      cases hok
    · refine iff_of_true ?_ hfed'
      obtain ⟨operation, t, hok, rfl⟩ := htransfer.1 s' hrun'
      refine ⟨operation, t, by rw [hstart, bind_ok hrun, hok], fun id hid => ?_⟩
      rw [hland'.onDevice_iff, hland.onDevice_iff]
      by_cases hempty : c.tokenless id = true
      · exact Or.inr (Or.inl (List.mem_filter.mpr ⟨hid, hempty⟩))
      · exact Or.inl (List.mem_filter.mpr ⟨hid, by simpa using hempty⟩)

end Chain

/-! ### Two chains -/

/-- The payload of a block that keeps `offsets`, with device slots taken for it. -/
def takenPayload (slots offsets : List Nat) (hostIndex : Nat) : StandardPrefixBlockPayload :=
  { tokenSlots := some slots, hostBlockIndex := some hostIndex, retainedOffsets := some offsets }

/-- The block `id`, before its backup. -/
def chainBlock (id : Nat) (parent : Option Nat) (payload : StandardPrefixBlockPayload) :
    StandardBlock Nat :=
  { stableBlockId := id
    parentBlockId := parent
    blockSize := 1
    logicalBlockIdx := id
    payload := payload }

/-- A block and its child are backed up and demoted. -/
def hostOnlyRun (top below : StandardPrefixBlockPayload) :
    List (IndexOp Nat StandardPrefixBlockPayload) :=
  [.insert (chainBlock 0 none top), .insert (chainBlock 1 (some 0) below), .beginD2h 0,
    .finishD2h 0, .beginD2h 1, .finishD2h 1, .demote 2 fun _ => 1]

/-- The index after `hostOnlyRun`. -/
@[irreducible] def hostOnlyIndex (top below : StandardPrefixBlockPayload) : StandardIndex Nat :=
  runAll IndexOp.exec (initial 1 none) (hostOnlyRun top below)

theorem hostOnlyIndex_indexed (top below : StandardPrefixBlockPayload) :
    Indexed (hostOnlyIndex top below) ∧ Contiguous (hostOnlyIndex top below) := by
  have kept : Along IndexOp.exec BackupPathKept (initial 1 none) (hostOnlyRun top below) := by
    refine ⟨fun _ h => ?_, fun _ h => ?_, trivial, trivial, trivial, trivial, trivial, trivial⟩
    · cases h
    · cases h
  unfold hostOnlyIndex
  exact contiguous_of_run (Reachable.init.runAll kept)

/-- The controller over `hostOnlyIndex`. -/
def hostOnlyState (top below : StandardPrefixBlockPayload) : StandardPrefixOffloadController Nat :=
  { prefixCache := hostOnlyIndex top below
    blockSize := 1 }

/-- The child was pruned to no tokens, its parent was not. -/
def prunedChild : StandardPrefixOffloadController Nat :=
  hostOnlyState (takenPayload [0] [0] 0) (takenPayload [] [] 1)

/-- The parent was pruned to no tokens, its child was not. -/
def prunedParent : StandardPrefixOffloadController Nat :=
  hostOnlyState (takenPayload [] [] 0) (takenPayload [0] [0] 1)

theorem hitChain_pair {c : StandardPrefixOffloadController Nat} {top below : StandardBlock Nat}
    (htop : c.prefixCache.getBlock 0 = some top) (hroot : top.parentBlockId = none)
    (hbelow : c.prefixCache.getBlock 1 = some below) (hparent : below.parentBlockId = some 0)
    (hp : Promotable c.blockSize top) (hp' : Promotable c.blockSize below) : HitChain c [0, 1] where
  nonempty := by simp
  promotable id hid := by
    rcases List.mem_pair.mp hid with rfl | rfl
    · exact ⟨top, htop, hp⟩
    · exact ⟨below, hbelow, hp'⟩
  path := List.isChain_pair.mpr (child_iff.mpr ⟨below, hbelow, hparent⟩)
  top id hid p hchild := by
    obtain rfl : 0 = id := by simpa using hid
    obtain ⟨b, hb, hp⟩ := child_iff.mp hchild
    obtain rfl := Option.some.inj (htop.symm.trans hb)
    simp [hroot] at hp

theorem hitChain_prunedChild : HitChain prunedChild [0, 1] := by
  have htop : prunedChild.prefixCache.getBlock 0 = some
      { chainBlock 0 none (takenPayload [0] [0] 0) with
        lastAccess := 1, residency := ⟨false, true, none⟩ } := by decide +kernel
  have hbelow : prunedChild.prefixCache.getBlock 1 = some
      { chainBlock 1 (some 0) (takenPayload [] [] 1) with
        lastAccess := 2, residency := ⟨false, true, none⟩ } := by decide +kernel
  exact hitChain_pair htop rfl hbelow rfl ⟨rfl, rfl, by decide, rfl⟩ ⟨rfl, rfl, by decide, rfl⟩

theorem hitChain_prunedParent : HitChain prunedParent [0, 1] := by
  have htop : prunedParent.prefixCache.getBlock 0 = some
      { chainBlock 0 none (takenPayload [] [] 0) with
        lastAccess := 1, residency := ⟨false, true, none⟩ } := by decide +kernel
  have hbelow : prunedParent.prefixCache.getBlock 1 = some
      { chainBlock 1 (some 0) (takenPayload [0] [0] 1) with
        lastAccess := 2, residency := ⟨false, true, none⟩ } := by decide +kernel
  exact hitChain_pair htop rfl hbelow rfl ⟨rfl, rfl, by decide, rfl⟩ ⟨rfl, rfl, by decide, rfl⟩

theorem submitH2d_iff_prunedParent : Promotes prunedParent [0, 1] :=
  (submitH2d_iff (hostOnlyIndex_indexed _ _).1 hitChain_prunedParent).mpr (by decide +kernel)

/-- The child without tokens is begun before its parent. -/
theorem submitH2d_raises : ¬ ∀ (c : StandardPrefixOffloadController Nat) (blocks : List Nat),
    Indexed c.prefixCache →
    (∀ id b, c.prefixCache.getBlock id = some b → RootContiguous c.prefixCache id b) →
    HitChain c blocks → Promotes c blocks := by
  intro h
  obtain ⟨hs, hcontiguous⟩ :=
    hostOnlyIndex_indexed (takenPayload [0] [0] 0) (takenPayload [] [] 1)
  obtain ⟨operation, t, hok, _⟩ := h prunedChild [0, 1] hs
    (fun id b hb => hcontiguous.rootContiguous hs hb) hitChain_prunedChild
  have hraise : ((submitH2d [0, 1]).run' prunedChild).isNone = true := by decide +kernel
  rw [run'_eq_some.mpr ⟨t, hok⟩] at hraise
  cases hraise

end StandardPrefixOffloadController

end SparseVllm
