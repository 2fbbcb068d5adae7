import SparseVllm.Prefix.Index

/-!
# What the capacity views are

`Indexed` says that the blocks and the radix tree of an index agree. On such an index each scan is
a peeling: a block is in `freeable_block_ids` when it and everything below it is removable, and in
`device_freeable_block_ids` or `device_reclaimable_block_ids` when it and every block with a device
payload below it is demotable, the transfers in flight counted or not.

## Results

* `mem_scanFreeable`, `mem_scanEvictable`, `mem_scanDeviceReclaimable`: each pass of the source
  against the predicate it computes.
-/

namespace SparseVllm.RadixPrefixIndex

open SparseVllm.Lib

variable {B P : Type} [LinearOrder B] {s : RadixPrefixIndex B P}

/-- The blocks and the tree agree, and every residency is valid. -/
structure Indexed (s : RadixPrefixIndex B P) : Prop where
  edges : ∀ id p, (id, p) ∈ s.backend.edges ↔ ∃ b, s.getBlock id = some b ∧ b.parentBlockId = p
  ids : ∀ id b, s.getBlock id = some b → b.stableBlockId = id
  valid : ∀ id b, s.getBlock id = some b → b.residency.Valid
  routing : s.routingMembership.Holds fun id => ∃ b, s.getBlock id = some b
  snapshot : ∀ last, s.lastRoutingSnapshot = some last → last = s.newRoutingSnapshot last.method

/-- `c` is a child of `p`. -/
def Child (s : RadixPrefixIndex B P) (c p : B) : Prop := s.parentAt c = some p

/-- `c` is a child of `p` with a device payload. -/
def DeviceChild (s : RadixPrefixIndex B P) (c p : B) : Prop :=
  s.Child c p ∧ s.childOnDevice c = true

/-- The number of blocks on the path of `id`. -/
def depth (s : RadixPrefixIndex B P) (id : B) : Nat := (s.backend.pathToBlock id).length

theorem child_iff {c p : B} :
    s.Child c p ↔ ∃ b, s.getBlock c = some b ∧ b.parentBlockId = some p := by
  unfold Child parentAt
  cases s.getBlock c with
  | none => simp
  | some b => simp

namespace Indexed

theorem mem_ids (h : Indexed s) {id : B} : id ∈ s.backend.ids ↔ ∃ b, s.getBlock id = some b := by
  rw [RadixTreeBackend.mem_ids]
  constructor
  · rintro ⟨p, hp⟩
    obtain ⟨b, hb, _⟩ := (h.edges id p).mp hp
    exact ⟨b, hb⟩
  · rintro ⟨b, hb⟩
    exact ⟨b.parentBlockId, (h.edges id _).mpr ⟨b, hb, rfl⟩⟩

theorem mem_childBlockIds (h : Indexed s) {id c : B} :
    c ∈ s.backend.childBlockIds id ↔ s.Child c id := by
  rw [RadixTreeBackend.mem_childBlockIds, h.edges, child_iff]

theorem childCount_eq_zero (h : Indexed s) {id : B} :
    s.backend.childCount id = 0 ↔ ∀ c, ¬ s.Child c id := by
  rw [RadixTreeBackend.childCount_eq_zero]
  simp only [h.edges, child_iff]

theorem deviceChildCount_eq_zero (h : Indexed s) {id : B} :
    s.deviceChildCount id = 0 ↔ ∀ c, ¬ s.DeviceChild c id := by
  unfold deviceChildCount DeviceChild
  rw [List.countP_eq_zero]
  simp only [h.mem_childBlockIds, not_and]

/-- The parent of an indexed block is indexed. -/
theorem parent_indexed (h : Indexed s) {id p : B} {b : PrefixCacheBlock B P}
    (hb : s.getBlock id = some b) (hp : b.parentBlockId = some p) :
    ∃ parent, s.getBlock p = some parent := by
  have hedge : (id, some p) ∈ s.backend.edges := (h.edges id _).mpr ⟨b, hb, hp⟩
  exact h.mem_ids.mp (RadixTreeBackend.mem_ids_of_edge hedge)

/-- A child is one step deeper than its parent. -/
theorem depth_child (h : Indexed s) {c p : B} (hc : s.Child c p) : s.depth c = s.depth p + 1 := by
  unfold depth
  rw [RadixTreeBackend.pathToBlock_child ((h.edges c (some p)).mpr (child_iff.mp hc)),
    List.length_append, List.length_singleton]

end Indexed

/-! ## Evictable -/

theorem mem_scanEvictable (h : Indexed s) {id : B} :
    id ∈ s.scanEvictable ↔ s.removableAt id = true ∧ ∀ c, ¬ s.Child c id := by
  unfold scanEvictable
  rw [List.mem_toFinset, List.mem_filter, s.backend.leaves]
  constructor
  · rintro ⟨⟨_, hnone⟩, hid⟩
    refine ⟨hid, fun c hc => hnone c ?_⟩
    exact (h.edges c _).mpr (child_iff.mp hc)
  · rintro ⟨hid, hnone⟩
    refine ⟨⟨?_, fun c hc => hnone c (child_iff.mpr ((h.edges c _).mp hc))⟩, hid⟩
    apply h.mem_ids.mpr
    unfold removableAt at hid
    cases hb : s.getBlock id with
    | none => rw [hb] at hid; cases hid
    | some b => exact ⟨b, rfl⟩

/-! ## Freeable -/

/-- The children of the ids of a segment: the next id, and `bottom` below the last. -/
def SegmentChildren (child : B → B → Prop) (bottom : B → Prop) : List B → Prop
  | [] => True
  | a :: rest =>
    (∀ c, child c a ↔ match rest with
      | [] => bottom c
      | next :: _ => c = next) ∧ SegmentChildren child bottom rest

section Forest

variable {child : B → B → Prop} {removable : B → Bool}

omit [LinearOrder B] in
/-- The scan of a segment, from its end: its ids that are peelable, and whether its first is. -/
theorem mem_freeableSegment {bottom : B → Prop} {below : Bool}
    (hbelow : below = true ↔ ∀ c, bottom c → Peelable child (removable · = true) c) :
    ∀ {segment : List B}, SegmentChildren child bottom segment →
      (∀ x, x ∈ (freeableSegment removable below segment).1 ↔
        x ∈ segment ∧ Peelable child (removable · = true) x) ∧
      ((freeableSegment removable below segment).2 = true ↔ match segment with
        | [] => below = true
        | a :: _ => Peelable child (removable · = true) a)
  | [], _ => by simp [freeableSegment]
  | a :: rest, ⟨hchild, hrest⟩ => by
    obtain ⟨ihmem, ihflag⟩ := mem_freeableSegment hbelow hrest
    have hdown : (freeableSegment removable below rest).2 = true ↔
        ∀ c, child c a → Peelable child (removable · = true) c := by
      rw [ihflag]
      cases rest with
      | nil => simp only [hchild, hbelow]
      | cons next rest => simp only [hchild, forall_eq]
    have hpeel : Peelable child (removable · = true) a ↔
        removable a = true ∧ (freeableSegment removable below rest).2 = true := by
      rw [hdown]
      constructor
      · exact fun h => ⟨h.self, fun c hc => h.of_child hc⟩
      · exact fun h => .peel h.1 h.2
    unfold freeableSegment
    by_cases hok : (removable a && (freeableSegment removable below rest).2) = true
    · have ha := hpeel.mpr (by simpa using hok)
      rw [if_pos hok]
      refine ⟨fun x => ?_, by simpa using ha⟩
      simp only [List.mem_cons, ihmem]
      constructor
      · rintro (rfl | hx)
        · exact ⟨Or.inl rfl, ha⟩
        · exact ⟨Or.inr hx.1, hx.2⟩
      · rintro ⟨rfl | hx, hp⟩
        · exact Or.inl rfl
        · exact Or.inr ⟨hx, hp⟩
    · have ha : ¬ Peelable child (removable · = true) a := fun h =>
        hok (by simpa using hpeel.mp h)
      rw [if_neg hok]
      refine ⟨fun x => ?_, by simpa using ha⟩
      simp only [List.mem_cons, ihmem]
      constructor
      · exact fun hx => ⟨Or.inr hx.1, hx.2⟩
      · rintro ⟨rfl | hx, hp⟩
        · exact absurd hp ha
        · exact ⟨hx, hp⟩

/-- `child` is the parent relation of the forest. -/
def ForestChildren (child : B → B → Prop) (above : List B) (f : RadixForest B) : Prop :=
  ∀ x ∈ f.blockIds, ∀ c, child c x ↔ ∃ loc, f.locate x above = some loc ∧ c ∈ loc.childBlockIds

theorem ForestChildren.segment {above m segment : List B} {children siblings : RadixForest B}
    (h : ForestChildren child above (.node (m ++ segment) children siblings))
    (hnodup : (m ++ segment).Nodup) : SegmentChildren child (· ∈ children.heads) segment := by
  induction segment generalizing m with
  | nil => trivial
  | cons a rest ih =>
    have ha : a ∉ m := fun hmem => (List.nodup_append'.mp hnodup).2.2 hmem List.mem_cons_self
    constructor
    · intro c
      rw [h a (by simp [RadixForest.blockIds]) c, RadixForest.locate_segment ha]
      cases rest with
      | nil => simp [RadixLocation.childBlockIds]
      | cons next rest => simp [RadixLocation.childBlockIds]
    · apply ih (m := m ++ [a])
      · simpa using h
      · simpa using hnodup

/-- The post-order pass: the peelable ids of a forest, and whether its roots are all peelable. -/
theorem mem_freeableForest {f : RadixForest B} {above : List B} (hproper : f.Proper)
    (hnodup : f.blockIds.Nodup) (h : ForestChildren child above f) :
    (∀ x, x ∈ (freeableForest removable f).1 ↔
      x ∈ f.blockIds ∧ Peelable child (removable · = true) x) ∧
    ((freeableForest removable f).2 = true ↔
      ∀ x ∈ f.heads, Peelable child (removable · = true) x) := by
  induction f generalizing above with
  | nil => simp [freeableForest, RadixForest.blockIds, RadixForest.heads]
  | node segment children siblings ihc ihs =>
    obtain ⟨hne, hpc, hps⟩ := hproper
    simp only [RadixForest.blockIds, List.nodup_append', List.disjoint_append_right] at hnodup
    obtain ⟨hseg, ⟨hnc, hns, hcs⟩, hdc, hds⟩ := hnodup
    have hchildren : ForestChildren child (above ++ segment) children := by
      intro x hx c
      rw [h x (by simp [RadixForest.blockIds, hx]) c,
        RadixForest.locate_children (fun hmem => hdc hmem hx) hx]
    have hsiblings : ForestChildren child above siblings := by
      intro x hx c
      rw [h x (by simp [RadixForest.blockIds, hx]) c,
        RadixForest.locate_siblings (fun hmem => hds hmem hx) fun hc => hcs hc hx]
    obtain ⟨hcmem, hcflag⟩ := ihc hpc hnc hchildren
    obtain ⟨hsmem, hsflag⟩ := ihs hps hns hsiblings
    obtain ⟨hmem, hflag⟩ := mem_freeableSegment hcflag
      (ForestChildren.segment (m := []) (by simpa using h) (by simpa using hseg))
    constructor
    · intro x
      simp only [freeableForest, RadixForest.blockIds, List.mem_append, hmem, hcmem, hsmem]
      tauto
    · cases segment with
      | nil => exact absurd rfl hne
      | cons a segment =>
        simp only [freeableForest, Bool.and_eq_true, hflag, hsflag, RadixForest.heads,
          List.head?_cons, Option.toList_some, List.cons_append, List.nil_append,
          List.forall_mem_cons]

end Forest

/-- **`freeable_block_ids` is a peeling**: a block is in it when it and every block below it is
unreferenced, of non-negative priority and without a transfer. -/
theorem mem_scanFreeable (h : Indexed s) {id : B} :
    id ∈ s.scanFreeable ↔ Peelable s.Child (s.removableAt · = true) id := by
  have hforest : ForestChildren s.Child [] s.backend.root := by
    intro x hx c
    rw [← h.mem_childBlockIds]
    unfold RadixTreeBackend.childBlockIds RadixTreeBackend.location
    cases s.backend.root.locate x [] with
    | none => simp
    | some loc => simp
  unfold scanFreeable
  rw [List.mem_toFinset, (mem_freeableForest s.backend.proper s.backend.nodup hforest).1]
  refine ⟨fun hid => hid.2, fun hid => ⟨?_, hid⟩⟩
  have hself := hid.self
  apply h.mem_ids.mpr
  unfold removableAt at hself
  cases hb : s.getBlock id with
  | none => rw [hb] at hself; cases hself
  | some b => exact ⟨b, rfl⟩

/-! ## Device views -/

theorem mem_deviceIds {id : B} : id ∈ s.deviceIds ↔ s.childOnDevice id = true := by
  unfold deviceIds childOnDevice getBlock
  simp only [List.mem_map, List.mem_filter]
  constructor
  · rintro ⟨⟨k, b⟩, ⟨hmem, hdev⟩, rfl⟩
    rw [Dict.mem_entries.mp hmem]
    exact hdev
  · intro h
    cases hb : s.blocks.get? id with
    | none => rw [hb] at h; cases h
    | some b => rw [hb] at h; exact ⟨⟨id, b⟩, ⟨Dict.mem_entries.mpr hb, h⟩, rfl⟩

omit [LinearOrder B] in
theorem nodup_deviceIds : s.deviceIds.Nodup := by
  have hsub : s.deviceIds.Sublist (s.blocks.entries.map Sigma.fst) :=
    List.filter_sublist.map Sigma.fst
  exact hsub.nodup s.blocks.nodupKeys

/-- Counting the device children in the tree or over the device blocks is the same. -/
theorem unpeeled_deviceIds (h : Indexed s) (id : B) :
    unpeeled s.parentAt s.deviceIds [] id = s.deviceChildCount id := by
  unfold unpeeled deviceChildCount
  rw [List.countP_eq_length_filter, List.countP_eq_length_filter]
  apply List.Perm.length_eq
  rw [List.perm_ext_iff_of_nodup (nodup_deviceIds.filter _)
    (RadixTreeBackend.nodup_childBlockIds.filter _)]
  intro c
  simp only [List.mem_filter, mem_deviceIds, h.mem_childBlockIds, Child, List.not_mem_nil,
    not_false_eq_true, and_true, decide_eq_true_eq]
  exact and_comm

theorem childOnDevice_of_reclaimable {inflight : Bool} {id : B}
    (h : s.reclaimableAt inflight id = true) : s.childOnDevice id = true := by
  unfold reclaimableAt at h
  unfold childOnDevice
  cases hb : s.getBlock id with
  | none => rw [hb] at h; cases h
  | some b =>
    rw [hb] at h
    exact (of_decide_eq_true h).2.2.1

/-- **`_device_reclaimable_block_ids` is a peeling** of the blocks with a device payload. -/
theorem mem_scanDeviceReclaimable (h : Indexed s) {inflight : Bool} {id : B} :
    id ∈ s.scanDeviceReclaimable inflight ↔
      Peelable s.DeviceChild (s.reclaimableAt inflight · = true) id := by
  unfold scanDeviceReclaimable
  rw [List.mem_toFinset, mem_peelLoop nodup_deviceIds]
  · have hchild : ∀ c x, ChildOf s.parentAt s.deviceIds c x ↔ s.DeviceChild c x := by
      intro c x
      unfold ChildOf DeviceChild Child
      rw [mem_deviceIds]
      exact and_comm
    rw [Peelable.iff_of_agree (fun _ => Iff.rfl) fun y _ c => hchild c y]
    refine ⟨fun hid => hid.2, fun hid => ⟨?_, hid⟩⟩
    exact mem_deviceIds.mpr (childOnDevice_of_reclaimable hid.self)
  · intro x hx
    rw [Dict.get?_ofKeys, if_pos hx, unpeeled_deviceIds h]
  · intro x hx
    rw [Dict.get?_ofKeys, if_neg hx]
  · exact nodup_deviceIds.filter _
  · intro x
    rw [List.mem_filter, unpeeled_deviceIds h]
    simp

end SparseVllm.RadixPrefixIndex
