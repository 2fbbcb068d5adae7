import SparseVllm.Chain.IndexRun

/-!
# A chain plan is minimal, safe and applicable

The victim loop clamps the row deficit and the slot deficits of all layers at 0 after every victim,
and stops at the first victim it does not need. With rows and slots that are counts, clamping loses
nothing: the loop stops as soon as the victims so far cover every deficit (`Covers`), so it takes
the shortest such prefix of the candidates.

A victim leaves a tombstone, but only the newest `max_tombstones` are kept: a plan with more victims
than that leaves tombstones for the last of them.

## Results

* `selectVictims_minimal`: the victim loop takes the shortest prefix that covers the deficits.
* `applyAdmission_applies`: a plan applies to the index it was made on.
* **`plan_applies`**: both, in every state of every run.
-/

namespace SparseVllm

open SparseVllm.Lib

variable {C D : Type}

/-! ## Counts -/

/-- The rows and the slots of a record are counts. -/
def ChainRecord.Counted (record : ChainRecord C D) : Prop :=
  0 ≤ record.residentRows ∧ ∀ slots ∈ record.physicalSlotsByLayer, 0 ≤ slots

theorem ChainRecord.Counted.slots_nonneg {record : ChainRecord C D} (h : record.Counted)
    (layer : Nat) : 0 ≤ record.physicalSlotsByLayer.getD layer 0 := by
  rw [List.getD_eq_getElem?_getD]
  cases hget : record.physicalSlotsByLayer[layer]? with
  | none => exact le_rfl
  | some slots => exact h.2 slots (List.mem_of_getElem? hget)

namespace ChainCacheIndex

/-- A chain is finished with counts, as `chain_physical_residency` reports them. -/
def ChainOp.Counted : ChainOp C D → Prop
  | .finish _ _ _ slots rows | .finishDigest _ _ _ slots rows =>
    0 ≤ rows ∧ ∀ n ∈ slots, 0 ≤ n
  | _ => True

section Counts

variable [LinearOrder C]

/-- Every record is counted. -/
def Counts (a : ChainCacheIndex C D) : Prop :=
  ∀ chain record, a.records.get? chain = some record → record.Counted

theorem Counts.of_records {a b : ChainCacheIndex C D} (h : Counts a) (hb : b.records = a.records) :
    Counts b := fun chain record hrec => h chain record (hb ▸ hrec)

theorem Counts.pop {a b : ChainCacheIndex C D} (h : Counts a) {chain : C}
    (hb : b.records = a.records.pop chain) : Counts b :=
  fun other record hrec => h other record (Dict.get?_of_pop (hb ▸ hrec))

theorem Counts.set {a b : ChainCacheIndex C D} (h : Counts a) {chain : C}
    {record : ChainRecord C D} (hrecord : record.Counted)
    (hb : b.records = a.records.set chain record) : Counts b := by
  intro other record' hrec
  rw [hb, Dict.get?_set] at hrec
  split at hrec
  · obtain rfl := Option.some.inj hrec
    exact hrecord
  · exact h other record' hrec

theorem keeps_lookup {I : ChainCacheIndex C D → Prop} (chain : C) :
    Keeps I (lookup chain : IndexM C D _) := by
  refine Keeps.bind Keeps.get fun index => ?_
  split
  · exact Keeps.pure _
  · exact Keeps.bind (Keeps.raiseIf _ _) fun _ => Keeps.throw _

omit [LinearOrder C] in
theorem keeps_check {I : ChainCacheIndex C D → Prop} {α : Type} (result : Except (ChainError C) α) :
    Keeps I (check result : IndexM C D α) := by
  cases result with
  | ok a => exact Keeps.pure a
  | error e => exact Keeps.throw e

omit [LinearOrder C] in
theorem keeps_prepareTokenHistory {I : ChainCacheIndex C D → Prop} (record : ChainRecord C D)
    (tokens : List Int) (processed : Int) :
    Keeps I (prepareTokenHistory record tokens processed) := by
  refine Keeps.bind (Keeps.raiseIf _ _) fun _ => ?_
  split
  · exact Keeps.throw _
  · refine Keeps.bind (Keeps.raiseIf _ _) fun _ => Keeps.bind Keeps.get fun index => ?_
    dsimp only
    split
    · exact Keeps.pure _
    · exact Keeps.raiseIf _ _

/-- The tokens of a record are not counted. -/
theorem keeps_storeTokenHistory (record : ChainRecord C D) (tokens : List Int) :
    Keeps Counts (storeTokenHistory record tokens) := by
  refine Keeps.bind (Keeps.modify fun a ha => ?_) fun _ => Keeps.modify fun a ha => ?_
  · exact ha.of_records rfl
  · intro chain record' hrec
    replace hrec : (a.records.modify record.chainId fun r => { r with tokenIds := tokens }).get?
      chain = some record' := hrec
    rw [Dict.get?_modify] at hrec
    split at hrec
    · obtain ⟨stored, hstored, rfl⟩ := Option.map_eq_some_iff.mp hrec
      exact ha chain stored hstored
    · exact ha chain record' hrec

theorem keeps_evict (chain : C) : Keeps Counts (evict chain : IndexM C D _) := by
  refine Spec.intro fun a ha => ?_
  refine (evict_drops a chain).conseq (fun _ h => h) (fun _ s h => ?_) fun _ s h => h ▸ ha
  exact ha.pop h.2.records

theorem keeps_invalidate (chain : C) : Keeps Counts (invalidate chain : IndexM C D _) := by
  refine Spec.intro fun a ha => ?_
  refine (invalidate_drops a chain).conseq (fun _ h => h) (fun _ s h => ?_) fun _ s h => h ▸ ha
  exact ha.pop h.records

theorem keeps_createRecord (hash : TokenHash D) (plan : ChainAdmissionPlan C) (fingerprint : D) :
    Keeps Counts (createRecord hash plan fingerprint) := by
  refine Spec.intro fun a ha => ?_
  refine (createRecord_spec a hash plan fingerprint).conseq (fun _ h => h) (fun _ s h => ?_)
    fun _ s h => h ▸ ha
  obtain ⟨-, -, ⟨now, hrecords⟩, -⟩ := h
  have hcounted : (plan.newRecord hash fingerprint now).Counted := ⟨Int.one_nonneg, fun _ h => nomatch h⟩
  exact ha.set hcounted hrecords

theorem keeps_resumeRecord (plan : ChainAdmissionPlan C) :
    Keeps Counts (resumeRecord plan : IndexM C D _) := by
  refine Spec.intro fun a ha => ?_
  refine (resumeRecord_spec a plan).conseq (fun _ h => h) (fun _ s h => ?_) fun _ s h => h ▸ ha
  obtain ⟨⟨record, now, hfound, -, hrecords⟩, -⟩ := h
  have hcounted : (plan.resumedRecord record now).Counted := ha _ record hfound
  exact ha.set hcounted hrecords

theorem keeps_finishDigest (hash : TokenHash D) (chain : C) (digest : D) (processed : Int)
    {slots : List Int} {rows : Int} (h : 0 ≤ rows ∧ ∀ n ∈ slots, 0 ≤ n) :
    Keeps Counts (finishDigest hash chain digest processed slots rows) := by
  refine Spec.intro fun a ha => ?_
  refine (finishDigest_spec a hash chain digest processed slots rows).conseq (fun _ h => h)
    (fun _ s hs => ?_) fun _ s hs => hs ▸ ha
  obtain ⟨⟨record, now, hfound, -, hrecords⟩, -⟩ := hs
  have hcounted : (record.finished digest processed slots rows now).Counted := h
  exact ha.set hcounted hrecords

theorem keeps_finish (hash : TokenHash D) (chain : C) (tokens : List Int) (processed : Int)
    {slots : List Int} {rows : Int} (h : 0 ≤ rows ∧ ∀ n ∈ slots, 0 ≤ n) :
    Keeps Counts (finish hash chain tokens processed slots rows) := by
  refine Keeps.bind (keeps_lookup chain) fun existing => Keeps.bind ?_ fun _ => Keeps.bind ?_
    fun digest => Keeps.bind (keeps_finishDigest hash chain digest processed h) fun record =>
      Keeps.bind (keeps_storeTokenHistory record tokens) fun _ => Keeps.pure _
  · exact keeps_prepareTokenHistory existing tokens processed
  · exact keeps_check _

variable [DecidableEq D]

theorem keeps_rememberProcessedTokens (hash : TokenHash D) (chain : C) (seq : SeqId)
    (tokens : List Int) (processed : Int) :
    Keeps Counts (rememberProcessedTokens hash chain seq tokens processed) := by
  refine Keeps.bind (keeps_lookup chain) fun record => Keeps.bind (Keeps.raiseIf _ _) fun _ =>
    Keeps.bind (Keeps.raiseIf _ _) fun _ => Keeps.bind ?_ fun _ => Keeps.bind (keeps_check _)
      fun _ => Keeps.bind (Keeps.raiseIf _ _) fun _ =>
        Keeps.bind (keeps_storeTokenHistory record tokens) fun _ => Keeps.pure _
  exact keeps_prepareTokenHistory record tokens processed

theorem keeps_planAndApply (hash : TokenHash D) (chain : C) (seq : SeqId) (input : ChainInput D)
    (fingerprint applied : D) (needs : ChainRequirements) :
    Keeps Counts (planAndApply hash chain seq input fingerprint applied needs) := by
  refine Keeps.bind ?_ fun plan => Keeps.bind ?_ fun _ => ?_
  · refine Spec.intro fun a ha => ?_
    exact (planAdmission_quiet a hash chain seq input fingerprint needs).conseq
      (fun s hs => hs ▸ Quiet.refl s) (fun _ s h => ha.of_records h.records)
      fun _ s h => ha.of_records h.records
  · exact Keeps.forEach (fun victim => Keeps.bind (keeps_evict victim) fun _ => Keeps.pure _) _
  · cases plan.status with
    | created => exact keeps_createRecord hash plan applied
    | resumed => exact keeps_resumeRecord plan

theorem ChainOp.counts (hash : TokenHash D) {a : ChainCacheIndex C D} (ha : Counts a) :
    ∀ op : ChainOp C D, op.Counted → Counts (op.exec hash a)
  | .admission chain seq input fingerprint applied needs, _ =>
    (keeps_planAndApply hash chain seq input fingerprint applied needs).stateAfter ha
  | .finish chain tokens processed _ _, h =>
    (keeps_finish hash chain tokens processed h).stateAfter ha
  | .finishDigest chain digest processed _ _, h =>
    (keeps_finishDigest hash chain digest processed h).stateAfter ha
  | .rememberProcessedTokens chain seq tokens processed, _ =>
    (keeps_rememberProcessedTokens hash chain seq tokens processed).stateAfter ha
  | .invalidate chain, _ => (keeps_invalidate chain).stateAfter ha
  | .evict chain, _ => (keeps_evict chain).stateAfter ha

/-- The states an index reaches while chains are finished with counts. -/
theorem counts_of_run (hash : TokenHash D) {maxTombstones : Int}
    {maxTokenHistoryTokens : Option Int} {start a : ChainCacheIndex C D}
    (hstart : new maxTombstones maxTokenHistoryTokens = .ok start)
    (run : Reachable (ChainOp.exec hash) (fun _ op => op.Counted) start a) :
    Consistent a ∧ Counts a := by
  refine run.invariant (I := fun b => Consistent b ∧ Counts b) ⟨new_consistent hstart, ?_⟩
    fun s op hs hop => ⟨(ChainOp.does hash hs.1 op).consistent, ChainOp.counts hash hs.2 op hop⟩
  unfold new at hstart
  split at hstart
  · cases hstart
  split at hstart
  · cases hstart
  · cases hstart
    nofun

end Counts

/-! ## The shortest prefix -/

/-- The rows and the slots of the victims reach the deficits; a layer a victim does not report
counts as empty. -/
structure Covers (rowDeficit : Int) (slotDeficits : List Int) (victims : List (ChainRecord C D)) :
    Prop where
  rows : rowDeficit ≤ (victims.map ChainRecord.residentRows).sum
  slots : ∀ (layer : Nat) (deficit : Int), slotDeficits[layer]? = some deficit →
    deficit ≤ (victims.map fun victim => victim.physicalSlotsByLayer.getD layer 0).sum

theorem getElem?_coverSlots : ∀ (deficits residents : List Int) (layer : Nat),
    (coverSlots deficits residents)[layer]? =
      deficits[layer]?.map fun deficit => max 0 (deficit - residents.getD layer 0)
  | [], _, _ => rfl
  | deficit :: deficits, [], 0 => by simp [coverSlots]
  | deficit :: deficits, resident :: residents, 0 => by simp [coverSlots]
  | deficit :: deficits, [], layer + 1 => by
    rw [coverSlots, List.getElem?_cons_succ, getElem?_coverSlots deficits [] layer]
    simp
  | deficit :: deficits, resident :: residents, layer + 1 => by
    rw [coverSlots, List.getElem?_cons_succ, getElem?_coverSlots deficits residents layer]
    simp

theorem rows_sum_nonneg {victims : List (ChainRecord C D)}
    (h : ∀ victim ∈ victims, victim.Counted) :
    0 ≤ (victims.map ChainRecord.residentRows).sum :=
  List.sum_nonneg fun _ hn => by
    obtain ⟨victim, hvictim, rfl⟩ := List.mem_map.mp hn
    exact (h victim hvictim).1

theorem slots_sum_nonneg {victims : List (ChainRecord C D)}
    (h : ∀ victim ∈ victims, victim.Counted) (layer : Nat) :
    0 ≤ (victims.map fun victim => victim.physicalSlotsByLayer.getD layer 0).sum :=
  List.sum_nonneg fun _ hn => by
    obtain ⟨victim, hvictim, rfl⟩ := List.mem_map.mp hn
    exact (h victim hvictim).slots_nonneg layer

/-- What one victim leaves uncovered is for the others to cover. -/
theorem covers_cons {rowDeficit : Int} {slotDeficits : List Int} {victim : ChainRecord C D}
    {victims : List (ChainRecord C D)} (h : ∀ other ∈ victims, other.Counted) :
    Covers (max 0 (rowDeficit - victim.residentRows))
        (coverSlots slotDeficits victim.physicalSlotsByLayer) victims ↔
      Covers rowDeficit slotDeficits (victim :: victims) := by
  have hrows := rows_sum_nonneg h
  constructor
  · intro hcover
    refine ⟨?_, fun layer deficit hdeficit => ?_⟩
    · have := hcover.rows
      simp only [List.map_cons, List.sum_cons]
      omega
    · have hslots := hcover.slots layer
        (max 0 (deficit - victim.physicalSlotsByLayer.getD layer 0))
        (by rw [getElem?_coverSlots, hdeficit, Option.map_some])
      simp only [List.map_cons, List.sum_cons]
      omega
  · intro hcover
    refine ⟨?_, fun layer left hleft => ?_⟩
    · have := hcover.rows
      simp only [List.map_cons, List.sum_cons] at this
      omega
    · rw [getElem?_coverSlots] at hleft
      obtain ⟨deficit, hdeficit, rfl⟩ := Option.map_eq_some_iff.mp hleft
      have hslots := hcover.slots layer deficit hdeficit
      have hnonneg := slots_sum_nonneg h layer
      simp only [List.map_cons, List.sum_cons] at hslots
      omega

/-- Clamping the deficits at 0 changes nothing. -/
theorem covers_clamped {rowDeficit : Int} {slotDeficits : List Int}
    {victims : List (ChainRecord C D)} (h : ∀ victim ∈ victims, victim.Counted) :
    Covers (max 0 rowDeficit) (slotDeficits.map (max 0)) victims ↔
      Covers rowDeficit slotDeficits victims := by
  have hrows := rows_sum_nonneg h
  constructor
  · intro hcover
    refine ⟨by have := hcover.rows; omega, fun layer deficit hdeficit => ?_⟩
    have hslots := hcover.slots layer (max 0 deficit) (by rw [List.getElem?_map, hdeficit]; rfl)
    omega
  · intro hcover
    refine ⟨by have := hcover.rows; omega, fun layer clamped hclamped => ?_⟩
    rw [List.getElem?_map] at hclamped
    obtain ⟨deficit, hdeficit, rfl⟩ := Option.map_eq_some_iff.mp hclamped
    have hslots := hcover.slots layer deficit hdeficit
    have hnonneg := slots_sum_nonneg h layer
    omega

/-- The loop stops when nothing is left to cover. -/
theorem covers_nil {rowDeficit : Int} {slotDeficits : List Int} (h : ∀ n ∈ slotDeficits, 0 ≤ n) :
    Covers rowDeficit slotDeficits ([] : List (ChainRecord C D)) ↔
      rowDeficit ≤ 0 ∧ (slotDeficits.any fun deficit => deficit != 0) = false := by
  rw [List.any_eq_false]
  constructor
  · rintro ⟨hrows, hslots⟩
    refine ⟨hrows, fun deficit hmem => ?_⟩
    obtain ⟨layer, hlayer⟩ := List.mem_iff_getElem?.mp hmem
    have hle : deficit ≤ 0 := hslots layer deficit hlayer
    have hge := h deficit hmem
    simp only [bne_iff_ne, ne_eq, not_not]
    omega
  · rintro ⟨hrows, hslots⟩
    refine ⟨hrows, fun layer deficit hdeficit => ?_⟩
    have hzero := hslots deficit (List.mem_of_getElem? hdeficit)
    simp only [bne_iff_ne, ne_eq, not_not] at hzero
    exact hzero.le

theorem coverSlots_nonneg (deficits residents : List Int) :
    ∀ n ∈ coverSlots deficits residents, 0 ≤ n := by
  intro n hn
  obtain ⟨layer, hlayer⟩ := List.mem_iff_getElem?.mp hn
  rw [getElem?_coverSlots] at hlayer
  obtain ⟨deficit, -, rfl⟩ := Option.map_eq_some_iff.mp hlayer
  exact le_max_left _ _

/-- The first `n` candidates cover the deficits, and fewer do not. -/
structure ShortestCover (rowDeficit : Int) (slotDeficits : List Int)
    (candidates : List (ChainRecord C D)) (n : Nat) : Prop where
  le : n ≤ candidates.length
  covers : Covers rowDeficit slotDeficits (candidates.take n)
  shortest : ∀ m < n, ¬ Covers rowDeficit slotDeficits (candidates.take m)

/-- **The victim loop takes the shortest prefix that covers the deficits.** -/
theorem selectVictims_minimal :
    ∀ (candidates : List (ChainRecord C D)) (rowDeficit : Int) (slotDeficits : List Int)
      {victims : List C}, (∀ candidate ∈ candidates, candidate.Counted) →
      (∀ n ∈ slotDeficits, 0 ≤ n) →
      selectVictims candidates rowDeficit slotDeficits = (victims, false) →
      ∃ n, ShortestCover rowDeficit slotDeficits candidates n ∧
        victims = (candidates.take n).map ChainRecord.chainId
  | [], rowDeficit, slotDeficits, victims, _, hslots, hrun => by
    simp only [selectVictims, Prod.mk.injEq, Bool.or_eq_false_iff, decide_eq_false_iff_not,
      not_lt] at hrun
    obtain ⟨rfl, hrun⟩ := hrun
    exact ⟨0, ⟨le_rfl, (covers_nil hslots).mpr hrun, fun m hm => absurd hm (Nat.not_lt_zero m)⟩, rfl⟩
  | victim :: rest, rowDeficit, slotDeficits, victims, hcounted, hslots, hrun => by
    unfold selectVictims at hrun
    split at hrun
    · rename_i hdone
      cases hrun
      exact ⟨0, ⟨Nat.zero_le _, (covers_nil hslots).mpr hdone, fun m hm => absurd hm (Nat.not_lt_zero m)⟩,
        rfl⟩
    · rename_i hmissing
      have hrest : ∀ candidate ∈ rest, candidate.Counted :=
        fun candidate h => hcounted candidate (List.mem_cons_of_mem _ h)
      rcases hnext : selectVictims rest (max 0 (rowDeficit - victim.residentRows))
        (coverSlots slotDeficits victim.physicalSlotsByLayer) with ⟨others, short⟩
      rw [hnext] at hrun
      simp only [Prod.mk.injEq] at hrun
      obtain ⟨rfl, rfl⟩ := hrun
      obtain ⟨n, hn, rfl⟩ := selectVictims_minimal rest _ _ hrest (coverSlots_nonneg _ _) hnext
      have hcons : ∀ k, Covers (max 0 (rowDeficit - victim.residentRows))
          (coverSlots slotDeficits victim.physicalSlotsByLayer) (rest.take k) ↔
          Covers rowDeficit slotDeficits ((victim :: rest).take (k + 1)) := fun k =>
        covers_cons fun other h => hrest other (List.mem_of_mem_take h)
      refine ⟨n + 1, ⟨?_, (hcons n).mp hn.covers, fun m hm => ?_⟩, rfl⟩
      · exact Nat.succ_le_succ hn.le
      · cases m with
        | zero => exact fun h => hmissing ((covers_nil hslots).mp h)
        | succ k => exact fun h => hn.shortest k (by omega) ((hcons k).mpr h)

/-! ## The plan -/

section Plans

variable [LinearOrder C] [DecidableEq D]

/-- The IDLE chains other than `chain`, in the order `(last_access, chain_id)`. -/
structure EvictionOrder (a : ChainCacheIndex C D) (chain : C) (order : List (ChainRecord C D)) :
    Prop where
  perm : order.Perm (a.records.values.filter fun candidate =>
    candidate.state = .idle ∧ candidate.chainId ≠ chain)
  sorted : order.Pairwise evictsBefore

omit [DecidableEq D] in
theorem evictsBefore_trans {x y z : ChainRecord C D} (hxy : evictsBefore x y)
    (hyz : evictsBefore y z) : evictsBefore x z := by
  rcases hxy with hxy | ⟨hxy, hle⟩
  · rcases hyz with hyz | ⟨hyz, -⟩
    · exact Or.inl (hxy.trans hyz)
    · exact Or.inl (hyz ▸ hxy)
  · rcases hyz with hyz | ⟨hyz, hle'⟩
    · exact Or.inl (hxy ▸ hyz)
    · exact Or.inr ⟨hxy.trans hyz, hle.trans hle'⟩

omit [DecidableEq D] in
theorem evictsBefore_total (x y : ChainRecord C D) : evictsBefore x y ∨ evictsBefore y x := by
  rcases lt_trichotomy x.lastAccess y.lastAccess with hlt | heq | hlt
  · exact Or.inl (Or.inl hlt)
  · rcases le_total x.chainId y.chainId with hle | hle
    · exact Or.inl (Or.inr ⟨heq, hle⟩)
    · exact Or.inr (Or.inr ⟨heq.symm, hle⟩)
  · exact Or.inr (Or.inl hlt)

omit [DecidableEq D] in
theorem evictionOrder_candidates (a : ChainCacheIndex C D) (chain : C) :
    EvictionOrder a chain (evictionCandidates a chain) where
  perm := List.perm_insertionSort _ _
  sorted := by
    have : Std.Total (evictsBefore (C := C) (D := D)) := ⟨evictsBefore_total⟩
    have : IsTrans (ChainRecord C D) evictsBefore := ⟨fun _ _ _ => evictsBefore_trans⟩
    exact List.pairwise_insertionSort _ _

/-- The victims of a plan are the shortest prefix of the eviction order that covers what it needs. -/
def MinimalVictims (a : ChainCacheIndex C D) (chain : C) (needs : ChainRequirements)
    (victims : List C) : Prop :=
  ∃ order n, EvictionOrder a chain order ∧
    ShortestCover needs.rowDeficit needs.requiredSlotsByLayer order n ∧
    victims = (order.take n).map ChainRecord.chainId

variable {a : ChainCacheIndex C D} {chain : C} {seq : SeqId} {needs : ChainRequirements}
  {plan : ChainAdmissionPlan C}

omit [DecidableEq D] in
theorem PlanOf.minimal (h : PlanOf a chain seq needs plan) (hcounts : Counts a) :
    MinimalVictims a chain needs plan.victimChainIds := by
  have hcounted : ∀ candidate ∈ evictionCandidates a chain, candidate.Counted := by
    intro candidate hcandidate
    obtain ⟨key, hkey⟩ := Dict.mem_values.mp (mem_evictionCandidates.mp hcandidate).1
    exact hcounts key candidate hkey
  have hclamped : ∀ n ∈ needs.requiredSlotsByLayer.map (max 0), 0 ≤ n := by
    intro n hn
    obtain ⟨m, -, rfl⟩ := List.mem_map.mp hn
    exact le_max_left _ _
  obtain ⟨n, hn, hvictims⟩ := selectVictims_minimal _ _ _ hcounted hclamped h.victims
  have htake : ∀ k, ∀ candidate ∈ (evictionCandidates a chain).take k, candidate.Counted :=
    fun k candidate hc => hcounted candidate (List.mem_of_mem_take hc)
  refine ⟨_, n, evictionOrder_candidates a chain, ⟨hn.le, ?_, fun m hm hcover => ?_⟩, hvictims⟩
  · exact (covers_clamped (htake n)).mp hn.covers
  · exact hn.shortest m hm ((covers_clamped (htake m)).mpr hcover)

/-! ## Applying the plan -/

omit [DecidableEq D] in
theorem Consistent.chainIds_nodup (h : Consistent a) :
    (a.records.values.map ChainRecord.chainId).Nodup := by
  have hkeys : a.records.values.map ChainRecord.chainId = a.records.keys := by
    unfold Dict.values AList.keys List.keys
    rw [List.map_map]
    refine List.map_congr_left fun entry hentry => ?_
    exact h.key (Dict.mem_entries.mp hentry)
  rw [hkeys]
  exact a.records.keys_nodup

omit [DecidableEq D] in
theorem PlanOf.victims_nodup (h : PlanOf a chain seq needs plan) (ha : Consistent a) :
    plan.victimChainIds.Nodup := by
  have hprefixed := selectVictims_prefix (evictionCandidates a chain) (max 0 needs.rowDeficit)
    (needs.requiredSlotsByLayer.map (max 0))
  rw [h.victims] at hprefixed
  refine hprefixed.sublist.nodup (((List.perm_insertionSort _ _).map _).nodup_iff.mpr ?_)
  exact (List.filter_sublist.map _).nodup ha.chainIds_nodup

omit [DecidableEq D] in
theorem PlanOf.victims_idle (h : PlanOf a chain seq needs plan) (ha : Consistent a) :
    ∀ victim ∈ plan.victimChainIds, victim ≠ chain ∧
      ∃ record, a.records.get? victim = some record ∧ record.state = .idle := by
  have hprefixed := selectVictims_prefix (evictionCandidates a chain) (max 0 needs.rowDeficit)
    (needs.requiredSlotsByLayer.map (max 0))
  rw [h.victims] at hprefixed
  intro victim hvictim
  obtain ⟨record, hrecord, rfl⟩ := List.mem_map.mp (hprefixed.subset hvictim)
  obtain ⟨hvalue, hidle, hne⟩ := mem_evictionCandidates.mp hrecord
  obtain ⟨key, hkey⟩ := Dict.mem_values.mp hvalue
  exact ⟨hne, record, ha.key hkey ▸ hkey, hidle⟩

omit [DecidableEq D] in
theorem evict_ok {record : ChainRecord C D} (hfound : a.records.get? chain = some record)
    (hidle : record.state = .idle) : ∃ b, evict chain a = .ok record b ∧ Drop a chain record b := by
  have hdrops := evict_drops a chain a rfl
  have hraises := evict_spec a chain a rfl
  cases hrun : evict chain a with
  | ok r b =>
    rw [hrun] at hdrops
    obtain rfl := Option.some.inj (hdrops.2.found.symm.trans hfound)
    exact ⟨b, rfl, hdrops.2⟩
  | error e b =>
    rw [hrun] at hraises
    have hactive := hraises.2 record hfound
    rw [hidle] at hactive
    cases hactive

/-- The chains with a tombstone, newest first. -/
def tombstoned (a : ChainCacheIndex C D) : List C := a.tombstones.entries.map Sigma.fst

omit [DecidableEq D] in
theorem mem_tombstoned {victim : C} :
    victim ∈ a.tombstoned ↔ (a.tombstones.get? victim).isSome = true := by
  rw [Option.isSome_iff_exists]
  unfold tombstoned
  constructor
  · intro h
    obtain ⟨entry, hentry, rfl⟩ := List.mem_map.mp h
    exact ⟨entry.2, Dict.mem_entries.mp hentry⟩
  · rintro ⟨stamp, hstamp⟩
    exact List.mem_map.mpr ⟨_, Dict.mem_entries.mpr hstamp, rfl⟩

omit [DecidableEq D] in
theorem Drop.tombstoned {record : ChainRecord C D} {b : ChainCacheIndex C D}
    (h : Drop a chain record b) (ha : Consistent a) :
    b.tombstoned = (chain :: a.tombstoned).take a.maxTombstones := by
  have hpop : a.tombstones.pop chain = a.tombstones :=
    Dict.pop_of_get?_none (ha.disjoint h.found)
  have hentries : ((a.tombstones.pop chain).set chain (a.clock + 1)).entries =
      ⟨chain, a.clock + 1⟩ :: ((a.tombstones.pop chain).pop chain).entries := rfl
  unfold ChainCacheIndex.tombstoned
  rw [h.tombstones]
  show List.map Sigma.fst (List.take _ _) = _
  rw [hentries, hpop, hpop, List.map_take]
  rfl

/-- The index after the evictions of a plan. -/
structure VictimsGone (a : ChainCacheIndex C D) (victims : List C) (s : ChainCacheIndex C D) :
    Prop where
  maxTombstones : s.maxTombstones = a.maxTombstones
  records : ∀ c, s.records.get? c = if c ∈ victims then none else a.records.get? c
  owners : ∀ seq, a.seqIdToChainId.get? seq = none → s.seqIdToChainId.get? seq = none
  tombstoned : s.tombstoned = (victims.reverse ++ a.tombstoned).take a.maxTombstones

omit [DecidableEq D] in
/-- **Idle chains are evicted one after the other.** -/
theorem evictAll_ok (victims : List C) : ∀ {a : ChainCacheIndex C D}, Consistent a →
    victims.Nodup → (∀ victim ∈ victims, ∃ record, a.records.get? victim = some record ∧
      record.state = .idle) →
    ∃ s, (forEach victims fun victim => do
        let _ ← evict victim
        pure ()) a = .ok () s ∧ VictimsGone a victims s := by
  induction victims with
  | nil =>
    intro a ha _ _
    refine ⟨a, rfl, rfl, fun c => by simp, fun _ h => h, ?_⟩
    rw [List.reverse_nil, List.nil_append, List.take_of_length_le]
    unfold ChainCacheIndex.tombstoned
    rw [List.length_map]
    exact ha.few
  | cons victim victims ih =>
    intro a ha hnodup hidle
    obtain ⟨record, hfound, hstate⟩ := hidle victim List.mem_cons_self
    obtain ⟨b, hrun, hdrop⟩ := evict_ok hfound hstate
    obtain ⟨hnew, hrest⟩ := List.nodup_cons.mp hnodup
    obtain ⟨s, hruns, hgone⟩ := ih (hdrop.consistent ha) hrest fun other hother => by
      obtain ⟨r, hr, hrs⟩ := hidle other (List.mem_cons_of_mem _ hother)
      refine ⟨r, ?_, hrs⟩
      rw [hdrop.get?, if_neg, hr]
      rintro rfl
      exact hnew hother
    refine ⟨s, ?_, hgone.maxTombstones.trans hdrop.limits.maxTombstones, fun c => ?_,
      fun q hq => hgone.owners q ?_, ?_⟩
    · have hfirst : (do
          let _ ← evict victim
          pure () : IndexM C D Unit) a = .ok () b := bind_ok hrun
      unfold forEach
      rw [bind_ok hfirst]
      exact hruns
    · rw [hgone.records, hdrop.get?]
      by_cases hc : c = victim
      · simp [hc]
      · simp [hc]
    · rw [hdrop.owners, Dict.get?_pop]
      split
      · rfl
      · exact hq
    · rw [hgone.tombstoned, hdrop.tombstoned ha, hdrop.limits.maxTombstones, List.reverse_cons,
        List.append_assoc, List.singleton_append, List.take_append, List.take_append,
        List.take_take, Nat.min_eq_left (by omega)]

/-- The index after a plan: its victims are gone, its chain runs with what was reserved, and no
other record has changed. Of the victims, the last `max_tombstones` have a tombstone. -/
structure Applied (a : ChainCacheIndex C D) (plan : ChainAdmissionPlan C)
    (b : ChainCacheIndex C D) : Prop where
  gone : ∀ victim ∈ plan.victimChainIds, b.records.get? victim = none
  kept : ∀ c, c ∉ plan.victimChainIds → c ≠ plan.chainId →
    b.records.get? c = a.records.get? c
  active : ∃ record, b.records.get? plan.chainId = some record ∧ record.state = .active ∧
    record.chainId = plan.chainId ∧ record.seqId = plan.seqId ∧
    record.reservedSlotsByLayer = plan.reservedSlotsByLayer ∧
    record.reservedRows = plan.reservedRows
  tombstones : ∀ victim ∈ plan.victimChainIds, (b.tombstones.get? victim).isSome = true ↔
    victim ∈ plan.victimChainIds.reverse.take a.maxTombstones

omit [DecidableEq D] in
theorem Applied.of_evicted {s b : ChainCacheIndex C D} {record : ChainRecord C D}
    (ha : Consistent a) (hs : VictimsGone a plan.victimChainIds s)
    (hvictims : ∀ victim ∈ plan.victimChainIds, victim ≠ plan.chainId ∧
      ∃ record, a.records.get? victim = some record ∧ record.state = .idle)
    (hrecords : b.records = s.records.set plan.chainId record)
    (htombstones : b.tombstones = s.tombstones) (hactive : record.state = .active)
    (hchain : record.chainId = plan.chainId) (hseq : record.seqId = plan.seqId)
    (hslots : record.reservedSlotsByLayer = plan.reservedSlotsByLayer)
    (hrows : record.reservedRows = plan.reservedRows) : Applied a plan b where
  gone victim hvictim := by
    rw [hrecords, Dict.get?_set, if_neg (hvictims victim hvictim).1, hs.records, if_pos hvictim]
  kept c hc hne := by
    rw [hrecords, Dict.get?_set, if_neg hne, hs.records, if_neg hc]
  active := ⟨record, by rw [hrecords, Dict.get?_set_self], hactive, hchain, hseq, hslots, hrows⟩
  tombstones victim hvictim := by
    obtain ⟨-, old, hold, -⟩ := hvictims victim hvictim
    have hfresh : victim ∉ a.tombstoned := by
      rw [mem_tombstoned, ha.disjoint hold]
      exact Bool.false_ne_true
    have hsame : b.tombstoned = s.tombstoned := by
      unfold ChainCacheIndex.tombstoned
      rw [htombstones]
    rw [← mem_tombstoned, hsame, hs.tombstoned, List.take_append, List.mem_append]
    exact ⟨fun h => h.resolve_right fun hlate => hfresh (List.mem_of_mem_take hlate), Or.inl⟩

omit [DecidableEq D] in
theorem createRecord_ok {s : ChainCacheIndex C D} (hash : TokenHash D) (fingerprint : D)
    (hnew : s.records.get? plan.chainId = none)
    (hfree : s.seqIdToChainId.get? plan.seqId = none) :
    createRecord hash plan fingerprint s =
      .ok (plan.newRecord hash fingerprint (s.clock + 1)) { s with
        clock := s.clock + 1
        records := s.records.set plan.chainId (plan.newRecord hash fingerprint (s.clock + 1))
        seqIdToChainId := s.seqIdToChainId.set plan.seqId plan.chainId
        stats := { s.stats with created := s.stats.created + 1 } } := by
  unfold createRecord
  rw [get_bind, raiseIf_bind, hnew]
  simp only [Option.isSome_none, Bool.false_eq_true, if_false, hfree]
  rfl

omit [DecidableEq D] in
theorem resumeRecord_ok {s : ChainCacheIndex C D} {record : ChainRecord C D}
    (hfound : s.records.get? plan.chainId = some record) (hidle : record.state = .idle) :
    resumeRecord plan s = .ok (plan.resumedRecord record (s.clock + 1)) { s with
      clock := s.clock + 1
      records := s.records.set plan.chainId (plan.resumedRecord record (s.clock + 1))
      stats := { s.stats with resumed := s.stats.resumed + 1 } } := by
  have hlookup : lookup plan.chainId s = .ok record s := by
    unfold lookup
    rw [get_bind, hfound]
    rfl
  have hmodify : s.records.modify plan.chainId (plan.resumedRecord · (s.clock + 1)) =
      s.records.set plan.chainId (plan.resumedRecord record (s.clock + 1)) :=
    Dict.modify_of_get? hfound _
  unfold resumeRecord
  rw [bind_ok hlookup, raiseIf_bind, if_neg (not_not.mpr hidle), ← hmodify]
  rfl

omit [DecidableEq D] in
/-- **A plan applies to the index it was made on.** -/
theorem applyAdmission_applies (ha : Consistent a) (h : PlanOf a chain seq needs plan)
    (hash : TokenHash D) (applied : D)
    (hfree : plan.status = .created → a.seqIdToChainId.get? plan.seqId = none) :
    ∃ record b, applyAdmission hash plan applied a = .ok record b ∧ Applied a plan b := by
  have hvictims := h.victims_idle ha
  rw [← h.forChain] at hvictims
  obtain ⟨s, hruns, hgone⟩ := evictAll_ok plan.victimChainIds ha (h.victims_nodup ha)
    fun victim hvictim => (hvictims victim hvictim).2
  have hchain : plan.chainId ∉ plan.victimChainIds := fun hmem => (hvictims _ hmem).1 rfl
  have hsame : s.records.get? plan.chainId = a.records.get? plan.chainId := by
    rw [hgone.records, if_neg hchain]
  unfold applyAdmission
  rw [bind_ok hruns]
  have hstatus := h.status
  cases hcase : plan.status with
  | created =>
    rw [hcase] at hstatus
    have hnew : a.records.get? plan.chainId = none := by
      rw [h.forChain]
      cases hstatus with
      | created new => exact new
    exact ⟨_, _, createRecord_ok hash applied (hsame.trans hnew) (hgone.owners _ (hfree hcase)),
      Applied.of_evicted ha hgone hvictims rfl rfl rfl rfl rfl rfl rfl⟩
  | resumed =>
    rw [hcase] at hstatus
    obtain ⟨record, hfound, hidle, hseq⟩ : ∃ record, a.records.get? plan.chainId = some record ∧
        record.state = .idle ∧ record.seqId = plan.seqId := by
      rw [h.forChain, h.forSeq]
      cases hstatus with
      | resumed record found idle owner => exact ⟨record, found, idle, owner⟩
    have hkey : record.chainId = plan.chainId := ha.key hfound
    exact ⟨_, _, resumeRecord_ok (hsame.trans hfound) hidle,
      Applied.of_evicted ha hgone hvictims rfl rfl rfl hkey hseq rfl rfl⟩

/-- Raising, a plan changes statistics only. -/
structure PlanRefused (a b : ChainCacheIndex C D) : Prop where
  records : b.records = a.records
  owners : b.seqIdToChainId = a.seqIdToChainId
  tombstones : b.tombstones = a.tombstones

/-- **A chain plan is minimal, safe and applicable**, in every state of every run whose chains are
finished with counts. -/
theorem plan_applies (hash : TokenHash D) {maxTombstones : Int}
    {maxTokenHistoryTokens : Option Int} {start : ChainCacheIndex C D}
    (hstart : new maxTombstones maxTokenHistoryTokens = .ok start)
    (run : Reachable (ChainOp.exec hash) (fun _ op => op.Counted) start a) (chain : C)
    (seq : SeqId) (input : ChainInput D) (fingerprint : D) (needs : ChainRequirements) :
    Spec (· = a) (planAdmission hash chain seq input fingerprint needs)
      (fun plan b => b = a ∧ plan.chainId = chain ∧ plan.seqId = seq ∧
        MinimalVictims a chain needs plan.victimChainIds ∧
        ∀ applied, (plan.status = .created → a.seqIdToChainId.get? seq = none) →
          ∃ record c, applyAdmission hash plan applied a = .ok record c ∧ Applied a plan c)
      fun _ b => PlanRefused a b := by
  obtain ⟨ha, hcounts⟩ := counts_of_run hash hstart run
  have hquiet : Spec (· = a) (planAdmission hash chain seq input fingerprint needs)
      (fun _ => Quiet a) fun _ => Quiet a :=
    (planAdmission_quiet a hash chain seq input fingerprint needs).pre fun s hs => hs ▸ Quiet.refl s
  refine ((planAdmission_spec a hash chain seq input fingerprint needs).and hquiet).conseq
    (fun _ h => h) (fun plan b h => ?_) fun _ b h => ⟨h.2.records, h.2.owners, h.2.tombstones⟩
  obtain ⟨⟨rfl, hplan⟩, -⟩ := h
  refine ⟨rfl, hplan.forChain, hplan.forSeq, hplan.minimal hcounts, fun applied hfree => ?_⟩
  refine applyAdmission_applies ha hplan hash applied fun hcreated => ?_
  rw [hplan.forSeq]
  exact hfree hcreated

end Plans

/-! ## Two idle chains, one tombstone -/

def twoChains : List (ChainOp Nat (List Int)) :=
  [.admission 1 0 (.tokens [5]) [9] [9] {}, .finish 1 [5] 1 [4, 2] 1,
    .admission 2 1 (.tokens [6]) [9] [9] {}, .finish 2 [6] 1 [3] 1]

/-- Chains 1 and 2 are IDLE, and one tombstone is kept. -/
def twoIdle : ChainCacheIndex Nat (List Int) :=
  runAll (ChainOp.exec plainHash) { maxTombstones := 1, maxTokenHistoryTokens := none } twoChains

/-- A row and five slots of the first layer. -/
def oneRow : ChainRequirements where
  requiredSlotsByLayer := [5, 1]
  rowDeficit := 1
  reservedSlotsByLayer := [5, 1]
  reservedRows := 1

/-- The plan for a third chain evicts both. -/
def thirdPlan : ChainAdmissionPlan Nat where
  chainId := 3
  seqId := 2
  status := .created
  reusedTokens := 0
  inputTokenCount := 1
  victimChainIds := [1, 2]
  reservedSlotsByLayer := [5, 1]
  reservedRows := 1

theorem plan_applies_twoIdle : MinimalVictims twoIdle 3 oneRow [1, 2] ∧
    ∃ record c, applyAdmission plainHash thirdPlan [9] twoIdle = .ok record c ∧
      Applied twoIdle thirdPlan c := by
  have counted : Along (ChainOp.exec plainHash) (fun _ op => op.Counted)
      { maxTombstones := 1, maxTokenHistoryTokens := none } twoChains :=
    ⟨trivial, ⟨by decide, by decide⟩, trivial, ⟨by decide, by decide⟩, trivial⟩
  have hplan := plan_applies plainHash (show new 1 none = .ok _ from rfl)
    (Reachable.init.runAll counted) 3 2 (.tokens [7]) [9] oneRow twoIdle rfl
  have hrun : planAdmission plainHash 3 2 (.tokens [7]) [9] oneRow twoIdle = .ok thirdPlan twoIdle :=
    by rfl
  rw [hrun] at hplan
  obtain ⟨-, -, -, hminimal, happly⟩ := hplan
  exact ⟨hminimal, happly [9] fun _ => by decide +kernel⟩

/-- The first victim of a plan is without a tombstone when only one is kept. -/
theorem victim_without_tombstone :
    planAdmission plainHash 3 2 (.tokens [7]) [9] oneRow twoIdle = .ok thirdPlan twoIdle ∧
      ¬ ∀ victim ∈ thirdPlan.victimChainIds,
        ((stateAfter (applyAdmission plainHash thirdPlan [9]) twoIdle).tombstones.get?
          victim).isSome = true :=
  ⟨by rfl, by decide +kernel⟩

end ChainCacheIndex

end SparseVllm
