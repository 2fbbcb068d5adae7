import SparseVllm.Chain.IndexRun
import SparseVllm.Chain.RowLedger

/-!
# The row promise of chain admissions

An ACTIVE chain without a row will ask for one at its next step. The promise is that there are
always at least as many free resident rows as such chains (`RowPromise`). Every event keeps the
ledger sound with the promise on top (`RowsHold`); only the admission of a new chain adds a chain
that needs a row.

A created chain reserves its row when it is admitted. A resumed chain reserves none, so the
reservation count forgets it once a preemption has taken its row; `AdmissionCovered` is the condition
under which an admission does not rely on that count.

Results: `rowPromise_of_covered`, and the run that breaks the promise, `rowPromise_fails`.
-/

namespace SparseVllm

open SparseVllm.Lib

variable {C D : Type} [LinearOrder C]

/-! ## The promise -/

/-- The ACTIVE chains that currently hold no row. -/
def rowlessChains (s : ChainRuntime C D) : Nat :=
  rowless (chainHasResidency s.layers) s.index.records

/-- **The row promise**: a free resident row for every ACTIVE chain that holds none. -/
def RowPromise (s : ChainRuntime C D) : Prop :=
  rowlessChains s ≤ freeResidentRows s.layers

/-- The invariant of the run: the ledger is sound and keeps the promise. -/
def RowsHold (s : ChainRuntime C D) : Prop :=
  ∃ free has, Rows [] free has s ∧ rowless has s.index.records ≤ free

theorem RowsHold.promise {s : ChainRuntime C D} (h : RowsHold s) : RowPromise s := by
  obtain ⟨free, has, hrows, hle⟩ := h
  unfold RowPromise rowlessChains
  rw [freeResidentRows_eq hrows.agree, show chainHasResidency s.layers = has from
    funext (chainHasResidency_eq hrows.agree)]
  exact hle

theorem RowsHold.sameLedger {s : ChainRuntime C D} (h : RowsHold s)
    {index : ChainCacheIndex C D} (hsame : ChainCacheIndex.SameLedger s.index index) :
    RowsHold { s with index := index } := by
  obtain ⟨free, has, hrows, hle⟩ := h
  exact ⟨free, has, hrows.sameLedger hsame, by rw [hsame.records]; exact hle⟩

/-! ## Programs -/

omit [LinearOrder C] in
theorem onIndex_spec {α : Type} {m : ChainCacheIndex.IndexM C D α} {s : ChainRuntime C D}
    {Q : α → ChainCacheIndex C D → Prop} {E : ChainError C → ChainCacheIndex C D → Prop}
    (h : Spec (· = s.index) m Q E) :
    Spec (· = s) (onIndex m) (fun a t => ∃ index, t = { s with index := index } ∧ Q a index)
      fun e t => ∃ index, t = { s with index := index } ∧ E e index := by
  refine Spec.zoom fun t ht => ?_
  subst ht
  exact h.conseq (fun _ hi => hi) (fun a i hi => ⟨i, rfl, hi⟩) fun e i hi => ⟨i, rfl, hi⟩

/-- A lookup leaves the runtime as it is. -/
theorem onIndex_lookup_spec (s : ChainRuntime C D) (chain : C) :
    Spec (· = s) (onIndex (ChainCacheIndex.lookup chain))
      (fun record t => t = s ∧ s.index.records.get? chain = some record) fun _ t => t = s := by
  refine (onIndex_spec (ChainCacheIndex.lookup_spec s.index chain)).conseq (fun _ h => h) ?_ ?_
  · rintro record t ⟨index, rfl, rfl, hrec⟩
    exact ⟨rfl, hrec⟩
  · rintro e t ⟨index, rfl, rfl, -⟩
    rfl

omit [LinearOrder C] in
/-- A call on the layers leaves the state with what `forLayers` leaves. -/
theorem onLayers_spec (s : ChainRuntime C D) (f : KvLayer → Except (ChainError C) KvLayer)
    {Q : Unit → ChainRuntime C D → Prop} {E : ChainError C → ChainRuntime C D → Prop}
    (hok : ∀ layers, forLayers f s.layers = (layers, none) → Q () { s with layers := layers })
    (herr : ∀ layers e, forLayers f s.layers = (layers, some e) →
      E e { s with layers := layers }) : Spec (· = s) (onLayers f) Q E := by
  rintro t rfl
  unfold onLayers
  cases hrun : forLayers f t.layers with
  | mk layers raised =>
    cases raised with
    | none => exact hok layers hrun
    | some e => exact herr layers e hrun

/-- At most `n` ACTIVE chains are without a row, and at least `m` rows are free or owed. -/
def RowsOwed (n m : Nat) (owed : List SeqId) (s : ChainRuntime C D) : Prop :=
  ∃ free has, Rows owed free has s ∧ rowless has s.index.records ≤ n ∧ m ≤ free + owed.length

theorem RowsOwed.hold {n : Nat} {s : ChainRuntime C D} (h : RowsOwed n n [] s) : RowsHold s := by
  obtain ⟨free, has, hrows, hle, hn⟩ := h
  exact ⟨free, has, hrows, hle.trans hn⟩

/-- Freeing the row of an owed sequence never raises. -/
theorem freeOwed_spec {n m : Nat} (seq : SeqId) (owed : List SeqId) {E : ChainError C →
    ChainRuntime C D → Prop} :
    Spec (RowsOwed n m (seq :: owed)) (freeSeqPayload seq) (fun _ => RowsOwed n m owed) E := by
  refine Spec.intro fun s hs => ?_
  obtain ⟨free, has, hrows, hle, hn⟩ := hs
  obtain ⟨layers, hrun, hagree⟩ :=
    freeSeq_rowsAgree (C := C) hrows.agree (hrows.owedHeld seq List.mem_cons_self)
  refine onLayers_spec s _ (fun layers' hrun' => ?_) fun layers' e hrun' => ?_
  · obtain rfl : layers = layers' := congrArg Prod.fst (hrun.symm.trans hrun')
    obtain ⟨hfreed, hsame⟩ := hrows.freeOwed hagree
    refine ⟨free + 1, _, hfreed, hsame.trans_le hle, ?_⟩
    rw [List.length_cons] at hn
    omega
  · cases hrun.symm.trans hrun'

/-- Releasing the rows of a preempted chain. -/
theorem releasePreempted_keeps (chain : C) :
    Keeps RowsHold (releasePreempted chain : ChainM C D Unit) := by
  refine Spec.intro fun s hs => ?_
  refine Spec.bind ((onIndex_lookup_spec s chain).conseq (fun _ h => h) (fun _ _ h => h)
    fun _ t ht => ht ▸ hs) fun record => ?_
  refine Spec.ite (fun hactive => ?_) fun _ => Spec.pure fun t ht => ht.1 ▸ hs
  refine Spec.intro fun t ht => ?_
  obtain ⟨rfl, hrec⟩ := ht
  obtain ⟨free, has, hrows, hle⟩ := hs
  cases hheld : has record.seqId with
  | false =>
    have hsame := freeSeq_unchanged (C := C) hrows.agree hheld
    refine onLayers_spec t _ (fun layers hrun => ?_) fun layers e hrun => ?_
    all_goals
      obtain rfl : t.layers = layers := hsame.symm.trans (congrArg Prod.fst hrun)
      exact ⟨free, has, hrows, hle⟩
  | true =>
    obtain ⟨layers, hrun, hagree⟩ := freeSeq_rowsAgree (C := C) hrows.agree hheld
    obtain ⟨hfreed, hone⟩ := hrows.freeActive hrec hactive hagree
    refine onLayers_spec t _ (fun layers' hrun' => ?_) fun layers' e hrun' => ?_
    · obtain rfl : layers = layers' := congrArg Prod.fst (hrun.symm.trans hrun')
      exact ⟨free + 1, _, hfreed, hone.trans (by omega)⟩
    · cases hrun.symm.trans hrun'

theorem RowsAgree.setSlotCounters {layers : List KvLayer} {free : Nat} {has : SeqId → Bool}
    (h : RowsAgree layers free has) (counters : SlotCounters) :
    RowsAgree (setSlotCounters counters layers) free has where
  each layer hlayer := by
    obtain ⟨idx, hidx, rfl⟩ := List.mem_mapIdx.mp hlayer
    have hold := h.each _ (List.getElem_mem hidx)
    exact ⟨hold.free, hold.held⟩
  none hnil := h.none (List.mapIdx_eq_nil_iff.mp hnil)

/-- A step takes a row at most once, and only for a chain the promise covers. -/
theorem runStep_keeps (chain : C) (counters : SlotCounters) :
    Keeps RowsHold (runStep chain counters : ChainM C D Unit) := by
  refine Spec.intro fun s hs => ?_
  refine Spec.bind ((onIndex_lookup_spec s chain).conseq (fun _ h => h) (fun _ _ h => h)
    fun _ t ht => ht ▸ hs) fun record => ?_
  refine Spec.ite (fun hactive => ?_) fun _ => Spec.pure fun t ht => ht.1 ▸ hs
  refine Spec.bind (R := fun _ => RowsHold) ?_ fun _ => Spec.modify fun t ht => ?_
  · refine Spec.intro fun t ht => ?_
    obtain ⟨rfl, hrec⟩ := ht
    obtain ⟨free, has, hrows, hle⟩ := hs
    have htaken : RowsHold
        { t with layers := (forLayers (KvLayer.getFreeRow (C := C) record.seqId) t.layers).1 } := by
      rcases getFreeRow_rowsAgree (C := C) record.seqId hrows.agree with h | ⟨hrow, hpos, h⟩
      · exact ⟨free, has, { hrows with agree := h }, hle⟩
      · obtain ⟨htake, hone⟩ := hrows.takeActive hrec hactive hrow h
        refine ⟨free - 1, _, htake, ?_⟩
        show rowless _ t.index.records ≤ free - 1
        omega
    refine onLayers_spec t _ (fun layers hrun => ?_) fun layers e hrun => ?_
    all_goals
      obtain rfl : _ = layers := congrArg Prod.fst hrun
      exact htaken
  · obtain ⟨free, has, hrows, hle⟩ := ht
    exact ⟨free, has, { hrows with agree := hrows.agree.setSlotCounters counters }, hle⟩

/-- The ledger with a free row to spare. -/
def RowsSpare (s : ChainRuntime C D) : Prop :=
  ∃ free has, Rows [] free has s ∧ rowless has s.index.records < free

theorem RowsSpare.hold {s : ChainRuntime C D} (h : RowsSpare s) : RowsHold s := by
  obtain ⟨free, has, hrows, hlt⟩ := h
  exact ⟨free, has, hrows, le_of_lt hlt⟩

/-- What `chainInvalidate` leaves: a spare row, and a sequence id that nobody owns. -/
structure Invalidated (s : ChainRuntime C D) (chain : C) (t : ChainRuntime C D) : Prop where
  spare : RowsSpare t
  next : t.nextSeqId = s.nextSeqId
  unowned : ∀ record, s.index.records.get? chain = some record →
    t.index.seqIdToChainId.get? record.seqId = none

omit [LinearOrder C] in
theorem freeSeqPayload_frame (s : ChainRuntime C D) (seq : SeqId) :
    Spec (· = s) (freeSeqPayload seq) (fun _ t => t.index = s.index ∧ t.nextSeqId = s.nextSeqId)
      fun _ t => t.index = s.index ∧ t.nextSeqId = s.nextSeqId :=
  onLayers_spec s _ (fun _ _ => ⟨rfl, rfl⟩) fun _ _ _ => ⟨rfl, rfl⟩

/-- Dropping a chain and freeing its row, if it holds one: an ACTIVE chain without a row gives up
its claim on one, any other chain gives up its row. -/
theorem chainInvalidate_spec (s : ChainRuntime C D) (hs : RowsHold s) (chain : C)
    (expectedSeq : Option SeqId) :
    Spec (· = s) (chainInvalidate chain expectedSeq) (fun _ => Invalidated s chain)
      fun _ => RowsHold := by
  refine Spec.bind ((onIndex_lookup_spec s chain).conseq (fun _ h => h) (fun _ _ h => h)
    fun _ t ht => ht ▸ hs) fun found => ?_
  refine Spec.raiseIf_bind (fun _ t ht => ht.1 ▸ hs) fun _ => ?_
  refine Spec.pre ?_ fun t ht => ht.1
  refine Spec.bind ((onIndex_spec (ChainCacheIndex.invalidate_spec s.index chain)).conseq
    (fun _ h => h) (fun _ _ h => h) ?_) fun record => Spec.get_bind fun t ht => ?_
  · rintro _ t ⟨index, rfl, rfl⟩
    exact hs
  obtain ⟨index, rfl, hdrop⟩ := ht
  obtain ⟨free, has, hrows, hle⟩ := hs
  have hsplit := rowless_get? has hdrop.found
  rw [← hdrop.records] at hsplit
  obtain ⟨hbase, howed⟩ := hrows.dropped hdrop
  have hunowned : ∀ r, s.index.records.get? chain = some r →
      index.seqIdToChainId.get? r.seqId = none := by
    intro r hr
    rw [hdrop.owners, Dict.get?_pop, if_pos]
    rw [Option.some.inj (hr.symm.trans hdrop.found)]
  refine Spec.ite (fun hheld => ?_) fun hrow => Spec.pure fun t ht => ?_
  · rw [chainHasResidency_eq hrows.agree] at hheld
    have hless : rowless has index.records ≤ free := by omega
    intro t ht
    have hfreed := freeOwed_spec (n := free) (m := free + 1) (E := fun _ _ => False) record.seqId [] t
      (ht ▸ ⟨free, has, howed hheld, hless, le_refl _⟩)
    have hframe := freeSeqPayload_frame _ record.seqId t ht
    cases hrun : freeSeqPayload record.seqId t with
    | error e u => rw [hrun] at hfreed; exact hfreed.elim
    | ok a u =>
      rw [hrun] at hfreed hframe
      obtain ⟨free', has', hrows', hle', hm⟩ := hfreed
      refine ⟨⟨free', has', hrows', ?_⟩, hframe.2, ?_⟩
      · rw [List.length_nil] at hm
        omega
      · rw [hframe.1]
        exact hunowned
  · rw [chainHasResidency_eq hrows.agree] at hrow
    subst ht
    refine ⟨⟨free, has, hbase, ?_⟩, rfl, hunowned⟩
    have hactive : record.state = .active := by
      cases hstate : record.state with
      | active => rfl
      | idle => exact absurd (hrows.idle chain record hdrop.found hstate).1 hrow
    have hone : rowlessOne has record = 1 := if_pos ⟨hactive, Bool.not_eq_true _ ▸ hrow⟩
    show rowless has index.records < free
    omega

theorem chainInvalidate_keeps (chain : C) (expectedSeq : Option SeqId) :
    Keeps RowsHold (chainInvalidate chain expectedSeq : ChainM C D Unit) :=
  Spec.intro fun s hs => (chainInvalidate_spec s hs chain expectedSeq).post
    fun _ _ h => h.spare.hold

/-- Finishing a request: the chain holds its row, and becomes IDLE with it. -/
theorem chainFinish_keeps (hash : TokenHash D) (chain : C) (seq : SeqId) (digest : D)
    (processed : Int) :
    Keeps RowsHold (chainFinish hash chain seq digest processed : ChainM C D Unit) := by
  refine Spec.intro fun s hs => ?_
  refine Spec.bind ((onIndex_lookup_spec s chain).conseq (fun _ h => h) (fun _ _ h => h)
    fun _ t ht => ht ▸ hs) fun found => ?_
  refine Spec.raiseIf_bind (fun _ t ht => ht.1 ▸ hs) fun hseq => Spec.get_bind fun t ht => ?_
  obtain ⟨rfl, hfound⟩ := ht
  split
  · exact Spec.throw fun u hu => hu ▸ hs
  rename_i slots hslots
  refine Spec.bind ((onIndex_spec (ChainCacheIndex.finishDigest_spec t.index hash chain digest
    processed slots 1)).conseq (fun _ h => h) (fun _ _ h => h) ?_) fun _ =>
      Spec.pure fun u hu => ?_
  · rintro _ u ⟨index, rfl, rfl⟩
    exact hs
  obtain ⟨index, rfl, ⟨record, now, hrec, hactive, hrecords⟩, howners⟩ := hu
  obtain ⟨free, has, hrows, hle⟩ := hs
  obtain rfl : found = record := Option.some.inj (hfound.symm.trans hrec)
  have hsplit := rowless_get? has hrec
  -- A chain that finishes held its row: the residency was read from every layer.
  have hseq' : found.seqId = seq := not_not.mp hseq
  have hheld : has found.seqId = true := by
    by_contra hnot
    have hrow : has found.seqId = false := Bool.not_eq_true _ ▸ hnot
    have hone : rowlessOne has found = 1 := if_pos ⟨hactive, hrow⟩
    cases hlayers : t.layers with
    | nil =>
      have := (hrows.agree.none hlayers).1
      omega
    | cons layer rest =>
      rw [hlayers] at hslots
      have hlayer := (hrows.agree.each layer (hlayers ▸ List.mem_cons_self)).held seq
      rw [← hseq', hrow] at hlayer
      have hnone := Option.isNone_iff_eq_none.mp (Option.isSome_eq_false_iff.mp hlayer)
      rw [chainPhysicalResidency, ← hseq', hnone] at hslots
      cases hslots
  have hnew : rowlessOne has (found.finished digest processed slots 1 now) = 0 :=
    rowlessOne_idle rfl
  have hkept : Rows [] free has { t with index := index } :=
    hrows.replaced hrec (rfl : (found.finished digest processed slots 1 now).chainId = _) rfl
      (fun _ => ⟨hheld, rfl⟩) hrecords howners
  refine ⟨free, has, hkept, ?_⟩
  rw [hrecords, rowless_set]
  omega

/-- Remembering the tokens of an IDLE chain changes no row. -/
theorem rememberProcessedTokens_keeps [DecidableEq D] (hash : TokenHash D) (chain : C) (seq : SeqId)
    (tokens : List Int) (processed : Int) :
    Keeps RowsHold (onIndex (ChainCacheIndex.rememberProcessedTokens hash chain seq tokens processed) :
      ChainM C D (ChainRecord C D)) := by
  refine Spec.intro fun s hs => ?_
  obtain ⟨free, has, hrows, hle⟩ := hs
  refine (onIndex_spec (ChainCacheIndex.remember_updates (hrows.owned.filed chain) hash seq tokens
    processed)).conseq (fun _ h => h) ?_ ?_
  · rintro _ _ ⟨index, rfl, record, hidle, hupdate⟩
    have hnew : ({ record with tokenIds := tokens } : ChainRecord C D).state = .idle := hidle
    refine ⟨free, has, hrows.replaced hupdate.found hupdate.sameChain hupdate.sameSeq
      (fun _ => hrows.idle chain record hupdate.found hidle) hupdate.records hupdate.owners, ?_⟩
    rw [hupdate.records, rowless_set, rowlessOne_idle hnew]
    rw [rowless_get? has hupdate.found] at hle
    omega
  · rintro _ _ ⟨index, rfl, rfl⟩
    exact ⟨free, has, hrows, hle⟩

/-- The end of a request. -/
theorem finishRequest_keeps [DecidableEq D] (hash : TokenHash D) (chain : C) (seq : SeqId)
    (tokens : List Int) :
    Keeps RowsHold (finishRequest hash chain seq tokens : ChainM C D Unit) := by
  unfold finishRequest
  dsimp only
  split
  · exact Spec.throw fun _ hs => hs
  · exact Spec.bind (chainFinish_keeps hash chain seq _ _) fun _ =>
      Spec.bind (rememberProcessedTokens_keeps hash chain seq tokens _) fun _ => Spec.pure fun _ hs => hs

/-! ## Applying a plan -/

/-- The owner of a chain. -/
def ownerOf (index : ChainCacheIndex C D) (chain : C) : SeqId :=
  ((index.records.get? chain).map ChainRecord.seqId).getD 0

theorem ownerOf_eq {index : ChainCacheIndex C D} {chain : C} {record : ChainRecord C D}
    (h : index.records.get? chain = some record) : ownerOf index chain = record.seqId := by
  unfold ownerOf
  rw [h]
  rfl

theorem victimSeqIds_spec (s : ChainRuntime C D) :
    ∀ victims : List C, Spec (· = s) (victimSeqIds victims)
      (fun seqs t => t = s ∧ seqs = victims.map (ownerOf s.index)) fun _ t => t = s
  | [] => Spec.pure fun _ ht => ⟨ht, rfl⟩
  | victim :: rest => by
    refine Spec.bind (onIndex_lookup_spec s victim) fun record => Spec.intro fun t ht => ?_
    obtain ⟨rfl, hrec⟩ := ht
    refine Spec.bind (victimSeqIds_spec t rest) fun seqs => Spec.pure fun u hu => ⟨hu.1, ?_⟩
    rw [List.map_cons, ownerOf_eq hrec, hu.2]

/-- The victims of a plan can be evicted: distinct IDLE chains. -/
structure Evictable (index : ChainCacheIndex C D) (victims : List C) : Prop where
  nodup : victims.Nodup
  idle : ∀ victim ∈ victims, ∃ record, index.records.get? victim = some record ∧
    record.state = .idle

/-- The index after evicting `done`, with `rest` still to evict. -/
structure Evicting (s : ChainRuntime C D) (free : Nat) (has : SeqId → Bool) (n : Nat)
    (done rest : List C) (index : ChainCacheIndex C D) : Prop where
  rows : Rows (done.map (ownerOf s.index)) free has { s with index := index }
  rowless : rowless has index.records ≤ n
  evictable : Evictable index rest
  records : ∀ chain record, index.records.get? chain = some record →
    s.index.records.get? chain = some record
  owners : ∀ seq, s.index.seqIdToChainId.get? seq = none → index.seqIdToChainId.get? seq = none

theorem Evicting.step {s : ChainRuntime C D} {free : Nat} {has : SeqId → Bool} {n : Nat}
    {done rest : List C} {victim : C} {index index' : ChainCacheIndex C D}
    {record : ChainRecord C D} (h : Evicting s free has n done (victim :: rest) index)
    (hidle : record.state = .idle)
    (hdrop : ChainCacheIndex.Dropped index victim record index') :
    Evicting s free has n (done ++ [victim]) rest index' where
  rows := by
    have howner : ownerOf s.index victim = record.seqId :=
      ownerOf_eq (h.records victim record hdrop.found)
    rw [List.map_append, List.map_singleton, howner]
    exact (h.rows.dropped hdrop).2 (h.rows.idle victim record hdrop.found hidle).1
  rowless := by
    have hsplit := rowless_get? has hdrop.found
    have hless := h.rowless
    rw [hdrop.records]
    omega
  evictable := by
    have hnodup := List.nodup_cons.mp h.evictable.nodup
    refine ⟨hnodup.2, fun v hv => ?_⟩
    obtain ⟨r, hr, hri⟩ := h.evictable.idle v (List.mem_cons_of_mem _ hv)
    refine ⟨r, ?_, hri⟩
    rw [hdrop.records, Dict.get?_pop, if_neg, hr]
    rintro rfl
    exact hnodup.1 hv
  records c r hr := by
    rw [hdrop.records, Dict.get?_pop] at hr
    split at hr
    · cases hr
    · exact h.records c r hr
  owners q hq := by
    rw [hdrop.owners, Dict.get?_pop]
    split
    · rfl
    · exact h.owners q hq

/-- Evicting IDLE chains never raises; their rows are owed. -/
theorem evictAll_spec {s : ChainRuntime C D} {free : Nat} {has : SeqId → Bool} {n : Nat}
    {E : ChainError C → ChainCacheIndex C D → Prop} :
    ∀ victims done, Spec (Evicting s free has n done victims)
      (forEach victims fun victim => do
        let _ ← ChainCacheIndex.evict victim
        pure ())
      (fun _ => Evicting s free has n (done ++ victims) []) E
  | [], done => Spec.pure fun index hindex => by rwa [List.append_nil]
  | victim :: rest, done => by
    refine Spec.bind (R := fun _ => Evicting s free has n (done ++ [victim]) rest) ?_ fun _ => ?_
    · refine Spec.intro fun index hindex => ?_
      refine Spec.bind ((ChainCacheIndex.evict_spec index victim).conseq (fun _ h => h)
        (fun _ _ h => h) ?_) fun record => Spec.pure fun index' hdrop => ?_
      · rintro e _ ⟨rfl, hactive⟩
        obtain ⟨record, hrec, hidle⟩ := hindex.evictable.idle victim List.mem_cons_self
        rw [hactive record hrec] at hidle
        cases hidle
      · exact hindex.step hdrop.1 hdrop.2
    · have hrest := @evictAll_spec s free has n E rest (done ++ [victim])
      rwa [List.append_assoc] at hrest

/-- What an applicable plan needs of the state it is applied to. -/
structure Applicable (plan : ChainAdmissionPlan C) (free : Nat) (has : SeqId → Bool)
    (s : ChainRuntime C D) : Prop where
  rows : Rows [] free has s
  promise : rowless has s.index.records ≤ free
  evictable : Evictable s.index plan.victimChainIds
  /-- A new chain runs under a sequence nobody owns, and its row is free or freed by the victims. -/
  created : plan.status = .created → plan.seqId < s.nextSeqId ∧
    s.index.seqIdToChainId.get? plan.seqId = none ∧
    rowless has s.index.records + 1 ≤ free + plan.victimChainIds.length

/-- The ACTIVE chains without a row once the plan is applied. -/
def rowlessAfter (plan : ChainAdmissionPlan C) (has : SeqId → Bool) (s : ChainRuntime C D) : Nat :=
  rowless has s.index.records + if plan.status = .created then 1 else 0

/-- A created record is the one more chain without a row. -/
theorem createRecord_rows {plan : ChainAdmissionPlan C} {free : Nat} {has : SeqId → Bool}
    {s : ChainRuntime C D} (h : Applicable plan free has s) (hstatus : plan.status = .created)
    (hash : TokenHash D) (fingerprint : D) :
    Spec (Evicting s free has (rowless has s.index.records) plan.victimChainIds [])
      (ChainCacheIndex.createRecord hash plan fingerprint)
      (fun _ index => Rows (plan.victimChainIds.map (ownerOf s.index)) free has
        { s with index := index } ∧ rowless has index.records ≤ rowlessAfter plan has s)
      fun _ index => RowsHold { s with index := index } := by
  obtain ⟨hnext, howner, -⟩ := h.created hstatus
  refine Spec.intro fun evicted hevicted => ?_
  refine (ChainCacheIndex.createRecord_spec evicted hash plan fingerprint).conseq (fun _ h => h)
    ?_ ?_
  · rintro _ index ⟨hnew, hunowned, ⟨now, hrecords⟩, howners⟩
    have hfresh : plan.seqId ∉ plan.victimChainIds.map (ownerOf s.index) := by
      intro hmem
      obtain ⟨victim, hvictim, hseq⟩ := List.mem_map.mp hmem
      obtain ⟨record, hrec, -⟩ := h.evictable.idle victim hvictim
      rw [← hseq, ownerOf_eq hrec, h.rows.owned.owner victim record hrec] at howner
      cases howner
    have hrows := @Rows.created _ _ _ _ _ _ _ hevicted.rows plan.chainId
      (plan.newRecord hash fingerprint now) index rfl rfl hnext hfresh hunowned hnew hrecords howners
    refine ⟨hrows, ?_⟩
    have hone := rowlessOne_le has (plan.newRecord hash fingerprint now)
    have hless := hevicted.rowless
    rw [hrecords, rowless_set, Dict.pop_of_get?_none hnew, rowlessAfter, if_pos hstatus]
    omega
  · rintro _ index rfl
    exact ⟨free, has, hevicted.rows.forget, hevicted.rowless.trans h.promise⟩

/-- A resumed chain was IDLE and keeps the row it holds. -/
theorem resumeRecord_rows {plan : ChainAdmissionPlan C} {free : Nat} {has : SeqId → Bool}
    {s : ChainRuntime C D} (h : Applicable plan free has s) :
    Spec (Evicting s free has (rowless has s.index.records) plan.victimChainIds [])
      (ChainCacheIndex.resumeRecord plan)
      (fun _ index => Rows (plan.victimChainIds.map (ownerOf s.index)) free has
        { s with index := index } ∧ rowless has index.records ≤ rowlessAfter plan has s)
      fun _ index => RowsHold { s with index := index } := by
  refine Spec.intro fun evicted hevicted => ?_
  refine (ChainCacheIndex.resumeRecord_spec evicted plan).conseq (fun _ h => h) ?_ ?_
  · rintro _ index ⟨⟨record, now, hrec, hidle, hrecords⟩, howners⟩
    have hheld := (hevicted.rows.idle plan.chainId record hrec hidle).1
    have hactive : (plan.resumedRecord record now).state ≠ .idle := fun hstate => by cases hstate
    have hrows := @Rows.replaced _ _ _ _ _ _ _ hevicted.rows plan.chainId record
      (plan.resumedRecord record now) index hrec rfl rfl
      (fun hstate => absurd hstate hactive) hrecords howners
    refine ⟨hrows, ?_⟩
    have hone : rowlessOne has (plan.resumedRecord record now) = 0 := rowlessOne_held hheld
    have hsplit := rowless_get? has hrec
    have hless := hevicted.rowless
    rw [hrecords, rowless_set, rowlessAfter]
    omega
  · rintro _ index rfl
    exact ⟨free, has, hevicted.rows.forget, hevicted.rowless.trans h.promise⟩

theorem applyAdmission_rows {plan : ChainAdmissionPlan C} {free : Nat} {has : SeqId → Bool}
    {s : ChainRuntime C D} (h : Applicable plan free has s) (hash : TokenHash D)
    (fingerprint : D) :
    Spec (· = s.index) (ChainCacheIndex.applyAdmission hash plan fingerprint)
      (fun _ index => Rows (plan.victimChainIds.map (ownerOf s.index)) free has
        { s with index := index } ∧ rowless has index.records ≤ rowlessAfter plan has s)
      fun _ index => RowsHold { s with index := index } := by
  have hstart : Evicting s free has (rowless has s.index.records) [] plan.victimChainIds s.index :=
    ⟨h.rows, le_refl _, h.evictable, fun _ _ hr => hr, fun _ hq => hq⟩
  refine Spec.bind (Spec.pre (evictAll_spec (s := s) plan.victimChainIds [])
    fun index (hindex : index = s.index) => by rw [hindex]; exact hstart) fun _ => ?_
  split
  · exact createRecord_rows h ‹_› hash fingerprint
  · exact resumeRecord_rows h

/-- **Applying a plan keeps the promise.** -/
theorem chainApplyAdmission_keeps (hash : TokenHash D) (fingerprint : D)
    (plan : ChainAdmissionPlan C) :
    Spec (fun s => ∃ free has, Applicable plan free has s)
      (chainApplyAdmission hash fingerprint plan : ChainM C D Unit) (fun _ => RowsHold)
      fun _ => RowsHold := by
  refine Spec.intro fun s hs => ?_
  obtain ⟨free, has, hplan⟩ := hs
  have hs : RowsHold s := ⟨free, has, hplan.rows, hplan.promise⟩
  refine Spec.bind ((victimSeqIds_spec s plan.victimChainIds).conseq (fun _ h => h)
    (fun _ _ h => h) fun _ t ht => ht ▸ hs) fun seqs => Spec.intro fun t ht => ?_
  obtain ⟨rfl, rfl⟩ := ht
  have hcovered : rowlessAfter plan has t ≤
      free + (plan.victimChainIds.map (ownerOf t.index)).length := by
    have hpromise := hplan.promise
    rw [List.length_map, rowlessAfter]
    split
    · exact (hplan.created ‹_›).2.2
    · omega
  let n := rowlessAfter plan has t
  refine Spec.bind (R := fun _ => RowsOwed n n (plan.victimChainIds.map (ownerOf t.index)))
    ((onIndex_spec (applyAdmission_rows hplan hash fingerprint)).conseq (fun _ h => h) ?_ ?_)
    fun _ => ?_
  · rintro _ u ⟨index, rfl, hrows, hless⟩
    exact ⟨free, has, hrows, hless, hcovered⟩
  · rintro _ u ⟨index, rfl, hhold⟩
    exact hhold
  · refine Spec.post (Spec.forEach (I := RowsOwed n n) (fun seq rest => freeOwed_spec seq rest) _) ?_
    exact fun _ u hu => hu.hold

/-! ## Planning -/

/-- The admission of a new chain does not rely on a reservation that is not there: every ACTIVE
chain without a row reserved one, or there is a free row to spare. -/
def AdmissionCovered (s : ChainRuntime C D) : Prop :=
  (∀ record ∈ s.index.records.values, record.state = .active →
    chainHasResidency s.layers record.seqId = false → 1 ≤ record.reservedRows) ∨
  rowlessChains s < freeResidentRows s.layers

instance (s : ChainRuntime C D) : Decidable (AdmissionCovered s) :=
  inferInstanceAs (Decidable (_ ∨ _))

omit [LinearOrder C] in
/-- Where every chain without a row reserved one, the outstanding rows count them all. -/
theorem rowless_le_outstanding {layers : List KvLayer} :
    ∀ {records : List (ChainRecord C D)} {acc out : List Int × Int},
      (∀ record ∈ records, record.state = .active →
        chainHasResidency layers record.seqId = false → 1 ≤ record.reservedRows) →
      outstandingReservations layers records acc = .ok out →
      acc.2 + (records.countP fun record =>
        record.state = .active ∧ chainHasResidency layers record.seqId = false : Nat) ≤ out.2
  | [], acc, out, _, h => by
    obtain rfl : acc = out := by simpa [outstandingReservations] using h
    simp
  | record :: rest, (slots, rows), out, hres, h => by
    have hrest : ∀ r ∈ rest, r.state = .active → chainHasResidency layers r.seqId = false →
        1 ≤ r.reservedRows := fun r hr => hres r (List.mem_cons_of_mem _ hr)
    rw [rowless_cons]
    unfold outstandingReservations at h
    split at h
    · rename_i hidle
      have ih := rowless_le_outstanding hrest h
      have hone : rowlessOne (chainHasResidency layers) record = 0 :=
        rowlessOne_idle (ChainCacheIndex.state_idle_of_not_active hidle)
      simp only [hone]
      omega
    · rename_i hactive
      obtain ⟨current, hrun⟩ : ∃ current, outstandingReservations layers rest
          (addByLayer slots
            (outstandingOf record.reservedSlotsByLayer current record.physicalSlotsByLayer),
          rows + outstandingRowsOf layers record) = .ok out := by
        split at h
        · cases hphys : chainPhysicalResidency (C := C) record.seqId layers with
          | error e => rw [hphys] at h; cases h
          | ok current => rw [hphys] at h; exact ⟨current, h⟩
        · exact ⟨record.physicalSlotsByLayer, h⟩
      have ih := rowless_le_outstanding hrest hrun
      have hone : (rowlessOne (chainHasResidency layers) record : Int) ≤
          outstandingRowsOf layers record := by
        unfold outstandingRowsOf rowlessOne
        split
        · rename_i hrow
          have := hres record List.mem_cons_self hrow.1 hrow.2
          rw [hrow.2]
          simp only [Bool.false_eq_true, if_false]
          omega
        · omega
      simp only at ih ⊢
      omega

/-- The rows an admission has to cover by evicting. -/
theorem admissionRequirements_rowDeficit {cfg : ChainConfig} {s : ChainRuntime C D} {chain : C}
    {tokenCount generationTokens : Int} {needs : ChainCacheIndex.ChainRequirements}
    (h : admissionRequirements cfg s chain tokenCount generationTokens = .ok needs) :
    ∃ out, outstandingActiveReservations s = .ok out ∧
      needs.rowDeficit = max 0 ((if (s.index.records.get? chain).isNone then 1 else 0) -
        max 0 ((freeResidentRows s.layers : Int) - max 0 out.2)) := by
  unfold admissionRequirements at h
  cases hout : outstandingActiveReservations s with
  | error e => rw [hout] at h; cases h
  | ok out =>
    rw [hout] at h
    refine ⟨out, rfl, ?_⟩
    obtain rfl := Except.ok.inj h
    rfl

theorem WellOwned.chainIds_nodup {index : ChainCacheIndex C D} {next : SeqId}
    (h : WellOwned index next) : (index.records.values.map ChainRecord.chainId).Nodup := by
  have hkeys : index.records.values.map ChainRecord.chainId = index.records.keys := by
    unfold Dict.values AList.keys List.keys
    rw [List.map_map]
    refine List.map_congr_left fun entry hentry => ?_
    exact h.filed entry.1 entry.2 (Dict.mem_entries.mp hentry)
  rw [hkeys]
  exact index.records.keys_nodup

/-- The victims of a plan are distinct IDLE chains. -/
theorem planOf_evictable {s : ChainRuntime C D} {free : Nat} {has : SeqId → Bool} {chain : C}
    {seq : SeqId} {needs : ChainCacheIndex.ChainRequirements} {plan : ChainAdmissionPlan C}
    (hrows : Rows [] free has s) (hplan : ChainCacheIndex.PlanOf s.index chain seq needs plan) :
    Evictable s.index plan.victimChainIds := by
  have hselected : plan.victimChainIds <+:
      (ChainCacheIndex.evictionCandidates s.index chain).map ChainRecord.chainId := by
    have := ChainCacheIndex.selectVictims_prefix
      (ChainCacheIndex.evictionCandidates s.index chain) (max 0 needs.rowDeficit)
      (needs.requiredSlotsByLayer.map (max 0))
    rwa [hplan.victims] at this
  have hnodup : ((ChainCacheIndex.evictionCandidates s.index chain).map
      ChainRecord.chainId).Nodup := by
    unfold ChainCacheIndex.evictionCandidates
    refine ((List.perm_insertionSort _ _).map _).nodup_iff.mpr ?_
    exact (List.filter_sublist.map _).nodup hrows.owned.chainIds_nodup
  refine ⟨hselected.sublist.nodup hnodup, fun victim hvictim => ?_⟩
  obtain ⟨record, hrecord, rfl⟩ := List.mem_map.mp (hselected.subset hvictim)
  obtain ⟨hvalue, hidle, -⟩ := ChainCacheIndex.mem_evictionCandidates.mp hrecord
  obtain ⟨c, hc⟩ := Dict.mem_values.mp hvalue
  exact ⟨record, hrows.owned.filed c record hc ▸ hc, hidle⟩

/-- A plan for a new chain finds or frees a row beyond those already promised. -/
theorem planOf_rows {cfg : ChainConfig} {s : ChainRuntime C D} {free : Nat}
    {has : SeqId → Bool} {chain : C} {seq : SeqId} {tokenCount generationTokens : Int}
    {needs : ChainCacheIndex.ChainRequirements} {plan : ChainAdmissionPlan C}
    (hrows : Rows [] free has s) (hle : rowless has s.index.records ≤ free)
    (hcover : AdmissionCovered s)
    (hneeds : admissionRequirements cfg s chain tokenCount generationTokens = .ok needs)
    (hplan : ChainCacheIndex.PlanOf s.index chain seq needs plan)
    (hcreated : plan.status = .created) :
    rowless has s.index.records + 1 ≤ free + plan.victimChainIds.length := by
  have hhas : chainHasResidency s.layers = has := funext (chainHasResidency_eq hrows.agree)
  have hfree : freeResidentRows s.layers = free := freeResidentRows_eq hrows.agree
  rcases hcover with hreserved | hspare
  · have hvictims : max 0 needs.rowDeficit ≤ (plan.victimChainIds.length : Int) := by
      have := ChainCacheIndex.rows_le_length_selectVictims
        (ChainCacheIndex.evictionCandidates s.index chain) (max 0 needs.rowDeficit)
        (needs.requiredSlotsByLayer.map (max 0)) ?_ (by rw [hplan.victims])
      · rwa [hplan.victims] at this
      · intro victim hvictim
        obtain ⟨hvalue, hidle, -⟩ := ChainCacheIndex.mem_evictionCandidates.mp hvictim
        obtain ⟨c, hc⟩ := Dict.mem_values.mp hvalue
        exact le_of_eq (hrows.idle c victim hc hidle).2
    obtain ⟨out, hout, hdeficit⟩ := admissionRequirements_rowDeficit hneeds
    have houtstanding := rowless_le_outstanding hreserved hout
    have hnew : s.index.records.get? chain = none := by
      have hstatus := hplan.status
      rw [hcreated] at hstatus
      cases hstatus with
      | created new => exact new
    rw [hnew, hfree] at hdeficit
    have hcount : rowless has s.index.records = s.index.records.values.countP fun record =>
        record.state = .active ∧ chainHasResidency s.layers record.seqId = false := by
      rw [hhas]
      rfl
    simp only [Option.isNone_none, if_true] at hdeficit
    rw [← hcount] at houtstanding
    simp only at houtstanding
    omega
  · rw [rowlessChains, hhas, hfree] at hspare
    omega

/-! ## Admitting a request -/

/-- A chain and a sequence id that can be planned for. -/
structure Plannable (chain : C) (seq : SeqId) (s : ChainRuntime C D) : Prop where
  hold : RowsHold s
  created : s.index.records.get? chain = none → seq < s.nextSeqId ∧
    s.index.seqIdToChainId.get? seq = none ∧ AdmissionCovered s

theorem Plannable.sameLedger {chain : C} {seq : SeqId} {s : ChainRuntime C D}
    (h : Plannable chain seq s) {index : ChainCacheIndex C D}
    (hsame : ChainCacheIndex.SameLedger s.index index) :
    Plannable chain seq { s with index := index } where
  hold := h.hold.sameLedger hsame
  created := by
    unfold AdmissionCovered rowlessChains
    rw [hsame.records, hsame.owners]
    exact h.created

/-- A request continues a chain of the index, or names none: an unknown chain raises. -/
inductive Continues (s : ChainRuntime C D) : Option C → Option (ChainRecord C D) → Prop where
  | new : Continues s none none
  | existing (chain : C) (record : ChainRecord C D)
      (found : s.index.records.get? chain = some record) :
      Continues s (some chain) (some record)

theorem existingChain_spec (s : ChainRuntime C D) (chainId : Option C) :
    Spec (· = s) (existingChain chainId) (fun existing t => t = s ∧ Continues s chainId existing)
      fun _ t => t = s := by
  cases chainId with
  | none => exact Spec.pure fun t ht => ⟨ht, .new⟩
  | some chain =>
    refine Spec.bind (onIndex_lookup_spec s chain) fun record => Spec.pure fun t ht => ?_
    exact ⟨ht.1, .existing chain record ht.2⟩

omit [LinearOrder C] in
/-- Drawing a sequence id moves the counter only. -/
theorem newSeqId_spec (s : ChainRuntime C D) {E : ChainError C → ChainRuntime C D → Prop} :
    Spec (· = s) newSeqId
      (fun fresh t => t = { s with nextSeqId := s.nextSeqId + 1 } ∧ fresh = s.nextSeqId) E := by
  rintro t rfl
  exact ⟨rfl, rfl⟩

theorem RowsHold.newSeqId {s : ChainRuntime C D} (h : RowsHold s) :
    RowsHold { s with nextSeqId := s.nextSeqId + 1 } := by
  obtain ⟨free, has, hrows, hle⟩ := h
  have howned : WellOwned s.index (s.nextSeqId + 1) :=
    ⟨hrows.owned.filed, hrows.owned.owner,
      fun q c hq => Nat.lt_succ_of_lt (hrows.owned.fresh q c hq)⟩
  exact ⟨free, has, { hrows with owned := howned }, hle⟩

/-- The sequence id of a request can be planned for: its chain's own, or one never used. -/
theorem Continues.plannable {s : ChainRuntime C D} {chainId : Option C}
    {existing : Option (ChainRecord C D)} (h : Continues s chainId existing) (hs : RowsHold s)
    (hcover : chainId = none → AdmissionCovered s) (newChain : C) :
    Plannable (chainId.getD newChain) ((existing.map ChainRecord.seqId).getD s.nextSeqId)
      { s with nextSeqId := s.nextSeqId + 1 } := by
  refine ⟨hs.newSeqId, fun hnone => ?_⟩
  cases h with
  | new =>
    refine ⟨Nat.lt_succ_self _, ?_, hcover rfl⟩
    obtain ⟨free, has, hrows, -⟩ := hs
    cases howner : s.index.seqIdToChainId.get? s.nextSeqId with
    | none => exact howner
    | some chain => exact absurd (hrows.owned.fresh _ chain howner) (lt_irrefl _)
  | existing chain record found =>
    have hnone' : s.index.records.get? chain = none := hnone
    rw [found] at hnone'
    cases hnone'

variable [DecidableEq D]

theorem coordinatorPlan_spec (cfg : ChainConfig) (hash : TokenHash D) (fingerprint : D)
    (s : ChainRuntime C D) (chain : C) (seq : SeqId) (input : ChainCacheIndex.ChainInput D)
    (generationTokens : Int) :
    Spec (· = s) (coordinatorPlan cfg hash fingerprint chain seq input generationTokens)
      (fun plan t => t = s ∧ ∃ needs,
        admissionRequirements cfg s chain input.tokenCount generationTokens = .ok needs ∧
        ChainCacheIndex.PlanOf s.index chain seq needs plan)
      fun _ t => ∃ index, t = { s with index := index } ∧
        ChainCacheIndex.SameLedger s.index index := by
  refine Spec.get_bind fun t ht => ?_
  subst ht
  split
  · exact Spec.throw fun u hu => ⟨t.index, hu, ChainCacheIndex.SameLedger.refl _⟩
  · rename_i needs hneeds
    refine (onIndex_spec (ChainCacheIndex.planAdmission_spec t.index hash chain seq input
      fingerprint needs)).conseq (fun _ h => h) ?_ fun _ _ h => h
    rintro plan u ⟨index, rfl, rfl, hplan⟩
    exact ⟨rfl, needs, hneeds, hplan⟩

theorem coordinatorPlan_applicable (cfg : ChainConfig) (hash : TokenHash D) (fingerprint : D)
    (s : ChainRuntime C D) (chain : C) (seq : SeqId) (hs : Plannable chain seq s)
    (input : ChainCacheIndex.ChainInput D) (generationTokens : Int) :
    Spec (· = s) (coordinatorPlan cfg hash fingerprint chain seq input generationTokens)
      (fun plan t => ∃ free has, Applicable plan free has t)
      fun _ t => ∃ index, t = { s with index := index } ∧
        ChainCacheIndex.SameLedger s.index index := by
  refine (coordinatorPlan_spec cfg hash fingerprint s chain seq input generationTokens).post ?_
  rintro plan t ⟨rfl, needs, hneeds, hplan⟩
  obtain ⟨free, has, hrows, hle⟩ := hs.hold
  refine ⟨free, has, hrows, hle, planOf_evictable hrows hplan, fun hcreated => ?_⟩
  have hnew : t.index.records.get? chain = none := by
    have hstatus := hplan.status
    rw [hcreated] at hstatus
    cases hstatus with
    | created new => exact new
  obtain ⟨hnext, howner, hcover⟩ := hs.created hnew
  rw [hplan.forSeq]
  exact ⟨hnext, howner, planOf_rows hrows hle hcover hneeds hplan hcreated⟩

/-- A plan, or a new plan after a mismatched chain is dropped: dropping it leaves a spare row. -/
theorem planOrRecreate_applicable (cfg : ChainConfig) (hash : TokenHash D) (fingerprint : D)
    (s : ChainRuntime C D) (chain newChain : C) (seq : SeqId) (prompt : List Int)
    (existing : Option (ChainRecord C D)) (appendOnly : Bool) (maxTokens : Int)
    (hs : Plannable chain seq s)
    (hexisting : ∀ record, existing = some record →
      s.index.records.get? chain = some record ∧ record.seqId = seq) :
    Spec (· = s)
      (planOrRecreate cfg hash fingerprint chain newChain seq prompt existing appendOnly maxTokens)
      (fun plan t => ∃ free has, Applicable plan free has t) fun _ => RowsHold := by
  refine Spec.catchIf (coordinatorPlan_applicable cfg hash fingerprint s chain seq hs _ _)
    (fun e => Spec.intro fun t ht => ?_) ?_
  · obtain ⟨index, rfl, hsame⟩ := ht
    have hplannable := hs.sameLedger hsame
    refine Spec.raiseIf_bind (fun _ t ht => ht ▸ hplannable.hold) fun hagain => ?_
    refine Spec.bind (chainInvalidate_spec _ hplannable.hold chain _) fun _ =>
      Spec.intro fun t ht => ?_
    obtain ⟨record, hrec⟩ : ∃ record, existing = some record := by
      cases existing with
      | none => exact absurd (Or.inl rfl) hagain
      | some record => exact ⟨record, rfl⟩
    obtain ⟨hfound, hseq⟩ := hexisting record hrec
    have hfound' : index.records.get? chain = some record := by rw [hsame.records]; exact hfound
    have hnext : seq < t.nextSeqId := by
      obtain ⟨free, has, hrows, -⟩ := hs.hold
      rw [ht.next]
      exact hrows.owned.fresh seq chain (hseq ▸ hrows.owned.owner chain record hfound)
    have hcover : AdmissionCovered t := by
      obtain ⟨free, has, hrows, hlt⟩ := ht.spare
      refine Or.inr ?_
      rw [rowlessChains, show chainHasResidency t.layers = has from
        funext (chainHasResidency_eq hrows.agree), freeResidentRows_eq hrows.agree]
      exact hlt
    refine (coordinatorPlan_applicable cfg hash fingerprint t newChain seq ⟨ht.spare.hold,
      fun _ => ⟨hnext, hseq ▸ ht.unowned record hfound', hcover⟩⟩ _ _).conseq (fun _ h => h)
      (fun _ _ h => h) ?_
    rintro _ u ⟨index', rfl, hsame'⟩
    exact ht.spare.hold.sameLedger hsame'
  · rintro e t ⟨index, rfl, hsame⟩
    exact hs.hold.sameLedger hsame

/-- Validating a plan leaves the ledger as it is. -/
theorem validateAdmissionPlan_spec (cfg : ChainConfig) (hash : TokenHash D) (fingerprint : D)
    (s : ChainRuntime C D) (hs : RowsHold s) (plan : ChainAdmissionPlan C) (tokenCount : Int)
    (digest : D) (generationTokens : Int) :
    Spec (· = s)
      (validateAdmissionPlan cfg hash fingerprint plan tokenCount digest generationTokens)
      (fun _ t => t = s) fun _ => RowsHold := by
  refine Spec.bind ((coordinatorPlan_spec cfg hash fingerprint s plan.chainId plan.seqId _
    generationTokens).conseq (fun _ h => h) (fun _ _ h => h) ?_) fun planned => ?_
  · rintro _ t ⟨index, rfl, hsame⟩
    exact hs.sameLedger hsame
  · refine Spec.post (Spec.raiseIf fun t ht _ => ht.1 ▸ hs) fun _ t ht => ht.1.1

/-- **Admitting a request keeps the promise**, if the admission of a new chain is covered. -/
theorem admitRequest_keeps (cfg : ChainConfig) (hash : TokenHash D) (fingerprint : D)
    (request : ChainRequest C) (newChain : C) (rejected : Bool) (s : ChainRuntime C D)
    (hs : RowsHold s) (hcover : request.chainId = none → AdmissionCovered s) :
    Spec (· = s) (admitRequest cfg hash fingerprint request newChain rejected)
      (fun _ => RowsHold) fun _ => RowsHold := by
  refine Spec.bind ((existingChain_spec s request.chainId).conseq (fun _ h => h) (fun _ _ h => h)
    fun _ t ht => ht ▸ hs) fun existing => Spec.intro fun t ht => ?_
  obtain ⟨rfl, hcontinues⟩ := ht
  split
  · exact Spec.throw fun u hu => hu ▸ hs
  rename_i prompt _
  refine Spec.raiseIf_bind (fun _ u hu => hu ▸ hs) fun _ => ?_
  refine Spec.bind (newSeqId_spec t) fun fresh => Spec.intro fun u hu => ?_
  obtain ⟨rfl, rfl⟩ := hu
  have hplannable := hcontinues.plannable hs hcover newChain
  have hexisting : ∀ record, existing = some record →
      t.index.records.get? (request.chainId.getD newChain) = some record ∧
        record.seqId = (existing.map ChainRecord.seqId).getD t.nextSeqId := by
    rintro record rfl
    cases hchain : request.chainId with
    | none => rw [hchain] at hcontinues; cases hcontinues
    | some chain =>
      rw [hchain] at hcontinues
      cases hcontinues with
      | existing _ _ found => exact ⟨found, rfl⟩
  refine Spec.bind (planOrRecreate_applicable cfg hash fingerprint _ _ newChain _ prompt existing
    request.appendOnly request.maxTokens hplannable hexisting) fun plan => Spec.intro fun v hv => ?_
  have hv' : RowsHold v := by
    obtain ⟨free, has, happlicable⟩ := hv
    exact ⟨free, has, happlicable.rows, happlicable.promise⟩
  refine Spec.raiseIf_bind (fun _ w hw => hw ▸ hv') fun _ => ?_
  split
  · exact Spec.throw fun w hw => hw ▸ hv'
  refine Spec.bind (validateAdmissionPlan_spec cfg hash fingerprint v hv' plan _ _ _) fun _ => ?_
  refine Spec.bind (Spec.pre (chainApplyAdmission_keeps hash fingerprint plan)
    fun w (hw : w = v) => hw ▸ hv) fun _ => ?_
  refine Spec.ite (fun _ => ?_) fun _ => Spec.pure fun w hw => hw
  exact Spec.bind (chainInvalidate_keeps plan.chainId _) fun _ => Spec.throw fun w hw => hw

/-! ## Runs -/

/-- What a run asks of an event: the admission of a new chain is covered. -/
def EventCovered (s : ChainRuntime C D) : ChainEvent C D → Prop
  | .admission request _ _ => request.chainId = none → AdmissionCovered s
  | _ => True

instance (s : ChainRuntime C D) (event : ChainEvent C D) : Decidable (EventCovered s event) := by
  unfold EventCovered
  split <;> infer_instance

/-- The chain runtime at start-up: `numLayers` KV layers with `rows` rows each. -/
def ChainRuntime.start (maxTombstones : Nat) (maxTokenHistoryTokens : Option Int)
    (numFreeSlots : List Int) (rows : Nat) : ChainRuntime C D where
  index := { maxTombstones := maxTombstones, maxTokenHistoryTokens := maxTokenHistoryTokens }
  layers := numFreeSlots.map fun free => { numFreeSlots := free, freeRows := List.range rows }

omit [DecidableEq D] in
theorem ChainRuntime.start_hold (maxTombstones : Nat) (maxTokenHistoryTokens : Option Int)
    (numFreeSlots : List Int) (rows : Nat) :
    RowsHold (ChainRuntime.start maxTombstones maxTokenHistoryTokens numFreeSlots rows :
      ChainRuntime C D) := by
  refine ⟨if numFreeSlots = [] then 0 else rows, fun _ => false, ⟨⟨fun layer hlayer => ?_,
    fun hnil => ?_⟩, ⟨?_, ?_, ?_⟩, ?_, List.nodup_nil, fun q hq => absurd hq List.not_mem_nil,
    fun q hq => absurd hq List.not_mem_nil⟩, Nat.zero_le _⟩
  · obtain ⟨slots, hslots, rfl⟩ := List.mem_map.mp hlayer
    refine ⟨?_, fun _ => rfl⟩
    rw [if_neg (List.ne_nil_of_mem hslots)]
    exact List.length_range
  · exact ⟨if_pos (List.map_eq_nil_iff.mp hnil), fun _ => rfl⟩
  all_goals
    intro a b hab
    cases hab

/-- One event, returning or raising. -/
def chainExec (cfg : ChainConfig) (hash : TokenHash D) (fingerprint : D) (event : ChainEvent C D)
    (s : ChainRuntime C D) : ChainRuntime C D :=
  stateAfter (event.run cfg hash fingerprint) s

theorem chainExec_keeps (cfg : ChainConfig) (hash : TokenHash D) (fingerprint : D)
    (s : ChainRuntime C D) (event : ChainEvent C D) (hs : RowsHold s)
    (hcovered : EventCovered s event) : RowsHold (chainExec cfg hash fingerprint event s) := by
  have hspec : Spec (· = s) (event.run cfg hash fingerprint) (fun _ => RowsHold)
      fun _ => RowsHold := by
    cases event with
    | admission request newChain rejected =>
      exact admitRequest_keeps cfg hash fingerprint request newChain rejected s hs hcovered
    | step chain counters => exact Spec.pre (runStep_keeps chain counters) fun t ht => ht ▸ hs
    | preempt chain => exact Spec.pre (releasePreempted_keeps chain) fun t ht => ht ▸ hs
    | finish chain seq tokens =>
      exact Spec.pre (finishRequest_keeps hash chain seq tokens) fun t ht => ht ▸ hs
    | invalidate chain expectedSeq =>
      exact Spec.pre (chainInvalidate_keeps chain expectedSeq) fun t ht => ht ▸ hs
  have := hspec s rfl
  unfold chainExec stateAfter
  cases hrun : event.run cfg hash fingerprint s with
  | ok a t => rw [hrun] at this; exact this
  | error e t => rw [hrun] at this; exact this

/-- **The row promise along a run**: it holds in every state of a run whose admissions of new
chains are covered, for created and resumed chains alike. -/
theorem rowPromise_of_covered (cfg : ChainConfig) (hash : TokenHash D) (fingerprint : D)
    (maxTombstones : Nat) (maxTokenHistoryTokens : Option Int) (numFreeSlots : List Int)
    (rows : Nat) {s : ChainRuntime C D}
    (run : Reachable (chainExec cfg hash fingerprint) EventCovered
      (ChainRuntime.start maxTombstones maxTokenHistoryTokens numFreeSlots rows) s) :
    RowPromise s :=
  (run.invariant (ChainRuntime.start_hold maxTombstones maxTokenHistoryTokens numFreeSlots rows)
    fun t event ht hcovered =>
      chainExec_keeps cfg hash fingerprint t event ht hcovered).promise

/-! ## A run that breaks the promise -/

instance (s : ChainRuntime C D) : Decidable (RowPromise s) :=
  inferInstanceAs (Decidable (_ ≤ _))

/-- StreamingLLM with room for 16 tokens. -/
def smallChainConfig : ChainConfig where
  sparseMethod := .streamingllm
  sinkKeepTokens := 1
  decodeKeepTokens := 0
  recentKeepTokens := 2
  snapkvNumFullLayers := 0
  rkvCompressionInterval := 0
  skipkvCompressionInterval := 0
  h2oPrefillBudget := 0
  h2oDecodeBudget := 0
  enginePrefillChunkSize := 4
  pyramidkvLayerBudget := fun _ => 0
  pyramidkvFullPrefillStaging := false
  maxModelLen := 16

/-- Chain 0 runs a turn, is resumed and preempted; then chain 1 is admitted. -/
def preemptedResume : List (ChainEvent Nat (List Int)) :=
  [.admission { chainId := none, tokens := [7, 8], maxTokens := 1 } 0 false,
   .step 0 ⟨fun _ => 14, fun _ _ => 2⟩,
   .finish 0 0 [7, 8, 9],
   .admission { chainId := some 0, tokens := [9], appendOnly := true, maxTokens := 1 } 5 false,
   .preempt 0,
   .admission { chainId := none, tokens := [7], maxTokens := 1 } 1 false]

/-- With one resident row, both chains are ACTIVE without a row and one row is free. -/
theorem rowPromise_fails :
    ∃ s : ChainRuntime Nat (List Int),
      Reachable (chainExec smallChainConfig plainHash []) (fun _ _ => True)
        (ChainRuntime.start 4 none [16] 1) s ∧
      rowlessChains s = 2 ∧ freeResidentRows s.layers = 1 ∧ ¬ RowPromise s := by
  refine ⟨runAll (chainExec smallChainConfig plainHash []) (ChainRuntime.start 4 none [16] 1)
    preemptedResume, Reachable.init.runAll ?_, ?_, ?_, ?_⟩
  all_goals decide +kernel

/-- With two rows the same run is covered, and keeps the promise. -/
theorem rowPromise_of_covered_twoRows :
    RowPromise (runAll (chainExec smallChainConfig plainHash []) (ChainRuntime.start 4 none [16] 2)
      preemptedResume) :=
  rowPromise_of_covered smallChainConfig plainHash [] 4 none [16] 2
    (Reachable.init.runAll (by decide +kernel))

end SparseVllm
