import SparseVllm.Chain.Index

/-!
# What the operations of the chain index do to its records

`SameLedger` relates two states with the same records and owners; clocks, tombstones and statistics
may differ. Each operation has one specification: what it does to the records and owners when it
returns, and that it leaves them alone when it raises. Callers use these and never unfold an
operation.
-/

namespace SparseVllm

open SparseVllm.Lib

namespace ChainCacheIndex

variable {C D : Type}

/-- The same records under the same owners. -/
structure SameLedger (a b : ChainCacheIndex C D) : Prop where
  records : b.records = a.records
  owners : b.seqIdToChainId = a.seqIdToChainId

theorem SameLedger.refl (a : ChainCacheIndex C D) : SameLedger a a := ⟨rfl, rfl⟩

theorem state_idle_of_not_active {record : ChainRecord C D} (h : ¬ record.state = .active) :
    record.state = .idle := by
  cases hstate : record.state with
  | active => exact absurd hstate h
  | idle => rfl

/-- What `checkResume` has checked when it returns. -/
theorem checkResume_spec [DecidableEq D] (a : ChainCacheIndex C D) (hash : TokenHash D)
    (record : ChainRecord C D) (chain : C) (seq : SeqId) (input : ChainInput D) (fingerprint : D) :
    Spec (· = a) (checkResume hash record chain seq input fingerprint)
      (fun _ s => s = a ∧ record.state = .idle ∧ record.seqId = seq)
      fun _ s => SameLedger a s := by
  have hsame : ∀ s, s = a → SameLedger a s := fun s hs => hs ▸ SameLedger.refl s
  refine Spec.ite (fun _ => ?_) fun hactive => ?_
  · rintro s rfl
    exact ⟨rfl, rfl⟩
  refine Spec.raiseIf_bind (fun _ => hsame) fun _ => ?_
  refine Spec.raiseIf_bind (fun _ => hsame) fun hseq => ?_
  split
  · refine Spec.ite (fun _ => ?_) fun _ => Spec.throw hsame
    rintro s rfl
    exact ⟨rfl, rfl⟩
  · refine Spec.ite (fun _ => ?_) fun _ => Spec.pure fun s hs => ?_
    · rintro s rfl
      exact ⟨rfl, rfl⟩
    · exact ⟨hs, state_idle_of_not_active hactive, not_not.mp hseq⟩

variable [LinearOrder C]

/-- `lookup` returns the record of the chain and changes nothing. -/
theorem lookup_spec (a : ChainCacheIndex C D) (chain : C) :
    Spec (· = a) (lookup chain) (fun record s => s = a ∧ a.records.get? chain = some record)
      fun _ s => s = a ∧ a.records.get? chain = none := by
  refine Spec.get_bind fun s hs => ?_
  subst hs
  split
  · exact Spec.pure fun t ht => ⟨ht, ‹_›⟩
  · refine Spec.raiseIf_bind (fun _ t ht => ⟨ht, ‹_›⟩) fun _ => ?_
    exact Spec.throw fun t ht => ⟨ht, ‹_›⟩

/-- The ledger after the record of `chain` is dropped. -/
structure Dropped (a : ChainCacheIndex C D) (chain : C) (record : ChainRecord C D)
    (s : ChainCacheIndex C D) : Prop where
  found : a.records.get? chain = some record
  records : s.records = a.records.pop chain
  owners : s.seqIdToChainId = a.seqIdToChainId.pop record.seqId

/-- `evict` drops an IDLE chain; it raises only where there is none. -/
theorem evict_spec (a : ChainCacheIndex C D) (chain : C) :
    Spec (· = a) (evict chain) (fun record s => record.state = .idle ∧ Dropped a chain record s)
      fun _ s => s = a ∧ ∀ record, a.records.get? chain = some record → record.state = .active := by
  refine Spec.bind ((lookup_spec a chain).conseq (fun _ h => h) (fun _ _ h => h) ?_)
    fun record => Spec.raiseIf_bind ?_ fun hactive => ?_
  · rintro _ s ⟨rfl, hnone⟩
    exact ⟨rfl, fun record hrec => by rw [hnone] at hrec; cases hrec⟩
  · rintro hactive s ⟨rfl, hrec⟩
    exact ⟨rfl, fun record' hrec' => Option.some.inj (hrec.symm.trans hrec') ▸ hactive⟩
  · rintro s ⟨rfl, hrec⟩
    exact ⟨state_idle_of_not_active hactive, hrec, rfl, rfl⟩

theorem invalidate_spec (a : ChainCacheIndex C D) (chain : C) :
    Spec (· = a) (invalidate chain) (fun record s => Dropped a chain record s)
      fun _ s => s = a := by
  refine Spec.bind ((lookup_spec a chain).conseq (fun _ h => h) (fun _ _ h => h) fun _ _ h => h.1)
    fun record => ?_
  rintro s ⟨rfl, hrec⟩
  exact ⟨hrec, rfl, rfl⟩

/-- A `created` plan adds one ACTIVE record, or raises because the chain or the owner exists. -/
theorem createRecord_spec (a : ChainCacheIndex C D) (hash : TokenHash D)
    (plan : ChainAdmissionPlan C) (fingerprint : D) :
    Spec (· = a) (createRecord hash plan fingerprint)
      (fun _ s => a.records.get? plan.chainId = none ∧ a.seqIdToChainId.get? plan.seqId = none ∧
        (∃ now, s.records = a.records.set plan.chainId (plan.newRecord hash fingerprint now)) ∧
        s.seqIdToChainId = a.seqIdToChainId.set plan.seqId plan.chainId)
      fun _ s => s = a := by
  refine Spec.get_bind fun s hs => ?_
  subst hs
  refine Spec.raiseIf_bind (fun _ t ht => ht) fun hnew => ?_
  split
  · exact Spec.throw fun t ht => ht
  · rename_i howner
    rintro t rfl
    exact ⟨Option.not_isSome_iff_eq_none.mp hnew, howner, ⟨_, rfl⟩, rfl⟩

/-- A `resumed` plan activates the record of its chain. -/
theorem resumeRecord_spec (a : ChainCacheIndex C D) (plan : ChainAdmissionPlan C) :
    Spec (· = a) (resumeRecord plan)
      (fun _ s => (∃ record now, a.records.get? plan.chainId = some record ∧ record.state = .idle ∧
        s.records = a.records.set plan.chainId (plan.resumedRecord record now)) ∧
        s.seqIdToChainId = a.seqIdToChainId)
      fun _ s => s = a := by
  refine Spec.bind ((lookup_spec a plan.chainId).conseq (fun _ h => h) (fun _ _ h => h)
    fun _ _ h => h.1) fun record => Spec.raiseIf_bind (fun _ s hs => hs.1) fun hidle => ?_
  rintro s ⟨rfl, hrec⟩
  exact ⟨⟨record, _, hrec, not_not.mp hidle, Dict.modify_of_get? hrec _⟩, rfl⟩

/-- `finish_digest` makes an ACTIVE chain IDLE. -/
theorem finishDigest_spec (a : ChainCacheIndex C D) (hash : TokenHash D) (chain : C) (digest : D)
    (processed : Int) (slots : List Int) (rows : Int) :
    Spec (· = a) (finishDigest hash chain digest processed slots rows)
      (fun _ s => (∃ record now, a.records.get? chain = some record ∧ record.state = .active ∧
        s.records = a.records.set chain (record.finished digest processed slots rows now)) ∧
        s.seqIdToChainId = a.seqIdToChainId)
      fun _ s => s = a := by
  refine Spec.bind ((lookup_spec a chain).conseq (fun _ h => h) (fun _ _ h => h)
    fun _ _ h => h.1) fun record => Spec.raiseIf_bind (fun _ s hs => hs.1) fun hactive => ?_
  refine Spec.raiseIf_bind (fun _ s hs => hs.1) fun _ => ?_
  refine Spec.raiseIf_bind (fun _ s hs => hs.1) fun _ => ?_
  rintro s ⟨rfl, hrec⟩
  exact ⟨⟨record, _, hrec, not_not.mp hactive, Dict.modify_of_get? hrec _⟩, rfl⟩

/-! ## Planning -/

variable [DecidableEq D]

/-- The chain a plan is for, as the index has it when the plan is made. -/
inductive PlannedFor (a : ChainCacheIndex C D) (chain : C) (seq : SeqId) :
    ChainAdmissionStatus → Prop where
  | created (new : a.records.get? chain = none) : PlannedFor a chain seq .created
  | resumed (record : ChainRecord C D) (found : a.records.get? chain = some record)
      (idle : record.state = .idle) (owner : record.seqId = seq) : PlannedFor a chain seq .resumed

theorem planStatus_spec (a : ChainCacheIndex C D) (hash : TokenHash D) (chain : C) (seq : SeqId)
    (input : ChainInput D) (fingerprint : D) :
    Spec (· = a) (planStatus hash chain seq input fingerprint)
      (fun out s => s = a ∧ PlannedFor a chain seq out.1) fun _ s => SameLedger a s := by
  refine Spec.get_bind fun s hs => ?_
  subst hs
  split
  · rename_i hnew
    refine Spec.raiseIf_bind (fun _ s hs => hs ▸ SameLedger.refl s) fun _ => ?_
    exact Spec.pure fun t ht => ⟨ht, .created hnew⟩
  · rename_i record hrec
    refine Spec.bind (checkResume_spec s hash record chain seq input fingerprint) fun reused => ?_
    exact Spec.pure fun t ht => ⟨ht.1, .resumed record hrec ht.2.1 ht.2.2⟩

/-- What a returned plan says. -/
structure PlanOf (a : ChainCacheIndex C D) (chain : C) (seq : SeqId) (needs : ChainRequirements)
    (plan : ChainAdmissionPlan C) : Prop where
  forChain : plan.chainId = chain
  forSeq : plan.seqId = seq
  status : PlannedFor a chain seq plan.status
  reserved : plan.reservedRows = max 0 needs.reservedRows
  victims : selectVictims (evictionCandidates a chain) (max 0 needs.rowDeficit)
    (needs.requiredSlotsByLayer.map (max 0)) = (plan.victimChainIds, false)

theorem planAdmission_spec (a : ChainCacheIndex C D) (hash : TokenHash D) (chain : C)
    (seq : SeqId) (input : ChainInput D) (fingerprint : D) (needs : ChainRequirements) :
    Spec (· = a) (planAdmission hash chain seq input fingerprint needs)
      (fun plan s => s = a ∧ PlanOf a chain seq needs plan) fun _ s => SameLedger a s := by
  refine Spec.bind (planStatus_spec a hash chain seq input fingerprint) fun out => ?_
  obtain ⟨status, reused⟩ := out
  refine Spec.get_bind fun s hs => ?_
  obtain ⟨rfl, hstatus⟩ := hs
  split
  rename_i victims short hvictims
  refine Spec.raiseIf_bind (fun _ t ht => ht ▸ SameLedger.refl t) fun hshort => ?_
  obtain rfl : short = false := Bool.not_eq_true _ ▸ hshort
  exact Spec.pure fun t ht => ⟨ht, rfl, rfl, hstatus, rfl, hvictims⟩

/-! ## Victims -/

omit [LinearOrder C] [DecidableEq D] in
/-- The victims are taken from the front of the candidates. -/
theorem selectVictims_prefix :
    ∀ (candidates : List (ChainRecord C D)) (rows : Int) (slots : List Int),
      (selectVictims candidates rows slots).1 <+: candidates.map ChainRecord.chainId
  | [], _, _ => List.nil_prefix
  | victim :: rest, rows, slots => by
    unfold selectVictims
    split
    · exact List.nil_prefix
    · exact (List.cons_prefix_cons).mpr ⟨rfl, selectVictims_prefix rest _ _⟩

omit [LinearOrder C] [DecidableEq D] in
/-- When no deficit remains, one-row victims are at least as many as the missing rows. -/
theorem rows_le_length_selectVictims :
    ∀ (candidates : List (ChainRecord C D)) (rows : Int) (slots : List Int),
      (∀ victim ∈ candidates, victim.residentRows ≤ 1) →
      (selectVictims candidates rows slots).2 = false →
      rows ≤ (selectVictims candidates rows slots).1.length
  | [], rows, slots, _, hshort => by
    have hrows : ¬ 0 < rows := by
      simp only [selectVictims, Bool.or_eq_false_iff, decide_eq_false_iff_not] at hshort
      exact hshort.1
    show rows ≤ ((0 : Nat) : Int)
    omega
  | victim :: rest, rows, slots, hone, hshort => by
    unfold selectVictims at hshort ⊢
    split
    · rename_i hcovered
      show rows ≤ ((0 : Nat) : Int)
      omega
    · rename_i hmissing
      rw [if_neg hmissing] at hshort
      have hrest := rows_le_length_selectVictims rest (max 0 (rows - victim.residentRows))
        (coverSlots slots victim.physicalSlotsByLayer)
        (fun v hv => hone v (List.mem_cons_of_mem _ hv)) hshort
      have hvictim := hone victim List.mem_cons_self
      rw [List.length_cons]
      omega

omit [DecidableEq D] in
theorem mem_evictionCandidates {a : ChainCacheIndex C D} {chain : C} {record : ChainRecord C D} :
    record ∈ evictionCandidates a chain ↔
      record ∈ a.records.values ∧ record.state = .idle ∧ record.chainId ≠ chain := by
  unfold evictionCandidates
  rw [(List.perm_insertionSort _ _).mem_iff, List.mem_filter, decide_eq_true_iff]

end ChainCacheIndex

end SparseVllm
