import SparseVllm.Chain.Index

/-!
# Rank-0 planning and worker validation

Rank 0 plans an admission with the tokens in hand; every worker repeats the plan from the token
count and one digest. Both run `planAdmission`, which reads its input in two places: the prefix
check of a resident chain (`inputDigest`) and `input_token_count`. The two agree at every state, so
a plan never diverges between equal indexes; a refused plan is refused by the workers with an error
of the same class, and with the same statistics.

Results: `planAdmission_agrees`.
-/

namespace SparseVllm

open SparseVllm.Lib

/-- The subclasses of `ChainCacheError` an index raises. -/
inductive ChainErrorClass where
  | notFound
  | busy
  | prefixMismatch
  | fingerprintMismatch
  | gone
  | capacity
  | ownerMismatch
  deriving DecidableEq, Repr

/-- The class of an error, `none` for an error outside `ChainCacheError`. -/
def ChainError.errorClass {C : Type} : ChainError C → Option ChainErrorClass
  | .notFound _ | .appendWithoutChain => some .notFound
  | .gone _ => some .gone
  | .activeWriter _ | .notIdleAtAdmission _ | .evictActive _ => some .busy
  | .fingerprintMismatch _ => some .fingerprintMismatch
  | .inputTooShort .. | .prefixMismatch .. | .emptyAppend _ | .noSuffix _ => some .prefixMismatch
  | .noCapacity _ | .historyCapacity .. => some .capacity
  | .ownerMismatch .. | .appeared _ | .seqAlreadyOwned .. | .finishInactive _ => some .ownerMismatch
  | .boundaryMovedBack .. | .tokenOutOfRange .. | .finishedTooShort .. => some .ownerMismatch
  | .rememberActive _ | .rememberMismatch _ => some .ownerMismatch
  | .negativeProcessed _ | .digestSize | .tokenNotPackable => none
  | .planDiverged _ | .exceedsModelLen .. | .schedulerRejected _ => none
  | .noFreeRow | .missingRow _ | .notResident _ => none

theorem ChainError.isPrefixMismatch_iff {C : Type} (e : ChainError C) :
    e.isPrefixMismatch = true ↔ e.errorClass = some .prefixMismatch := by
  cases e <;> simp [isPrefixMismatch, errorClass]

namespace ChainCacheIndex

variable {C D : Type}

/-- The digest of the first `n` tokens exists when there are that many and they all pack. -/
theorem stableTokenDigest_ok {hash : TokenHash D} {tokens : List Int} {n : Int} {digest : D} :
    stableTokenDigest (C := C) hash tokens (some n) = .ok digest ↔
      (tokens.take n.toNat).all packable = true ∧ 0 ≤ n ∧ n ≤ tokens.length ∧
        hash.digest (tokens.take n.toNat) = digest := by
  have hlen := List.length_take (i := n.toNat) (l := tokens)
  simp only [stableTokenDigest]
  split
  · rename_i hpack
    refine iff_of_false nofun fun h => ?_
    rw [h.1] at hpack
    cases hpack
  · rename_i hpack
    have hpack : (tokens.take n.toNat).all packable = true := Bool.eq_true_of_not_eq_false hpack
    split
    · refine iff_of_false nofun fun h => ?_
      omega
    · simp only [Except.ok.injEq]
      refine ⟨fun h => ⟨hpack, ?_, ?_, h⟩, fun h => h.2.2.2⟩
      · omega
      · omega

/-- The tokens a resident chain has processed, 0 for a new chain. -/
def boundary [DecidableEq C] (a : ChainCacheIndex C D) (chain : C) : Int :=
  ((a.records.get? chain).map ChainRecord.processedTokenCount).getD 0

/-- Errors of the same class. -/
def SameClass (e e' : ChainError C) : Prop := e'.errorClass = e.errorClass

theorem SameClass.refl (e : ChainError C) : SameClass e e := rfl

/-- The two readings of the prefix: the same digest, or both inputs too short. -/
theorem inputDigest_agrees {hash : TokenHash D} {record : ChainRecord C D} {tokens : List Int}
    {digest : D} (h : stableTokenDigest (C := C) hash tokens
      (some (min (tokens.length : Int) record.processedTokenCount)) = .ok digest) :
    (inputDigest hash record (.tokens tokens) = .ok digest ∧
      inputDigest hash record (.digest tokens.length digest) = .ok digest) ∨
    ∃ e e', inputDigest hash record (.tokens tokens) = .error e ∧
      inputDigest hash record (.digest tokens.length digest) = .error e' ∧
      e.errorClass = some .prefixMismatch ∧ e'.errorClass = some .prefixMismatch := by
  obtain ⟨hpack, hnonneg, -, hdigest⟩ := stableTokenDigest_ok.mp h
  have hlen := List.length_take (i := record.processedTokenCount.toNat) (l := tokens)
  by_cases hshort : (tokens.length : Int) < record.processedTokenCount
  · -- all tokens are hashed, then their number is found too small
    have hall : tokens.take record.processedTokenCount.toNat = tokens.take
        (min (tokens.length : Int) record.processedTokenCount).toNat := by
      rw [List.take_of_length_le (by omega), List.take_of_length_le (by omega)]
    refine Or.inr ⟨.inputTooShort (tokens.take record.processedTokenCount.toNat).length
      record.processedTokenCount, _, ?_, if_pos hshort, rfl, rfl⟩
    have htaken : ((tokens.take record.processedTokenCount.toNat).length : Int) ≠
        record.processedTokenCount := by omega
    show stableTokenDigest hash tokens (some record.processedTokenCount) = _
    simp only [stableTokenDigest, hall ▸ hpack, Bool.true_eq_false, if_false, if_pos htaken]
  · have hmin : min (tokens.length : Int) record.processedTokenCount =
        record.processedTokenCount := by omega
    rw [hmin] at h
    exact Or.inl ⟨h, if_neg hshort⟩

variable [DecidableEq D]

theorem checkResume_agrees {hash : TokenHash D} {record : ChainRecord C D} {tokens : List Int}
    {digest : D} (h : stableTokenDigest (C := C) hash tokens
      (some (min (tokens.length : Int) record.processedTokenCount)) = .ok digest)
    (chain : C) (seq : SeqId) (fingerprint : D) (a : ChainCacheIndex C D) :
    AgreeAt SameClass a (checkResume hash record chain seq (.tokens tokens) fingerprint)
      (checkResume hash record chain seq (.digest tokens.length digest) fingerprint) := by
  refine AgreeAt.ite (fun _ => .refl .refl _ _) fun _ => ?_
  refine AgreeAt.bind (.refl .refl _ _) fun _ b => AgreeAt.bind (.refl .refl _ _) fun _ c => ?_
  rcases inputDigest_agrees h with ⟨htokens, hcount⟩ | ⟨e, e', htokens, hcount, he, he'⟩
  · rw [htokens, hcount]
    exact AgreeAt.ite (fun _ => ⟨rfl, rfl⟩) fun _ => .refl .refl _ _
  · rw [htokens, hcount]
    simp only [(ChainError.isPrefixMismatch_iff _).mpr he,
      (ChainError.isPrefixMismatch_iff _).mpr he', if_true]
    exact ⟨he'.trans he.symm, rfl⟩

theorem checkResume_reuses {hash : TokenHash D} {record : ChainRecord C D} {chain : C} {seq : SeqId}
    {tokens : List Int} {fingerprint : D} (P : ChainCacheIndex C D → Prop) :
    Returns P (checkResume hash record chain seq (.tokens tokens) fingerprint)
      fun reused _ => reused = record.processedTokenCount ∧
        ∃ digest, stableTokenDigest (C := C) hash tokens (some reused) = .ok digest := by
  refine Spec.ite (fun _ _ _ => trivial) fun _ => ?_
  refine Spec.raiseIf_bind (fun _ _ _ => trivial) fun _ =>
    Spec.raiseIf_bind (fun _ _ _ => trivial) fun _ => ?_
  split
  · exact Spec.ite (fun _ _ _ => trivial) fun _ _ _ => trivial
  · rename_i digest hdigest
    exact Spec.ite (fun _ _ _ => trivial) fun _ => Spec.pure fun _ _ => ⟨rfl, digest, hdigest⟩

variable [LinearOrder C]

theorem planStatus_agrees {hash : TokenHash D} {a : ChainCacheIndex C D} {chain : C}
    {tokens : List Int} {digest : D} (h : stableTokenDigest (C := C) hash tokens
      (some (min (tokens.length : Int) (a.boundary chain))) = .ok digest) (seq : SeqId) (fingerprint : D) :
    AgreeAt SameClass a (planStatus hash chain seq (.tokens tokens) fingerprint)
      (planStatus hash chain seq (.digest tokens.length digest) fingerprint) := by
  unfold AgreeAt planStatus
  rw [get_bind, get_bind]
  cases hrec : a.records.get? chain with
  | none => exact AgreeAt.refl SameClass.refl _ a
  | some record =>
    have hboundary : a.boundary chain = record.processedTokenCount := by
      unfold boundary
      rw [hrec]
      rfl
    rw [hboundary] at h
    exact AgreeAt.bind (checkResume_agrees h chain seq fingerprint a) fun _ _ => .refl .refl _ _

/-- Both entry points, the worker's with the digest of the tokens inside the boundary. -/
theorem planAdmission_agreeAt {hash : TokenHash D} {a : ChainCacheIndex C D} {chain : C}
    {tokens : List Int} {digest : D} (h : stableTokenDigest (C := C) hash tokens
      (some (min (tokens.length : Int) (a.boundary chain))) = .ok digest) (seq : SeqId) (fingerprint : D)
    (needs : ChainRequirements) :
    AgreeAt SameClass a (planAdmission hash chain seq (.tokens tokens) fingerprint needs)
      (planAdmission hash chain seq (.digest tokens.length digest) fingerprint needs) :=
  AgreeAt.bind (planStatus_agrees h seq fingerprint) fun _ _ => .refl .refl _ _

/-- What a plan made from tokens reuses is the boundary of its chain, inside the input. -/
theorem planAdmission_reuses (hash : TokenHash D) (a : ChainCacheIndex C D) (chain : C)
    (seq : SeqId) (tokens : List Int) (fingerprint : D) (needs : ChainRequirements) :
    Returns (· = a) (planAdmission hash chain seq (.tokens tokens) fingerprint needs)
      fun plan _ => plan.reusedTokens = min (tokens.length : Int) (a.boundary chain) ∧
        ∃ digest, stableTokenDigest (C := C) hash tokens (some plan.reusedTokens) = .ok digest := by
  refine Spec.bind (R := fun out _ => out.2 = min (tokens.length : Int) (a.boundary chain) ∧
    ∃ digest, stableTokenDigest (C := C) hash tokens (some out.2) = .ok digest) ?_ fun out => ?_
  · refine Spec.get_bind fun s hs => ?_
    subst hs
    unfold boundary
    split
    · rename_i hnew
      refine Spec.raiseIf_bind (fun _ _ _ => trivial) fun _ => Spec.pure fun _ _ => ?_
      rw [hnew]
      exact ⟨(min_eq_right (Int.natCast_nonneg _)).symm, hash.digest [],
        stableTokenDigest_ok.mpr ⟨rfl, le_rfl, Int.natCast_nonneg _, rfl⟩⟩
    · rename_i record hrec
      refine Spec.bind (checkResume_reuses _) fun reused => Spec.pure fun _ h => ?_
      obtain ⟨rfl, digest, hdigest⟩ := h
      rw [hrec]
      exact ⟨(min_eq_right (stableTokenDigest_ok.mp hdigest).2.2.1).symm, digest, hdigest⟩
  · refine Spec.get_bind fun s hs => ?_
    split
    exact Spec.raiseIf_bind (fun _ _ _ => trivial) fun _ => Spec.pure fun _ _ => hs

/-- **Planning and validation agree** at every state of the index. A plan made from tokens comes out
of the digest entry point exactly, in the same state, with the digest of the tokens it reuses; and
where planning raises, the digest entry point given the digest of the tokens inside the chain's
boundary raises an error of the same class. -/
theorem planAdmission_agrees (hash : TokenHash D) (a : ChainCacheIndex C D) (chain : C)
    (seq : SeqId) (tokens : List Int) (fingerprint : D) (needs : ChainRequirements) :
    (∀ plan s, planAdmission hash chain seq (.tokens tokens) fingerprint needs a = .ok plan s →
      ∃ digest, stableTokenDigest (C := C) hash tokens (some plan.reusedTokens) = .ok digest ∧
        planAdmission hash chain seq (.digest tokens.length digest) fingerprint needs a =
          .ok plan s) ∧
    ∀ e s digest, planAdmission hash chain seq (.tokens tokens) fingerprint needs a = .error e s →
      stableTokenDigest (C := C) hash tokens
        (some (min (tokens.length : Int) (a.boundary chain))) = .ok digest →
      ∃ e', planAdmission hash chain seq (.digest tokens.length digest) fingerprint needs a =
        .error e' s ∧ e'.errorClass = e.errorClass := by
  refine ⟨fun plan s hplan => ?_, fun e s digest hplan hdigest => ?_⟩
  · have hreuses := planAdmission_reuses hash a chain seq tokens fingerprint needs a rfl
    rw [hplan] at hreuses
    obtain ⟨hcount, digest, hdigest⟩ := hreuses
    exact ⟨digest, hdigest, (planAdmission_agreeAt (hcount ▸ hdigest) seq fingerprint needs).ok hplan⟩
  · exact (planAdmission_agreeAt hdigest seq fingerprint needs).error hplan

/-- Chain 1 is resident with tokens 5, 6: the plan for 5, 6, 7 evicts chain 2 on both sides, and the
input 5, 7, 8 is a prefix mismatch on both sides. -/
theorem planAdmission_agrees_two_chains :
    let hash : TokenHash (List Int) := { empty := [], digest := id, isSha256 := fun _ => true }
    let record (chain : Nat) : ChainRecord Nat (List Int) := {
      chainId := chain, seqId := 10 + chain, fingerprint := [9], state := .idle
      processedTokenCount := 2, processedTokenDigest := [5, 6], tokenIds := [5, 6] }
    let a : ChainCacheIndex Nat (List Int) := {
      maxTombstones := 4, maxTokenHistoryTokens := none, tokenHistoryTokens := 4
      records := (Dict.set ∅ 1 (record 1)).set 2 (record 2) }
    (∃ plan s digest, plan.victimChainIds = [2] ∧
      planAdmission hash 1 11 (.digest 3 digest) [9] { rowDeficit := 1 } a = .ok plan s) ∧
    ∃ e s, planAdmission hash 1 11 (.digest 3 [5, 7]) [9] {} a = .error e s ∧
      e.errorClass = some .prefixMismatch := by
  intro hash record a
  have hplan : (planAdmission hash 1 11 (.tokens [5, 6, 7]) [9] { rowDeficit := 1 }).run' a = some
      ⟨1, 11, .resumed, 2, 3, [2], [], 0⟩ := by decide +kernel
  have hraise : raises (planAdmission hash 1 11 (.tokens [5, 7, 8]) [9] {}) a =
      some (.prefixMismatch 1 2 (some ⟨3, 0, true, 1, some 6, some 7⟩)) := by decide +kernel
  obtain ⟨s, hs⟩ := run'_eq_some.mp hplan
  obtain ⟨t, ht⟩ := raises_eq_some.mp hraise
  obtain ⟨digest, -, hdigest⟩ := (planAdmission_agrees hash a 1 11 [5, 6, 7] [9] _).1 _ s hs
  obtain ⟨e, he, hclass⟩ := (planAdmission_agrees hash a 1 11 [5, 7, 8] [9] {}).2 _ t [5, 7] ht rfl
  exact ⟨⟨_, s, digest, rfl, hdigest⟩, e, t, he, hclass⟩

end ChainCacheIndex

end SparseVllm
