import Mathlib.Algebra.BigOperators.Group.List.Basic
import SparseVllm.Chain.IndexSpec
import SparseVllm.Lib.Run

/-!
# The chain index over whole runs

Four tables (records, owners, tombstones, the token history counter) are edited together.
`Consistent` is what holds between them in every state; `ChainOp.Keeps` is what one operation does
to a state: no ACTIVE chain disappears but by its own invalidation, a chain's processed boundary
never moves back, and tombstones are dropped oldest first.

An operation is one `Effect`, or the evictions of an admission followed by one. Operations may
raise: the state they reached counts.

Results: `consistent_of_run`.
-/

namespace SparseVllm

open SparseVllm.Lib

variable {C D : Type}

/-- What `ChainCacheIndex.__init__` raises. -/
inductive ChainConfigError where
  | maxTombstones (value : Int)
  | maxTokenHistoryTokens (value : Int)
  deriving DecidableEq, Repr

namespace ChainCacheIndex

/-- `ChainCacheIndex.__init__`. -/
def new (maxTombstones : Int) (maxTokenHistoryTokens : Option Int) :
    Except ChainConfigError (ChainCacheIndex C D) :=
  if maxTombstones ≤ 0 then .error (.maxTombstones maxTombstones)
  else match maxTokenHistoryTokens.filter fun value => value ≤ 0 with
    | some value => .error (.maxTokenHistoryTokens value)
    | none => .ok {
        maxTombstones := maxTombstones.toNat
        maxTokenHistoryTokens := maxTokenHistoryTokens }

/-- The tokens the records store. -/
def storedTokens (a : ChainCacheIndex C D) : Int :=
  (a.records.values.map fun record => (record.tokenIds.length : Int)).sum

/-- The limits of the index are fixed, its clock runs forward. -/
structure SameLimits (a b : ChainCacheIndex C D) : Prop where
  maxTombstones : b.maxTombstones = a.maxTombstones
  maxTokenHistoryTokens : b.maxTokenHistoryTokens = a.maxTokenHistoryTokens
  clock : a.clock ≤ b.clock

theorem SameLimits.refl (a : ChainCacheIndex C D) : SameLimits a a := ⟨rfl, rfl, le_rfl⟩

theorem SameLimits.trans {a b c : ChainCacheIndex C D} (h : SameLimits a b) (h' : SameLimits b c) :
    SameLimits a c :=
  ⟨h'.1.trans h.1, h'.2.trans h.2, h.3.trans h'.3⟩

section Tables

variable [DecidableEq C]

/-- What holds between the tables. -/
structure Consistent (a : ChainCacheIndex C D) : Prop where
  key : ∀ {chain record}, a.records.get? chain = some record → record.chainId = chain
  /-- The owners are the inverse of the records' sequence ids. -/
  owners : ∀ {seq chain}, a.seqIdToChainId.get? seq = some chain ↔
    ∃ record, a.records.get? chain = some record ∧ record.seqId = seq
  disjoint : ∀ {chain record}, a.records.get? chain = some record →
    a.tombstones.get? chain = none
  few : a.tombstones.entries.length ≤ a.maxTombstones
  newestFirst : a.tombstones.entries.Pairwise fun x y => y.2 < x.2
  past : ∀ {chain stamp}, a.tombstones.get? chain = some stamp → stamp ≤ a.clock
  history : a.tokenHistoryTokens = a.storedTokens
  bounded : ∀ {limit}, a.maxTokenHistoryTokens = some limit → a.tokenHistoryTokens ≤ limit

/-- Every tombstone of `a` that `b` has lost is older than all of `b`'s. -/
def DropsOldest (a b : ChainCacheIndex C D) : Prop :=
  ∀ ⦃chain stamp⦄, a.tombstones.get? chain = some stamp → b.tombstones.get? chain = none →
    ∀ ⦃other stamp'⦄, b.tombstones.get? other = some stamp' → stamp < stamp'

/-- Processed boundaries never move back. -/
def Advances (a b : ChainCacheIndex C D) : Prop :=
  ∀ ⦃chain record record'⦄, a.records.get? chain = some record →
    b.records.get? chain = some record' → record.processedTokenCount ≤ record'.processedTokenCount

/-! ## Elementary effects -/

/-- The record of `chain` is dropped and leaves a tombstone. -/
structure Drop (a : ChainCacheIndex C D) (chain : C) (record : ChainRecord C D)
    (b : ChainCacheIndex C D) : Prop where
  limits : SameLimits a b
  found : a.records.get? chain = some record
  records : b.records = a.records.pop chain
  owners : b.seqIdToChainId = a.seqIdToChainId.pop record.seqId
  history : b.tokenHistoryTokens = a.tokenHistoryTokens - record.tokenIds.length
  clock : b.clock = a.clock + 1
  tombstones : b.tombstones =
    trimTombstones a.maxTombstones ((a.tombstones.pop chain).set chain (a.clock + 1))

/-- Nothing changes but clocks and statistics. -/
structure Quiet (a b : ChainCacheIndex C D) : Prop where
  limits : SameLimits a b
  records : b.records = a.records
  owners : b.seqIdToChainId = a.seqIdToChainId
  history : b.tokenHistoryTokens = a.tokenHistoryTokens
  tombstones : b.tombstones = a.tombstones

/-- A record without tokens is added under a free sequence id. -/
structure Create (a : ChainCacheIndex C D) (record : ChainRecord C D) (b : ChainCacheIndex C D) :
    Prop where
  limits : SameLimits a b
  new : a.records.get? record.chainId = none
  free : a.seqIdToChainId.get? record.seqId = none
  empty : record.tokenIds = []
  records : b.records = a.records.set record.chainId record
  owners : b.seqIdToChainId = a.seqIdToChainId.set record.seqId record.chainId
  history : b.tokenHistoryTokens = a.tokenHistoryTokens
  tombstones : b.tombstones = a.tombstones

/-- The record of a chain is replaced, under the same owner and with no earlier boundary. -/
structure Update (a : ChainCacheIndex C D) (chain : C) (record record' : ChainRecord C D)
    (b : ChainCacheIndex C D) : Prop where
  limits : SameLimits a b
  found : a.records.get? chain = some record
  sameChain : record'.chainId = record.chainId
  sameSeq : record'.seqId = record.seqId
  advances : record.processedTokenCount ≤ record'.processedTokenCount
  records : b.records = a.records.set chain record'
  owners : b.seqIdToChainId = a.seqIdToChainId
  history : b.tokenHistoryTokens =
    a.tokenHistoryTokens - record.tokenIds.length + record'.tokenIds.length
  bounded : ∀ {limit}, a.maxTokenHistoryTokens = some limit →
    a.tokenHistoryTokens ≤ limit → b.tokenHistoryTokens ≤ limit
  tombstones : b.tombstones = a.tombstones

/-! ### Stored tokens -/

theorem storedTokens_pop {a b : ChainCacheIndex C D} {chain : C} {record : ChainRecord C D}
    (h : a.records.get? chain = some record) (hb : b.records = a.records.pop chain) :
    b.storedTokens = a.storedTokens - record.tokenIds.length := by
  unfold storedTokens
  rw [((Dict.values_perm h).map _).sum_eq, hb]
  simp only [List.map_cons, List.sum_cons]
  omega

theorem storedTokens_set {a b : ChainCacheIndex C D} {chain : C} {record record' : ChainRecord C D}
    (h : a.records.get? chain = some record) (hb : b.records = a.records.set chain record') :
    b.storedTokens = a.storedTokens - record.tokenIds.length + record'.tokenIds.length := by
  unfold storedTokens
  rw [((Dict.values_perm h).map _).sum_eq, hb, Dict.values_set]
  simp only [List.map_cons, List.sum_cons]
  omega

theorem storedTokens_new {a b : ChainCacheIndex C D} {chain : C} {record : ChainRecord C D}
    (h : a.records.get? chain = none) (hb : b.records = a.records.set chain record) :
    b.storedTokens = a.storedTokens + record.tokenIds.length := by
  unfold storedTokens
  rw [hb, Dict.values_set, Dict.pop_of_get?_none h]
  simp only [List.map_cons, List.sum_cons]
  omega

/-! ### Tombstones -/

/-- A trimmed dictionary keeps what it keeps. -/
theorem get?_trimTombstones {limit : Nat} {d : Dict C Nat} {chain : C} {stamp : Nat}
    (h : (trimTombstones limit d).get? chain = some stamp) : d.get? chain = some stamp :=
  Dict.mem_entries.mp (List.mem_of_mem_take (Dict.mem_entries.mpr h))

/-- What trimming drops is older than what it keeps. -/
theorem dropped_older {limit : Nat} {d : Dict C Nat} {chain other : C} {stamp stamp' : Nat}
    (hd : d.entries.Pairwise fun x y => y.2 < x.2) (h : d.get? chain = some stamp)
    (hgone : (trimTombstones limit d).get? chain = none)
    (hkept : (trimTombstones limit d).get? other = some stamp') : stamp < stamp' := by
  have hmem : (⟨chain, stamp⟩ : Sigma fun _ : C => Nat) ∈ d.entries := Dict.mem_entries.mpr h
  have hkept' : (⟨other, stamp'⟩ : Sigma fun _ : C => Nat) ∈ d.entries.take limit :=
    Dict.mem_entries.mpr hkept
  rw [← List.take_append_drop limit d.entries] at hd hmem
  rcases List.mem_append.mp hmem with htake | hdrop
  · have : (trimTombstones limit d).get? chain = some stamp := Dict.mem_entries.mp htake
    rw [this] at hgone
    cases hgone
  · exact (List.pairwise_append.mp hd).2.2 _ hkept' _ hdrop

/-- A newest stamp goes in front. -/
theorem newestFirst_stamp {d : Dict C Nat} {chain : C} {now : Nat}
    (hd : d.entries.Pairwise fun x y => y.2 < x.2)
    (hpast : ∀ {other stamp}, d.get? other = some stamp → stamp < now) :
    ((d.pop chain).set chain now).entries.Pairwise fun x y => y.2 < x.2 := by
  have hentries : ((d.pop chain).set chain now).entries =
      ⟨chain, now⟩ :: ((d.pop chain).pop chain).entries := rfl
  have hsub : ((d.pop chain).pop chain).entries.Sublist d.entries :=
    (List.kerase_sublist chain _).trans (List.kerase_sublist chain _)
  rw [hentries, List.pairwise_cons]
  refine ⟨fun entry hentry => ?_, hd.sublist hsub⟩
  exact hpast (Dict.mem_entries.mp (hsub.subset hentry))

/-! ### Each effect keeps the tables consistent -/

variable {a b : ChainCacheIndex C D} {chain : C} {record record' : ChainRecord C D}

theorem Quiet.consistent (h : Quiet a b) (ha : Consistent a) : Consistent b where
  key {c r} hr := ha.key (h.records ▸ hr)
  owners {seq c} := by rw [h.owners, h.records]; exact ha.owners
  disjoint {c r} hr := by rw [h.tombstones]; exact ha.disjoint (h.records ▸ hr)
  few := by rw [h.tombstones, h.limits.maxTombstones]; exact ha.few
  newestFirst := by rw [h.tombstones]; exact ha.newestFirst
  past {c stamp} hs := (ha.past (h.tombstones ▸ hs)).trans h.limits.clock
  history := by
    have hstored : b.storedTokens = a.storedTokens := by
      unfold storedTokens
      rw [h.records]
    rw [h.history, hstored]
    exact ha.history
  bounded {limit} hl := by
    rw [h.history]
    exact ha.bounded (h.limits.maxTokenHistoryTokens ▸ hl)

theorem Drop.get? (h : Drop a chain record b) (c : C) :
    b.records.get? c = if c = chain then none else a.records.get? c := by
  rw [h.records, Dict.get?_pop]

theorem Drop.tombstone (h : Drop a chain record b) {c : C} {stamp : Nat}
    (hs : b.tombstones.get? c = some stamp) :
    (c = chain ∧ stamp = a.clock + 1) ∨ (c ≠ chain ∧ a.tombstones.get? c = some stamp) := by
  rw [h.tombstones] at hs
  have hs := get?_trimTombstones hs
  rw [Dict.get?_set] at hs
  by_cases hc : c = chain
  · rw [if_pos hc] at hs
    exact Or.inl ⟨hc, (Option.some.inj hs).symm⟩
  · rw [if_neg hc, Dict.get?_pop, if_neg hc] at hs
    exact Or.inr ⟨hc, hs⟩

theorem Drop.consistent (h : Drop a chain record b) (ha : Consistent a) : Consistent b where
  key {c r} hr := by
    rw [h.get?] at hr
    split at hr
    · cases hr
    · exact ha.key hr
  owners {seq c} := by
    have howner : a.seqIdToChainId.get? record.seqId = some chain :=
      ha.owners.mpr ⟨record, h.found, rfl⟩
    rw [h.owners, Dict.get?_pop, h.get?]
    by_cases hseq : seq = record.seqId
    · rw [if_pos hseq]
      refine iff_of_false (Option.some_ne_none _).symm ?_
      rintro ⟨r, hr, hrs⟩
      split at hr
      · cases hr
      · -- the owner of the dropped record's sequence is the dropped chain
        have hother := ha.owners.mpr ⟨r, hr, hrs.trans hseq⟩
        rw [howner] at hother
        exact absurd (Option.some.inj hother).symm ‹_›
    · rw [if_neg hseq]
      constructor
      · intro hs
        obtain ⟨r, hr, hrs⟩ := ha.owners.mp hs
        refine ⟨r, ?_, hrs⟩
        rw [if_neg, hr]
        rintro rfl
        rw [h.found] at hr
        exact hseq (hrs.symm.trans (by rw [Option.some.inj hr]))
      · rintro ⟨r, hr, hrs⟩
        split at hr
        · cases hr
        · exact ha.owners.mpr ⟨r, hr, hrs⟩
  disjoint {c r} hr := by
    rw [h.get?] at hr
    split at hr
    · cases hr
    · cases hb : b.tombstones.get? c with
      | none => rfl
      | some stamp =>
        rcases h.tombstone hb with ⟨hc, -⟩ | ⟨-, hs⟩
        · exact absurd hc ‹_›
        · rw [ha.disjoint hr] at hs
          cases hs
  few := by
    rw [h.tombstones, h.limits.maxTombstones]
    exact List.length_take_le _ _
  newestFirst := by
    rw [h.tombstones]
    have hpast : ∀ {other stamp}, a.tombstones.get? other = some stamp → stamp < a.clock + 1 :=
      fun hs => Nat.lt_succ_of_le (ha.past hs)
    exact (newestFirst_stamp ha.newestFirst hpast).sublist (List.take_sublist _ _)
  past {c stamp} hs := by
    rw [h.clock]
    rcases h.tombstone hs with ⟨-, rfl⟩ | ⟨-, hs⟩
    · exact le_rfl
    · exact (ha.past hs).trans (Nat.le_succ _)
  history := by
    rw [h.history, storedTokens_pop h.found h.records, ha.history]
  bounded {limit} hl := by
    have := ha.bounded (h.limits.maxTokenHistoryTokens ▸ hl)
    rw [h.history]
    omega

theorem Create.consistent (h : Create a record b) (ha : Consistent a)
    (hgone : a.tombstones.get? record.chainId = none) : Consistent b where
  key {c r} hr := by
    rw [h.records, Dict.get?_set] at hr
    split at hr
    · cases hr
      exact Eq.symm ‹_›
    · exact ha.key hr
  owners {seq c} := by
    rw [h.owners, h.records, Dict.get?_set, Dict.get?_set]
    by_cases hseq : seq = record.seqId
    · rw [if_pos hseq]
      constructor
      · rintro hc
        obtain rfl := Option.some.inj hc
        exact ⟨record, if_pos rfl, hseq.symm⟩
      · rintro ⟨r, hr, hrs⟩
        split at hr
        · rw [‹c = _›]
        · have hother := ha.owners.mpr ⟨r, hr, hrs.trans hseq⟩
          rw [h.free] at hother
          cases hother
    · rw [if_neg hseq]
      constructor
      · intro hs
        obtain ⟨r, hr, hrs⟩ := ha.owners.mp hs
        refine ⟨r, ?_, hrs⟩
        rw [if_neg, hr]
        rintro rfl
        rw [h.new] at hr
        cases hr
      · rintro ⟨r, hr, hrs⟩
        split at hr
        · cases hr
          exact absurd hrs.symm hseq
        · exact ha.owners.mpr ⟨r, hr, hrs⟩
  disjoint {c r} hr := by
    rw [h.records, Dict.get?_set] at hr
    rw [h.tombstones]
    split at hr
    · rw [‹c = _›]
      exact hgone
    · exact ha.disjoint hr
  few := by rw [h.tombstones, h.limits.maxTombstones]; exact ha.few
  newestFirst := by rw [h.tombstones]; exact ha.newestFirst
  past {c stamp} hs := (ha.past (h.tombstones ▸ hs)).trans h.limits.clock
  history := by
    rw [h.history, storedTokens_new h.new h.records, h.empty, ha.history]
    simp
  bounded {limit} hl := by
    rw [h.history]
    exact ha.bounded (h.limits.maxTokenHistoryTokens ▸ hl)

theorem Update.consistent (h : Update a chain record record' b) (ha : Consistent a) :
    Consistent b where
  key {c r} hr := by
    rw [h.records, Dict.get?_set] at hr
    split at hr
    · cases hr
      rw [h.sameChain, ha.key h.found, ‹c = _›]
    · exact ha.key hr
  owners {seq c} := by
    rw [h.owners, h.records, Dict.get?_set]
    by_cases hc : c = chain
    · subst hc
      rw [if_pos rfl, ha.owners]
      constructor
      · rintro ⟨r, hr, hrs⟩
        rw [h.found] at hr
        obtain rfl := Option.some.inj hr
        exact ⟨record', rfl, h.sameSeq.trans hrs⟩
      · rintro ⟨r, hr, hrs⟩
        obtain rfl := Option.some.inj hr
        exact ⟨record, h.found, h.sameSeq.symm.trans hrs⟩
    · rw [if_neg hc]
      exact ha.owners
  disjoint {c r} hr := by
    rw [h.records, Dict.get?_set] at hr
    rw [h.tombstones]
    split at hr
    · rw [‹c = _›]
      exact ha.disjoint h.found
    · exact ha.disjoint hr
  few := by rw [h.tombstones, h.limits.maxTombstones]; exact ha.few
  newestFirst := by rw [h.tombstones]; exact ha.newestFirst
  past {c stamp} hs := (ha.past (h.tombstones ▸ hs)).trans h.limits.clock
  history := by
    rw [h.history, storedTokens_set h.found h.records, ha.history]
  bounded {limit} hl := by
    have hl' := h.limits.maxTokenHistoryTokens ▸ hl
    exact h.bounded hl' (ha.bounded hl')

/-! ### What each effect does to the chains and tombstones -/

theorem DropsOldest.of_eq (h : b.tombstones = a.tombstones) : DropsOldest a b := by
  intro c stamp hs hgone
  rw [h, hs] at hgone
  cases hgone

theorem Drop.dropsOldest (h : Drop a chain record b) (ha : Consistent a) : DropsOldest a b := by
  intro c stamp hs hgone other stamp' hkept
  have hnew : ((a.tombstones.pop chain).set chain (a.clock + 1)).get? c = some stamp := by
    have hne : c ≠ chain := by
      rintro rfl
      rw [ha.disjoint h.found] at hs
      cases hs
    rw [Dict.get?_set, if_neg hne, Dict.get?_pop, if_neg hne, hs]
  rw [h.tombstones] at hgone hkept
  have hpast : ∀ {other stamp}, a.tombstones.get? other = some stamp → stamp < a.clock + 1 :=
    fun hs => Nat.lt_succ_of_le (ha.past hs)
  exact dropped_older (newestFirst_stamp ha.newestFirst hpast) hnew hgone hkept

/-- What one operation may do to a state, apart from the chain it invalidates. -/
structure KeepsChains (invalidated : Option C) (a b : ChainCacheIndex C D) : Prop where
  active : ∀ {chain record}, a.records.get? chain = some record → record.state = .active →
    some chain ≠ invalidated → (b.records.get? chain).isSome = true
  advances : Advances a b
  dropsOldest : DropsOldest a b

theorem Advances.of_eq (h : b.records = a.records) : Advances a b := by
  intro c r r' hr hr'
  rw [h, hr] at hr'
  cases hr'
  exact le_rfl

theorem Quiet.keepsChains (h : Quiet a b) (invalidated : Option C) :
    KeepsChains invalidated a b where
  active {c r} hr _ _ := by rw [h.records, hr]; rfl
  advances := .of_eq h.records
  dropsOldest := .of_eq h.tombstones

theorem Drop.keepsChains (h : Drop a chain record b) (ha : Consistent a) {invalidated : Option C}
    (hidle : record.state = .idle ∨ invalidated = some chain) : KeepsChains invalidated a b where
  active {c r} hr hactive hc := by
    rw [h.get?, if_neg, hr]
    · rfl
    · rintro rfl
      rw [h.found] at hr
      cases hr
      rcases hidle with hidle | hinv
      · rw [hidle] at hactive
        cases hactive
      · exact hc hinv.symm
  advances {c r r'} hr hr' := by
    rw [h.get?] at hr'
    split at hr'
    · cases hr'
    · rw [hr] at hr'
      cases hr'
      exact le_rfl
  dropsOldest := h.dropsOldest ha

theorem Create.keepsChains (h : Create a record b) : KeepsChains none a b where
  active {c r} hr _ _ := by
    rw [h.records, Dict.get?_set]
    split
    · rfl
    · rw [hr]; rfl
  advances {c r r'} hr hr' := by
    rw [h.records, Dict.get?_set] at hr'
    split at hr'
    · rw [‹c = _›, h.new] at hr
      cases hr
    · rw [hr] at hr'
      cases hr'
      exact le_rfl
  dropsOldest := .of_eq h.tombstones

theorem Update.keepsChains (h : Update a chain record record' b) : KeepsChains none a b where
  active {c r} hr _ _ := by
    rw [h.records, Dict.get?_set]
    split
    · rfl
    · rw [hr]; rfl
  advances {c r r'} hr hr' := by
    rw [h.records, Dict.get?_set] at hr'
    split at hr'
    · rw [‹c = _›, h.found] at hr
      cases hr
      cases hr'
      exact h.advances
    · rw [hr] at hr'
      cases hr'
      exact le_rfl
  dropsOldest := .of_eq h.tombstones

end Tables

/-! ## The operations -/

section Operations

variable [LinearOrder C]

/-- What an operation other than an admission does: the tables stay consistent, the chains stay. -/
structure Does (invalidated : Option C) (a b : ChainCacheIndex C D) : Prop where
  consistent : Consistent b
  keepsChains : KeepsChains invalidated a b

variable {a b : ChainCacheIndex C D} {chain : C} {record record' : ChainRecord C D}

theorem Quiet.does (h : Quiet a b) (ha : Consistent a) (invalidated : Option C) :
    Does invalidated a b :=
  ⟨h.consistent ha, h.keepsChains invalidated⟩

omit [LinearOrder C] in
theorem Quiet.refl (a : ChainCacheIndex C D) : Quiet a a := ⟨.refl a, rfl, rfl, rfl, rfl⟩

theorem Update.does (h : Update a chain record record' b) (ha : Consistent a) : Does none a b :=
  ⟨h.consistent ha, h.keepsChains⟩

theorem evict_drops (a : ChainCacheIndex C D) (chain : C) :
    Spec (· = a) (evict chain) (fun record s => record.state = .idle ∧ Drop a chain record s)
      fun _ s => s = a := by
  refine Spec.bind ((lookup_spec a chain).conseq (fun _ h => h) (fun _ _ h => h)
    fun _ _ h => h.1) fun record => Spec.raiseIf_bind (fun _ s hs => hs.1) fun hactive => ?_
  rintro s ⟨rfl, hrec⟩
  exact ⟨state_idle_of_not_active hactive, ⟨⟨rfl, rfl, Nat.le_succ _⟩, hrec, rfl, rfl, rfl, rfl, rfl⟩⟩

theorem invalidate_drops (a : ChainCacheIndex C D) (chain : C) :
    Spec (· = a) (invalidate chain) (fun record s => Drop a chain record s) fun _ s => s = a := by
  refine Spec.bind ((lookup_spec a chain).conseq (fun _ h => h) (fun _ _ h => h) fun _ _ h => h.1)
    fun record => ?_
  rintro s ⟨rfl, hrec⟩
  exact ⟨⟨rfl, rfl, Nat.le_succ _⟩, hrec, rfl, rfl, rfl, rfl, rfl⟩

theorem createRecord_creates (a : ChainCacheIndex C D) (hash : TokenHash D)
    (plan : ChainAdmissionPlan C) (fingerprint : D) :
    Spec (· = a) (createRecord hash plan fingerprint)
      (fun _ s => ∃ now, Create a (plan.newRecord hash fingerprint now) s) fun _ s => s = a := by
  refine Spec.get_bind fun s hs => ?_
  subst hs
  refine Spec.raiseIf_bind (fun _ t ht => ht) fun hnew => ?_
  split
  · exact Spec.throw fun t ht => ht
  · rename_i howner
    rintro t rfl
    exact ⟨_, ⟨rfl, rfl, Nat.le_succ _⟩, Option.not_isSome_iff_eq_none.mp hnew, howner, rfl, rfl, rfl,
      rfl, rfl⟩

theorem resumeRecord_updates (a : ChainCacheIndex C D) (plan : ChainAdmissionPlan C) :
    Spec (· = a) (resumeRecord plan)
      (fun _ s => ∃ record now, Update a plan.chainId record (plan.resumedRecord record now) s)
      fun _ s => s = a := by
  refine Spec.bind ((lookup_spec a plan.chainId).conseq (fun _ h => h) (fun _ _ h => h)
    fun _ _ h => h.1) fun record => Spec.raiseIf_bind (fun _ s hs => hs.1) fun hidle => ?_
  rintro s ⟨rfl, hrec⟩
  refine ⟨record, _, ⟨rfl, rfl, Nat.le_succ _⟩, hrec, rfl, rfl, le_rfl,
    Dict.modify_of_get? hrec _, rfl, ?_, fun _ h => ?_, rfl⟩
  · show s.tokenHistoryTokens = s.tokenHistoryTokens - record.tokenIds.length + record.tokenIds.length
    omega
  · exact h

/-- `finish_digest` keeps the stored tokens of the record. -/
theorem finishDigest_updates (a : ChainCacheIndex C D) (hash : TokenHash D) (chain : C) (digest : D)
    (processed : Int) (slots : List Int) (rows : Int) :
    Spec (· = a) (finishDigest hash chain digest processed slots rows)
      (fun returned s => ∃ record now, returned = record.finished digest processed slots rows now ∧
        Update a chain record (record.finished digest processed slots rows now) s ∧
        s.tokenHistoryTokens = a.tokenHistoryTokens)
      fun _ s => s = a := by
  refine Spec.bind ((lookup_spec a chain).conseq (fun _ h => h) (fun _ _ h => h)
    fun _ _ h => h.1) fun record => Spec.raiseIf_bind (fun _ s hs => hs.1) fun _ => ?_
  refine Spec.raiseIf_bind (fun _ s hs => hs.1) fun hback => ?_
  refine Spec.raiseIf_bind (fun _ s hs => hs.1) fun _ => ?_
  rintro s ⟨rfl, hrec⟩
  refine ⟨record, _, rfl, ⟨⟨rfl, rfl, Nat.le_succ _⟩, hrec, rfl, rfl, ?_,
    Dict.modify_of_get? hrec _, rfl, ?_, fun _ h => ?_, rfl⟩, rfl⟩
  · exact not_lt.mp hback
  · show s.tokenHistoryTokens = s.tokenHistoryTokens - record.tokenIds.length + record.tokenIds.length
    omega
  · exact h

omit [LinearOrder C] in
/-- The check before tokens are stored: they fit the configured history. -/
theorem prepareTokenHistory_fits (a : ChainCacheIndex C D) (record : ChainRecord C D)
    (tokens : List Int) (processed : Int) :
    Spec (· = a) (prepareTokenHistory record tokens processed)
      (fun _ s => s = a ∧ ∀ limit, a.maxTokenHistoryTokens = some limit →
        a.tokenHistoryTokens - record.tokenIds.length + tokens.length ≤ limit)
      fun _ s => s = a := by
  refine Spec.raiseIf_bind (fun _ s hs => hs) fun _ => ?_
  split
  · exact Spec.throw fun _ hs => hs
  refine Spec.raiseIf_bind (fun _ s hs => hs) fun _ => ?_
  refine Spec.get_bind fun s hs => ?_
  subst hs
  cases hlimit : s.maxTokenHistoryTokens with
  | none => exact Spec.pure fun t ht => ⟨ht, nofun⟩
  | some capacity =>
    refine Spec.post (Spec.raiseIf fun t ht _ => ht) fun _ t ht => ⟨ht.1, fun limit hlimit' => ?_⟩
    cases hlimit'
    exact not_lt.mp ht.2

/-- Storing the tokens of a chain whose record was just found. -/
theorem storeTokenHistory_run {a : ChainCacheIndex C D} {record record' : ChainRecord C D}
    {tokens : List Int} (hrec : a.records.get? record'.chainId = some record) :
    storeTokenHistory record' tokens a = .ok () { a with
      tokenHistoryTokens := a.tokenHistoryTokens - record'.tokenIds.length + tokens.length
      records := a.records.set record'.chainId { record with tokenIds := tokens } } := by
  unfold storeTokenHistory modifyRecord
  rw [modify_bind, modify_apply]
  simp only [Dict.modify_of_get? hrec]

theorem finish_does {a : ChainCacheIndex C D} (ha : Consistent a) (hash : TokenHash D) (chain : C)
    (tokens : List Int) (processed : Int) (slots : List Int) (rows : Int) :
    Spec (· = a) (finish hash chain tokens processed slots rows) (fun _ s => Does none a s)
      fun _ s => Does none a s := by
  have hquiet : ∀ s, s = a → Does none a s := fun s hs => hs ▸ (Quiet.refl s).does (hs ▸ ha) none
  refine Spec.bind ((lookup_spec a chain).conseq (fun _ h => h) (fun _ _ h => h)
    fun _ s h => hquiet s h.1) fun existing => Spec.intro fun t ht => ?_
  obtain ⟨rfl, hfound⟩ := ht
  refine Spec.bind ((prepareTokenHistory_fits t existing tokens processed).conseq (fun _ h => h)
    (fun _ _ h => h) fun _ s h => hquiet s h) fun _ => Spec.intro fun u hu => ?_
  obtain ⟨rfl, hfits⟩ := hu
  cases hdigest : stableTokenDigest (C := C) hash tokens (some processed) with
  | error e => exact Spec.bind (R := fun _ _ => False) (fun s hs => hquiet s hs) fun _ _ h => h.elim
  | ok digest =>
    refine Spec.bind (R := fun d s => s = u ∧ d = digest) (fun s hs => ⟨hs, rfl⟩) fun d =>
      Spec.intro fun v hv => ?_
    obtain ⟨rfl, rfl⟩ := hv
    refine Spec.bind ((finishDigest_updates v hash chain d processed slots rows).conseq
      (fun _ h => h) (fun _ _ h => h) fun _ s h => hquiet s h) fun returned =>
      Spec.intro fun w hw => ?_
    obtain ⟨record, now, rfl, hupdate, hhistory⟩ := hw
    obtain rfl : existing = record := Option.some.inj (hfound.symm.trans hupdate.found)
    have hkey : existing.chainId = chain := ha.key hfound
    have hrec : w.records.get? (existing.finished d processed slots rows now).chainId =
        some (existing.finished d processed slots rows now) := by
      show w.records.get? existing.chainId = _
      rw [hkey, hupdate.records, Dict.get?_set_self]
    refine Spec.bind (Spec.of_ok (storeTokenHistory_run hrec)) fun _ => Spec.pure fun t ht => ?_
    obtain ⟨-, rfl⟩ := ht
    refine Update.does (?_ : Update v chain existing
      { existing.finished d processed slots rows now with tokenIds := tokens } _) ha
    refine ⟨⟨hupdate.limits.1, hupdate.limits.2, hupdate.limits.3⟩, hfound, rfl, rfl,
      hupdate.advances, ?_, hupdate.owners, ?_, ?_, hupdate.tombstones⟩
    · show w.records.set existing.chainId _ = _
      rw [hkey, hupdate.records]
      exact AList.insert_insert _
    · show w.tokenHistoryTokens - existing.tokenIds.length + tokens.length = _
      rw [hhistory]
    · intro limit hlimit _
      show w.tokenHistoryTokens - existing.tokenIds.length + tokens.length ≤ limit
      rw [hhistory]
      exact hfits limit hlimit

/-- `remember_processed_tokens` gives an IDLE record the tokens. -/
theorem remember_updates {a : ChainCacheIndex C D} {chain : C}
    (filed : ∀ record, a.records.get? chain = some record → record.chainId = chain) [DecidableEq D]
    (hash : TokenHash D) (seq : SeqId) (tokens : List Int) (processed : Int) :
    Spec (· = a) (rememberProcessedTokens hash chain seq tokens processed)
      (fun _ s => ∃ record, record.state = .idle ∧
        Update a chain record { record with tokenIds := tokens } s) fun _ s => s = a := by
  refine Spec.bind ((lookup_spec a chain).conseq (fun _ h => h) (fun _ _ h => h)
    fun _ s h => h.1) fun record => Spec.intro fun t ht => ?_
  obtain ⟨rfl, hfound⟩ := ht
  refine Spec.raiseIf_bind (fun _ _ hs => hs) fun _ =>
    Spec.raiseIf_bind (fun _ _ hs => hs) fun hidle => ?_
  refine Spec.bind (prepareTokenHistory_fits t record tokens processed) fun _ =>
    Spec.intro fun u hu => ?_
  obtain ⟨rfl, hfits⟩ := hu
  refine Spec.bind (R := fun _ s => s = u) ?_ fun digest =>
    Spec.raiseIf_bind (fun _ _ hs => hs) fun _ => ?_
  · cases stableTokenDigest (C := C) hash tokens (some processed) with
    | error e => exact fun s hs => hs
    | ok digest => exact fun s hs => hs
  have hkey := filed record hfound
  have hrec : u.records.get? record.chainId = some record := by
    rw [hkey]
    exact hfound
  refine Spec.bind (Spec.of_ok (storeTokenHistory_run hrec)) fun _ => Spec.pure fun t ht => ?_
  obtain ⟨-, rfl⟩ := ht
  exact ⟨record, not_not.mp hidle, ⟨rfl, rfl, le_rfl⟩, hfound, rfl, rfl, le_rfl, by rw [hkey], rfl,
    rfl, fun hlimit _ => hfits _ hlimit, rfl⟩

theorem remember_does {a : ChainCacheIndex C D} (ha : Consistent a) [DecidableEq D]
    (hash : TokenHash D) (chain : C) (seq : SeqId) (tokens : List Int) (processed : Int) :
    Spec (· = a) (rememberProcessedTokens hash chain seq tokens processed)
      (fun _ s => Does none a s) fun _ s => Does none a s :=
  (remember_updates (fun _ => ha.key) hash seq tokens processed).conseq (fun _ h => h)
    (fun _ _ ⟨_, _, h⟩ => h.does ha) fun _ s hs => hs ▸ (Quiet.refl s).does (hs ▸ ha) none

/-! ## Admissions -/

section Admissions

variable [DecidableEq D]

omit [LinearOrder C] [DecidableEq D] in
theorem Quiet.trans {a b c : ChainCacheIndex C D} (h : Quiet a b) (h' : Quiet b c) : Quiet a c :=
  ⟨h.1.trans h'.1, h'.2.trans h.2, h'.3.trans h.3, h'.4.trans h.4, h'.5.trans h.5⟩

omit [LinearOrder C] in
theorem checkResume_quiet (a : ChainCacheIndex C D) (hash : TokenHash D)
    (record : ChainRecord C D) (chain : C) (seq : SeqId) (input : ChainInput D) (fingerprint : D) :
    Keeps (Quiet a) (checkResume hash record chain seq input fingerprint) := by
  have hmismatch : ∀ e : ChainError C, Keeps (Quiet a) (raiseMismatch (α := Int) e) := fun e s hs =>
    hs.trans ⟨⟨rfl, rfl, le_rfl⟩, rfl, rfl, rfl, rfl⟩
  refine Spec.ite (fun _ => ?_) fun _ => ?_
  · exact fun s hs => hs.trans ⟨⟨rfl, rfl, le_rfl⟩, rfl, rfl, rfl, rfl⟩
  refine Keeps.bind (Keeps.raiseIf _ _) fun _ => Keeps.bind (Keeps.raiseIf _ _) fun _ => ?_
  split
  · exact Keeps.ite (hmismatch _) (Keeps.throw _)
  · exact Keeps.ite (hmismatch _) (Keeps.pure _)

theorem planStatus_quiet (a : ChainCacheIndex C D) (hash : TokenHash D) (chain : C) (seq : SeqId)
    (input : ChainInput D) (fingerprint : D) :
    Keeps (Quiet a) (planStatus hash chain seq input fingerprint) := by
  refine Keeps.bind Keeps.get fun index => ?_
  split
  · exact Keeps.bind (Keeps.raiseIf _ _) fun _ => Keeps.pure _
  · exact Keeps.bind (checkResume_quiet a hash _ chain seq input fingerprint) fun _ => Keeps.pure _

/-- Planning, whether it returns or raises, leaves the tables alone. -/
theorem planAdmission_quiet (a : ChainCacheIndex C D) (hash : TokenHash D) (chain : C) (seq : SeqId)
    (input : ChainInput D) (fingerprint : D) (needs : ChainRequirements) :
    Keeps (Quiet a) (planAdmission hash chain seq input fingerprint needs) :=
  Keeps.bind (planStatus_quiet a hash chain seq input fingerprint) fun _ =>
    Keeps.bind Keeps.get fun _ => Keeps.bind (Keeps.raiseIf _ _) fun _ => Keeps.pure _

/-- What the evictions of an admission do: some IDLE records go, the others stay as they are. -/
structure Evicted (a s : ChainCacheIndex C D) : Prop where
  consistent : Consistent s
  clock : a.clock ≤ s.clock
  kept : ∀ {chain record}, s.records.get? chain = some record →
    a.records.get? chain = some record
  active : ∀ {chain record}, a.records.get? chain = some record → record.state = .active →
    s.records.get? chain = some record
  dropsOldest : DropsOldest a s
  ofRecord : ∀ {chain stamp}, s.tombstones.get? chain = some stamp →
    a.tombstones.get? chain = some stamp ∨ (a.records.get? chain).isSome = true

omit [DecidableEq D] in
theorem Evicted.refl (ha : Consistent a) : Evicted a a :=
  ⟨ha, le_rfl, id, fun h _ => h, .of_eq rfl, Or.inl⟩

omit [DecidableEq D] in
/-- One more IDLE chain is evicted. -/
theorem Evicted.drop {s : ChainCacheIndex C D} (h : Evicted a s) (ha : Consistent a)
    (hidle : record.state = .idle) (hdrop : Drop s chain record b) : Evicted a b where
  consistent := hdrop.consistent h.consistent
  clock := h.clock.trans hdrop.limits.clock
  kept {c r} hr := by
    rw [hdrop.get?] at hr
    split at hr
    · cases hr
    · exact h.kept hr
  active {c r} hr hactive := by
    have hs := h.active hr hactive
    rw [hdrop.get?, if_neg, hs]
    rintro rfl
    rw [hdrop.found] at hs
    cases hs
    rw [hidle] at hactive
    cases hactive
  dropsOldest := by
    intro c stamp hstamp hgone other stamp' hkept
    cases hs : s.tombstones.get? c with
    | some stamp'' =>
      -- still there before this eviction: its stamp is the one it had
      rcases h.ofRecord hs with hold | hrec
      · rw [hstamp] at hold
        cases hold
        exact hdrop.dropsOldest h.consistent hs hgone hkept
      · obtain ⟨r, hr⟩ := Option.isSome_iff_exists.mp hrec
        rw [ha.disjoint hr] at hstamp
        cases hstamp
    | none =>
      rcases hdrop.tombstone hkept with ⟨-, rfl⟩ | ⟨-, hother⟩
      · exact Nat.lt_succ_of_le ((ha.past hstamp).trans h.clock)
      · exact h.dropsOldest hstamp hs hother
  ofRecord {c stamp} hstamp := by
    rcases hdrop.tombstone hstamp with ⟨rfl, -⟩ | ⟨-, hs⟩
    · exact Or.inr (by rw [h.kept hdrop.found]; rfl)
    · exact h.ofRecord hs

omit [DecidableEq D] in
theorem evictAll_evicted (ha : Consistent a) (victims : List C) :
    Spec (· = a) (forEach victims fun victim => do
        let _ ← evict victim
        pure ())
      (fun _ s => Evicted a s) fun _ s => Evicted a s := by
  refine Spec.pre (Spec.forEach (I := fun _ s => Evicted a s) (fun victim rest => ?_) victims)
    fun s hs => by subst hs; exact Evicted.refl ha
  refine Spec.intro fun s hs => ?_
  refine Spec.bind ((evict_drops s victim).conseq (fun _ h => h) (fun _ _ h => h)
    fun _ t h => ?_) fun _ => Spec.pure fun t ht => ?_
  · rw [h]
    exact hs
  · exact hs.drop ha ht.1 ht.2

omit [DecidableEq D] in
/-- The evictions followed by what creates or resumes the chain. -/
theorem Evicted.does {s : ChainCacheIndex C D} (h : Evicted a s) (hb : Consistent b)
    (hkeeps : KeepsChains none s b) (htombs : b.tombstones = s.tombstones)
    (hback : ∀ {c}, (a.records.get? c).isSome = true → (b.records.get? c).isSome = true →
      (s.records.get? c).isSome = true) : Does none a b where
  consistent := hb
  keepsChains :=
    { active := fun hr hactive hc => hkeeps.active (h.active hr hactive) hactive hc
      advances := by
        intro c r r' hr hr'
        obtain ⟨q, hq⟩ := Option.isSome_iff_exists.mp
          (hback (Option.isSome_of_eq_some hr) (Option.isSome_of_eq_some hr'))
        obtain rfl : q = r := Option.some.inj ((h.kept hq).symm.trans hr)
        exact hkeeps.advances hq hr'
      dropsOldest := by
        intro c stamp hstamp hgone other stamp' hkept
        rw [htombs] at hgone hkept
        exact h.dropsOldest hstamp hgone hkept }

omit [DecidableEq D] in
theorem applyAdmission_does (ha : Consistent a) (hash : TokenHash D) (plan : ChainAdmissionPlan C)
    (fingerprint : D) (seq : SeqId) (hplan : PlannedFor a plan.chainId seq plan.status)
    (htomb : plan.status = .created → a.tombstones.get? plan.chainId = none) :
    Spec (· = a) (applyAdmission hash plan fingerprint) (fun _ s => Does none a s)
      fun _ s => Does none a s := by
  have hevicted : ∀ s, Evicted a s → Does none a s := fun s h =>
    h.does h.consistent ((Quiet.refl s).keepsChains none) rfl fun _ hs => hs
  refine Spec.bind ((evictAll_evicted ha plan.victimChainIds).conseq (fun _ h => h) (fun _ _ h => h)
    fun _ s h => hevicted s h) fun _ => Spec.intro fun s hs => ?_
  cases hstatus : plan.status with
  | created =>
    have hnew : a.records.get? plan.chainId = none := by
      rw [hstatus] at hplan
      cases hplan
      assumption
    refine (createRecord_creates s hash plan fingerprint).conseq (fun _ h => h) (fun _ t ht => ?_)
      fun _ t ht => ht ▸ hevicted s hs
    obtain ⟨now, hcreate⟩ := ht
    have hgone : s.tombstones.get? plan.chainId = none := by
      cases hget : s.tombstones.get? plan.chainId with
      | none => rfl
      | some stamp =>
        rcases hs.ofRecord hget with hold | hrec
        · rw [htomb hstatus] at hold
          cases hold
        · rw [hnew] at hrec
          cases hrec
    refine hs.does (hcreate.consistent hs.consistent hgone) hcreate.keepsChains hcreate.tombstones
      fun {c} hc ht => ?_
    rw [hcreate.records, Dict.get?_set] at ht
    split at ht
    · rw [‹c = _›, show (plan.newRecord hash fingerprint now).chainId = plan.chainId from rfl,
        hnew] at hc
      cases hc
    · exact ht
  | resumed =>
    refine (resumeRecord_updates s plan).conseq (fun _ h => h) (fun _ t ht => ?_)
      fun _ t ht => ht ▸ hevicted s hs
    obtain ⟨record, now, hupdate⟩ := ht
    refine hs.does (hupdate.consistent hs.consistent) hupdate.keepsChains hupdate.tombstones
      fun {c} _ ht => ?_
    rw [hupdate.records, Dict.get?_set] at ht
    split at ht
    · rw [‹c = _›, hupdate.found]
      rfl
    · exact ht

/-- An admission: the plan is applied to the state it was computed on. -/
def planAndApply (hash : TokenHash D) (chain : C) (seq : SeqId) (input : ChainInput D)
    (fingerprint applied : D) (needs : ChainRequirements) : IndexM C D (ChainRecord C D) := do
  let plan ← planAdmission hash chain seq input fingerprint needs
  applyAdmission hash plan applied

/-- A `created` plan is for a chain without a tombstone. -/
theorem planAdmission_created (a : ChainCacheIndex C D) (hash : TokenHash D) (chain : C)
    (seq : SeqId) (input : ChainInput D) (fingerprint : D) (needs : ChainRequirements) :
    Spec (· = a) (planAdmission hash chain seq input fingerprint needs)
      (fun plan _ => plan.status = .created → a.tombstones.get? chain = none)
      fun _ _ => True := by
  refine Spec.bind (R := fun out _ => out.1 = .created → a.tombstones.get? chain = none) ?_
    fun out => ?_
  · refine Spec.get_bind fun s hs => ?_
    subst hs
    split
    · refine Spec.raiseIf_bind (fun _ _ _ => trivial) fun htomb => ?_
      exact Spec.pure fun _ _ _ => Option.not_isSome_iff_eq_none.mp htomb
    · refine Spec.bind (R := fun _ _ => True) (Spec.trivial _) fun _ => Spec.pure fun _ _ h => ?_
      cases h
  · refine Spec.get_bind fun s hs => ?_
    split
    refine Spec.raiseIf_bind (fun _ _ _ => trivial) fun _ => Spec.pure fun _ _ => hs

theorem planAndApply_does (ha : Consistent a) (hash : TokenHash D) (chain : C) (seq : SeqId)
    (input : ChainInput D) (fingerprint applied : D) (needs : ChainRequirements) :
    Spec (· = a) (planAndApply hash chain seq input fingerprint applied needs) (fun _ s => Does none a s)
      fun _ s => Does none a s := by
  have hquiet : Spec (· = a) (planAdmission hash chain seq input fingerprint needs)
      (fun _ => Quiet a) fun _ => Quiet a :=
    (planAdmission_quiet a hash chain seq input fingerprint needs).pre fun s hs => hs ▸ Quiet.refl s
  refine Spec.bind (((planAdmission_spec a hash chain seq input fingerprint needs).and
    ((planAdmission_created a hash chain seq input fingerprint needs).and hquiet)).conseq
      (fun _ h => h) (fun _ _ h => h) fun _ s h => h.2.2.does ha none) fun plan => Spec.intro fun s hs => ?_
  obtain ⟨⟨rfl, hplan⟩, hcreated, -⟩ := hs
  refine applyAdmission_does ha hash plan applied seq ?_ fun h => ?_
  · rw [hplan.forChain]
    exact hplan.status
  · rw [hplan.forChain]
    exact hcreated h

end Admissions

end Operations

/-! ## Runs -/

/-- The operations of a run. -/
inductive ChainOp (C D : Type) where
  | admission (chain : C) (seq : SeqId) (input : ChainInput D) (fingerprint applied : D)
      (needs : ChainRequirements)
  | finish (chain : C) (tokens : List Int) (processed : Int) (slots : List Int) (rows : Int)
  | finishDigest (chain : C) (digest : D) (processed : Int) (slots : List Int) (rows : Int)
  | rememberProcessedTokens (chain : C) (seq : SeqId) (tokens : List Int) (processed : Int)
  | invalidate (chain : C)
  | evict (chain : C)

/-- The chain an operation invalidates. -/
def ChainOp.invalidated : ChainOp C D → Option C
  | .invalidate chain => some chain
  | _ => none

section Runs

variable [LinearOrder C] [DecidableEq D]

/-- The state an operation leaves, returning or raising. -/
def ChainOp.exec (hash : TokenHash D) : ChainOp C D → ChainCacheIndex C D → ChainCacheIndex C D
  | .admission chain seq input fingerprint applied needs =>
    stateAfter (ChainCacheIndex.planAndApply hash chain seq input fingerprint applied needs)
  | .finish chain tokens processed slots rows =>
    stateAfter (ChainCacheIndex.finish hash chain tokens processed slots rows)
  | .finishDigest chain digest processed slots rows =>
    stateAfter (ChainCacheIndex.finishDigest hash chain digest processed slots rows)
  | .rememberProcessedTokens chain seq tokens processed =>
    stateAfter (ChainCacheIndex.rememberProcessedTokens hash chain seq tokens processed)
  | .invalidate chain => stateAfter (ChainCacheIndex.invalidate chain)
  | .evict chain => stateAfter (ChainCacheIndex.evict chain)

/-- **One operation keeps the tables consistent and the chains**, returning or raising. -/
theorem ChainOp.does (hash : TokenHash D) {a : ChainCacheIndex C D} (ha : Consistent a) :
    ∀ op : ChainOp C D, Does op.invalidated a (op.exec hash a)
  | .admission chain seq input fingerprint applied needs =>
    (planAndApply_does ha hash chain seq input fingerprint applied needs).stateAfter rfl
  | .finish chain tokens processed slots rows =>
    (finish_does ha hash chain tokens processed slots rows).stateAfter rfl
  | .finishDigest chain digest processed slots rows => by
    refine Spec.stateAfter ((finishDigest_updates a hash chain digest processed slots rows).conseq
      (fun _ h => h) (fun _ s h => ?_) fun _ s h => h ▸ (Quiet.refl s).does (h ▸ ha) none) rfl
    obtain ⟨record, now, -, hupdate, -⟩ := h
    exact hupdate.does ha
  | .rememberProcessedTokens chain seq tokens processed =>
    (remember_does ha hash chain seq tokens processed).stateAfter rfl
  | .invalidate chain =>
    Spec.stateAfter ((invalidate_drops a chain).conseq (fun _ h => h)
      (fun _ _ h => ⟨h.consistent ha, h.keepsChains ha (Or.inr rfl)⟩)
      fun _ s h => h ▸ (Quiet.refl s).does (h ▸ ha) _) rfl
  | .evict chain =>
    Spec.stateAfter ((evict_drops a chain).conseq (fun _ h => h)
      (fun _ _ h => ⟨h.2.consistent ha, h.2.keepsChains ha (Or.inl h.1)⟩)
      fun _ s h => h ▸ (Quiet.refl s).does (h ▸ ha) none) rfl

omit [DecidableEq D] in
theorem new_consistent {maxTombstones : Int} {maxTokenHistoryTokens : Option Int}
    {a : ChainCacheIndex C D} (h : new maxTombstones maxTokenHistoryTokens = .ok a) :
    Consistent a := by
  unfold new at h
  split at h
  · cases h
  · split at h
    · cases h
    · rename_i hlimit
      cases h
      refine ⟨nofun, ⟨nofun, nofun⟩, nofun, Nat.zero_le _, List.Pairwise.nil, nofun, rfl, ?_⟩
      intro limit hmax
      obtain rfl : maxTokenHistoryTokens = some limit := hmax
      have : ¬ limit ≤ 0 := by simpa using hlimit
      show (0 : Int) ≤ limit
      omega

/-- **Whole runs**: from a new index, whatever operations are run and whether they return or raise,
the tables are consistent in every state reached, and the next operation loses no ACTIVE chain but
the one it invalidates, moves no processed boundary back and drops tombstones oldest first. -/
theorem consistent_of_run (hash : TokenHash D) {maxTombstones : Int}
    {maxTokenHistoryTokens : Option Int} {start a : ChainCacheIndex C D}
    (hstart : new maxTombstones maxTokenHistoryTokens = .ok start)
    (run : Reachable (ChainOp.exec hash) (fun _ _ => True) start a) :
    Consistent a ∧ ∀ op : ChainOp C D, KeepsChains op.invalidated a (op.exec hash a) := by
  have ha : Consistent a := run.invariant (new_consistent hstart)
    fun s op hs _ => (ChainOp.does hash hs op).consistent
  exact ⟨ha, fun op => (ChainOp.does hash ha op).keepsChains⟩

/-- One tombstone, eight history tokens: chain 1 is finished and evicted, chain 2 takes over its
sequence and is invalidated while ACTIVE, chain 3 is finished twice. -/
theorem consistent_of_run_three_chains :
    let start : ChainCacheIndex Nat (List Int) := { maxTombstones := 1, maxTokenHistoryTokens := some 8 }
    let hash : TokenHash (List Int) := { empty := [], digest := id, isSha256 := fun _ => true }
    let ops : List (ChainOp Nat (List Int)) :=
      [.admission 1 0 (.tokens [5, 6, 7]) [9] [9] {}, .finish 1 [5, 6, 7, 8] 3 [] 1,
        .rememberProcessedTokens 1 0 [5, 6, 7] 3, .evict 1,
        .admission 2 0 (.digest 2 []) [9] [9] {}, .evict 2, .invalidate 2,
        .admission 3 1 (.tokens [1]) [9] [9] {}, .finish 3 [1, 2] 2 [] 1, .finish 3 [1] 1 [] 1]
    (runAll (ChainOp.exec hash) start ops).tombstones.get? 2 = some 5 ∧
      Consistent (runAll (ChainOp.exec hash) start ops) ∧
      ∀ op : ChainOp Nat (List Int), KeepsChains op.invalidated
        (runAll (ChainOp.exec hash) start ops) (op.exec hash (runAll (ChainOp.exec hash) start ops)) :=
  ⟨by decide +kernel, consistent_of_run _ (show new 1 (some 8) = .ok _ from rfl)
    (Reachable.init.runAll ⟨trivial, trivial, trivial, trivial, trivial, trivial, trivial, trivial,
      trivial, trivial, trivial⟩)⟩

end Runs

end ChainCacheIndex

end SparseVllm
