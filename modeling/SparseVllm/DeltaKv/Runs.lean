import SparseVllm.DeltaKv.Cover

/-!
# Full-layer KIVI storage over runs

`KiviCache.Stored` adds the rows to `Kept`: a row serves one request, a free row is empty, a row in
use is not. Each method returns in a state that satisfies it again, and says which rows have been
prefilled; so does a step (`KiviOp.run_stored`). In every reachable state a prefilled row is covered
once (`kivi_covers`).
-/

namespace SparseVllm

open SparseVllm.Lib KiviCache

variable {g : KiviGeometry} {c c' : KiviCache}

namespace KiviCache

/-- What holds between the steps. -/
structure Stored (g : KiviGeometry) (c : KiviCache) : Prop where
  kept : Kept g c
  rows_inj : ∀ {seq seq' row}, c.seqIdToRow seq = some row → c.seqIdToRow seq' = some row → seq = seq'
  freeRows_nodup : c.freeRows.Nodup
  idle : ∀ {seq row}, c.seqIdToRow seq = some row → row ∉ c.freeRows
  unused : ∀ {row}, (∀ seq, c.seqIdToRow seq ≠ some row) → c.rowSeqLens row = 0 ∧ c.promptLens row = 0
  used : ∀ {seq row}, c.seqIdToRow seq = some row → 0 < c.rowSeqLens row

theorem stored_initial (numSlots numBlocks numRows : Nat) :
    Stored g (initial numSlots numBlocks numRows) where
  kept := kept_initial numSlots numBlocks numRows
  rows_inj h := by cases h
  freeRows_nodup := List.nodup_range
  idle h := by cases h
  unused _ := ⟨rfl, rfl⟩
  used h := by cases h

/-- The request has its row, and its prompt has been prefilled. -/
def PrefilledSeq (c : KiviCache) (seq : SeqId) : Prop :=
  ∃ row, c.seqIdToRow seq = some row ∧ c.Prefilled row

theorem SameRows.prefilled (h : SameRows c c') {row : Nat} : c'.Prefilled row ↔ c.Prefilled row := by
  unfold Prefilled
  rw [h.rowSeqLens, h.promptLens]

theorem SameRows.prefilledSeq (h : SameRows c c') {seq : SeqId} :
    c'.PrefilledSeq seq ↔ c.PrefilledSeq seq := by
  unfold PrefilledSeq
  rw [h.seqIdToRow]
  exact exists_congr fun row => and_congr_right fun _ => h.prefilled

theorem Stored.sameRows (h : Stored g c) (hsame : SameRows c c') (hkept : Kept g c') :
    Stored g c' := by
  refine ⟨hkept, ?_, ?_, ?_, ?_, ?_⟩
  · rw [hsame.seqIdToRow]
    exact h.rows_inj
  · rw [hsame.freeRows]
    exact h.freeRows_nodup
  · rw [hsame.seqIdToRow, hsame.freeRows]
    exact h.idle
  · rw [hsame.seqIdToRow, hsame.rowSeqLens, hsame.promptLens]
    exact h.unused
  · rw [hsame.seqIdToRow, hsame.rowSeqLens]
    exact h.used

end KiviCache

/-! ## Evictions -/

/-- **The evictions after a step keep the storage**, when the rows of the step have been
prefilled. -/
theorem kiviEvict_keeps (h : Stored g c) {seqs : List SeqId}
    (hprefilled : ∀ seq ∈ seqs, c.PrefilledSeq seq) :
    Returns (· = c) (kiviEvict g seqs) fun _ c' => Stored g c' ∧ SameRows c c' := by
  have hloop : Returns (fun s => (Stored g s ∧ SameRows c s) ∧ ∀ seq ∈ seqs, c.PrefilledSeq seq)
      (kiviEvict g seqs) fun _ s => (Stored g s ∧ SameRows c s) ∧ ∀ seq ∈ [], c.PrefilledSeq seq := by
    refine Spec.forEach (I := fun rest s => (Stored g s ∧ SameRows c s) ∧
      ∀ seq ∈ rest, c.PrefilledSeq seq) (fun seq rest => ?_) seqs
    refine Spec.get_bind fun t ht => ?_
    obtain ⟨⟨hstored, hsame⟩, hall⟩ := ht
    obtain ⟨row, hrow, hpre⟩ := hsame.prefilledSeq.mpr (hall seq List.mem_cons_self)
    rw [hrow]
    refine (kiviEvictRow_keeps hstored.kept hpre).post fun _ u hu => ?_
    exact ⟨⟨hstored.sameRows hu.2 hu.1, hsame.trans hu.2⟩,
      fun q hq => hall q (List.mem_cons_of_mem _ hq)⟩
  refine Spec.conseq hloop ?_ (fun _ _ hs => hs.1) fun _ _ _ => trivial
  rintro _ rfl
  exact ⟨⟨h, .refl _⟩, hprefilled⟩

/-! ## Prompts -/

theorem allocateFullPositions_takes (row : Nat) (positions : List Nat) :
    Returns (· = c) (allocateFullPositions row positions) fun _ c' => ∃ rest slots,
      c.freeSlots = rest ++ slots ∧ slots.length = positions.length ∧
        c' = { c with
          freeSlots := rest
          slotsMap := assign c.slotsMap ((positions.map fun i => (row, i)).zip
            (slots.map fun slot : Nat => (slot : Int))) } := by
  refine Spec.get_bind fun t ht => ?_
  subst ht
  refine Spec.raiseIf_bind (fun _ _ _ => trivial) fun hroom u _ => ?_
  refine ⟨t.freeSlots.take (t.freeSlots.length - positions.length), _,
    (List.take_append_drop ..).symm, ?_, rfl⟩
  rw [List.length_drop]
  omega

/-- `prepareKiviPlan` leaves the planned row. -/
theorem prepareKiviPlan_plans (row totalLen : Nat) :
    Returns (· = c) (prepareKiviPlan g row totalLen) fun _ c' =>
      ∃ restSlots slots restBlocks blocks, c.freeSlots = restSlots ++ slots ∧
        slots.length = (keepPositions g totalLen).length ∧ c.freeBlocks = restBlocks ++ blocks ∧
        blocks.length = plannedGroups g totalLen ∧
        c' = planRow g row totalLen restSlots slots restBlocks blocks c := by
  have hplanned : (totalLen - min g.sinkKeepTokens totalLen - g.residualLength) / g.groupSize =
      plannedGroups g totalLen := by
    unfold plannedGroups
    rw [show totalLen - min g.sinkKeepTokens totalLen = totalLen - g.sinkKeepTokens by omega]
  have hcount : (strided (min g.sinkKeepTokens totalLen) (min g.sinkKeepTokens totalLen +
      (totalLen - min g.sinkKeepTokens totalLen - g.residualLength) / g.groupSize * g.groupSize)
      g.groupSize).length = plannedGroups g totalLen := by
    unfold strided
    rw [List.length_map, List.length_range, Nat.add_sub_cancel_left, hplanned,
      Nat.add_sub_assoc g.group_pos, Nat.mul_comm, Nat.mul_add_div g.group_pos,
      Nat.div_eq_of_lt (Nat.sub_lt g.group_pos Nat.one_pos), Nat.add_zero]
  refine Spec.bind (R := fun _ u => u = { c with
    slotsMap := fun r i => if r = row ∧ i < totalLen then -1 else c.slotsMap r i })
    (Spec.modify fun u hu => by rw [hu]) fun _ => ?_
  refine Spec.bind (allocateFullPositions_takes row _) fun _ => Spec.intro fun u hu => ?_
  obtain ⟨restSlots, slots, hslots, hlen, rfl⟩ := hu
  refine Spec.bind (allocateKiviBlocks_takes _) fun blocks => Spec.intro fun u hu => ?_
  obtain ⟨restBlocks, hblocks, hsize, rfl⟩ := hu
  intro v hv
  subst hv
  rw [hplanned] at hlen ⊢
  exact ⟨restSlots, slots, restBlocks, blocks, hslots, hlen, hblocks, hsize.trans hcount, rfl⟩

theorem checkKiviRow_checks (seq : SeqId) (start : Nat) :
    Returns (· = c) (checkKiviRow seq start) fun _ c' =>
      c' = c ∧ ∀ row, c.seqIdToRow seq = some row → c.rowSeqLens row = start := by
  refine Spec.get_bind fun t ht => ?_
  subst ht
  cases hrow : t.seqIdToRow seq with
  | none => exact Spec.pure fun u hu => ⟨hu, fun row hr => by cases hr⟩
  | some row =>
    refine (Spec.raiseIf fun _ _ _ => trivial).post fun _ u hu => ⟨hu.1, ?_⟩
    rintro _ ⟨⟩
    exact not_not.mp hu.2

theorem getKiviRow_mapped {seq : SeqId} {row : Nat} (hrow : c.seqIdToRow seq = some row) :
    getKiviRow seq c = .ok row c := by
  unfold getKiviRow
  rw [get_bind, hrow]
  rfl

/-- A request without a row takes a free one. -/
theorem getKiviRow_takes {seq : SeqId} (hrow : c.seqIdToRow seq = none) :
    Returns (· = c) (getKiviRow seq) fun row c' => ∃ rest, c.freeRows = row :: rest ∧
      c' = { c with seqIdToRow := Function.update c.seqIdToRow seq (some row), freeRows := rest } := by
  refine Spec.get_bind fun t ht => ?_
  subst ht
  rw [hrow]
  cases hfree : t.freeRows with
  | nil => exact fun _ _ => trivial
  | cons row rest =>
    rintro u -
    exact ⟨rest, rfl, rfl⟩

/-- What a chunk of a prompt leaves: the storage, and the other requests as they were. -/
structure AfterChunk (g : KiviGeometry) (c : KiviCache) (seq : SeqId) (c' : KiviCache) : Prop where
  stored : Stored g c'
  others : ∀ q ≠ seq, c.PrefilledSeq q → c'.PrefilledSeq q

namespace KiviCache

/-- A row of a request becomes longer, within what is planned for it. -/
theorem Stored.lengthen (h : Stored g c) {seq : SeqId} {row len : Nat}
    (hrow : c.seqIdToRow seq = some row) (hpos : 0 < len)
    (hlen : max len (c.promptLens row) = c.extent row) :
    AfterChunk g c seq { c with rowSeqLens := Function.update c.rowSeqLens row len } := by
  have hother : ∀ {q r}, q ≠ seq → c.seqIdToRow q = some r → r ≠ row := by
    rintro q r hq hr rfl
    exact hq (h.rows_inj hr hrow)
  refine ⟨⟨h.kept.lengthen hlen, h.rows_inj, h.freeRows_nodup, h.idle, fun {r} hr => ?_,
    fun {q r} hr => ?_⟩, fun q hq hpre => ?_⟩
  · have hne : r ≠ row := by
      rintro rfl
      exact hr seq hrow
    exact ⟨(Function.update_of_ne hne ..).trans (h.unused hr).1, (h.unused hr).2⟩
  · by_cases hq : r = row
    · subst hq
      show 0 < Function.update c.rowSeqLens r len r
      rw [Function.update_self]
      exact hpos
    · exact (h.used hr).trans_eq (Function.update_of_ne hq ..).symm
  · obtain ⟨r, hr, hpre⟩ := hpre
    refine ⟨r, hr, ?_⟩
    unfold Prefilled at hpre ⊢
    exact hpre.trans_eq (Function.update_of_ne (hother hq hr) ..).symm

end KiviCache

/-- The first chunk of a prompt: a free row is planned and grows by the chunk. -/
theorem prefillKiviChunk_first (h : Stored g c) {seq : SeqId} {totalLen size : Nat}
    (hsize : 0 < size) (hle : size ≤ totalLen) :
    Returns (· = c) (prefillKiviChunk g seq totalLen 0 size) fun _ c' =>
      AfterChunk g c seq c' ∧ (size = totalLen → c'.PrefilledSeq seq) := by
  refine Spec.bind (checkKiviRow_checks seq 0) fun _ => Spec.intro fun t ht => ?_
  obtain ⟨rfl, hfresh⟩ := ht
  have hnone : t.seqIdToRow seq = none := by
    cases hrow : t.seqIdToRow seq with
    | none => rfl
    | some row => exact absurd (hfresh row hrow) (h.used hrow).ne'
  refine Spec.bind (getKiviRow_takes hnone) fun row => Spec.intro fun u hu => ?_
  obtain ⟨rest, hfree, rfl⟩ := hu
  have hmem : row ∈ t.freeRows := hfree ▸ List.mem_cons_self
  have hidle : ∀ q, t.seqIdToRow q ≠ some row := fun q hq => h.idle hq hmem
  obtain ⟨hlen, hprompt⟩ := h.unused hidle
  obtain ⟨hout, hrest⟩ := List.nodup_cons.mp (hfree ▸ h.freeRows_nodup)
  have hkept : Kept g { t with
      seqIdToRow := Function.update t.seqIdToRow seq (some row), freeRows := rest } :=
    h.kept.congr (fun r => ⟨rfl, rfl, rfl, rfl⟩) rfl rfl rfl
  rw [if_pos rfl]
  refine Spec.bind (prepareKiviPlan_plans row totalLen) fun _ => Spec.intro fun u hu => ?_
  obtain ⟨restSlots, slots, restBlocks, blocks, hslots, hcount, hblocks, hcount', rfl⟩ := hu
  have hplanned := hkept.planRow hlen hprompt hslots hcount hblocks hcount'
  have hextent : (planRow g row totalLen restSlots slots restBlocks blocks { t with
      seqIdToRow := Function.update t.seqIdToRow seq (some row), freeRows := rest }).extent row =
      totalLen := planRow_extent hlen
  rintro v rfl
  have hmapped : ∀ {q r}, Function.update t.seqIdToRow seq (some row) q = some r →
      q = seq ∧ r = row ∨ q ≠ seq ∧ t.seqIdToRow q = some r ∧ r ≠ row := by
    intro q r hr
    by_cases hq : q = seq
    · subst hq
      rw [Function.update_self] at hr
      exact Or.inl ⟨rfl, (Option.some.inj hr).symm⟩
    · rw [Function.update_of_ne hq] at hr
      refine Or.inr ⟨hq, hr, ?_⟩
      rintro rfl
      exact hidle q hr
  have hself : Function.update t.rowSeqLens row (t.rowSeqLens row + size) row = size := by
    rw [Function.update_self, hlen, Nat.zero_add]
  have hother : ∀ {r}, r ≠ row →
      Function.update t.rowSeqLens row (t.rowSeqLens row + size) r = t.rowSeqLens r ∧
        Function.update t.promptLens row totalLen r = t.promptLens r :=
    fun hr => ⟨Function.update_of_ne hr .., Function.update_of_ne hr ..⟩
  refine ⟨⟨⟨hplanned.lengthen ?_, fun {q q' r} hq hq' => ?_, hrest, fun {q r} hq => ?_,
    fun {r} hr => ?_, fun {q r} hq => ?_⟩, fun q hq hpre => ?_⟩, fun hall => ?_⟩
  · rw [hextent]
    show max (t.rowSeqLens row + size) (Function.update t.promptLens row totalLen row) = totalLen
    rw [Function.update_self, hlen]
    omega
  · rcases hmapped hq with ⟨rfl, rfl⟩ | ⟨-, hq, hr⟩
    · rcases hmapped hq' with ⟨rfl, -⟩ | ⟨-, -, hr⟩
      · rfl
      · exact absurd rfl hr
    · rcases hmapped hq' with ⟨-, rfl⟩ | ⟨-, hq', -⟩
      · exact absurd rfl hr
      · exact h.rows_inj hq hq'
  · rcases hmapped hq with ⟨-, rfl⟩ | ⟨-, hq, -⟩
    · exact hout
    · exact fun hin => h.idle hq (hfree ▸ List.mem_cons_of_mem _ hin)
  · have hne : r ≠ row := by
      rintro rfl
      exact hr seq (Function.update_self ..)
    have hold : t.rowSeqLens r = 0 ∧ t.promptLens r = 0 := h.unused fun q hq => by
      have hseq : q ≠ seq := by
        rintro rfl
        rw [hnone] at hq
        cases hq
      exact hr q ((Function.update_of_ne hseq ..).trans hq)
    exact ⟨(hother hne).1.trans hold.1, (hother hne).2.trans hold.2⟩
  · rcases hmapped hq with ⟨-, rfl⟩ | ⟨-, hq, hr⟩
    · exact hsize.trans_eq hself.symm
    · exact (h.used hq).trans_eq (hother hr).1.symm
  · obtain ⟨r, hr, hpre⟩ := hpre
    have hne : r ≠ row := by
      rintro rfl
      exact hidle q hr
    refine ⟨r, (Function.update_of_ne hq ..).trans hr, ?_⟩
    unfold Prefilled at hpre ⊢
    exact ((hother hne).2.trans_le hpre).trans_eq (hother hne).1.symm
  · refine ⟨row, Function.update_self .., ?_⟩
    show Function.update t.promptLens row totalLen row ≤ _
    rw [Function.update_self]
    exact hall.symm.le.trans_eq hself.symm

/-- A later chunk of a prompt. -/
theorem prefillKiviChunk_next (h : Stored g c) {seq : SeqId} {row totalLen start size : Nat}
    (hstart : start ≠ 0) (hrow : c.seqIdToRow seq = some row)
    (hle : start + size ≤ c.promptLens row) :
    Returns (· = c) (prefillKiviChunk g seq totalLen start size) fun _ c' => Stored g c' := by
  refine Spec.bind (checkKiviRow_checks seq start) fun _ => Spec.intro fun t ht => ?_
  obtain ⟨rfl, hlen⟩ := ht
  refine Spec.bind (Spec.of_ok (getKiviRow_mapped hrow)) fun r => Spec.intro fun u hu => ?_
  obtain ⟨rfl, rfl⟩ := hu
  rw [if_neg hstart]
  rintro v rfl
  refine (h.lengthen hrow ?_ ?_).stored
  · have := h.used hrow
    omega
  · unfold extent
    rw [hlen _ hrow]
    omega

/-- The prompts of a full-staging prefill. -/
theorem prefillKiviChunks_keep {prompts : List (SeqId × Nat)} (hpos : ∀ p ∈ prompts, 0 < p.2)
    (h : Stored g c) :
    Returns (· = c) (forEach prompts fun prompt => prefillKiviChunk g prompt.1 prompt.2 0 prompt.2)
      fun _ c' => Stored g c' ∧ (∀ seq, c.PrefilledSeq seq → c'.PrefilledSeq seq) ∧
        ∀ p ∈ prompts, c'.PrefilledSeq p.1 := by
  induction prompts generalizing c with
  | nil =>
    refine Spec.pure fun u hu => ?_
    subst hu
    exact ⟨h, fun _ hq => hq, fun _ hp => absurd hp List.not_mem_nil⟩
  | cons prompt prompts ih =>
    obtain ⟨hfirst, hrest⟩ := List.forall_mem_cons.mp hpos
    unfold forEach
    refine Spec.bind (prefillKiviChunk_first h hfirst le_rfl) fun _ => Spec.intro fun t ht => ?_
    obtain ⟨hafter, hself⟩ := ht
    refine (ih hrest hafter.stored).post fun _ u hu => ?_
    obtain ⟨hstored, hothers, hall⟩ := hu
    refine ⟨hstored, fun q hq => hothers q ?_, List.forall_mem_cons.mpr ⟨?_, hall⟩⟩
    · by_cases hseq : q = prompt.1
      · subst hseq
        exact hself rfl
      · exact hafter.others q hseq hq
    · exact hothers _ (hself rfl)

/-! ## Decode steps -/

/-- **A decode step keeps the storage**, and its rows stay prefilled. -/
theorem decodeKivi_keeps (h : Stored g c) {seqs : List SeqId} (hnd : seqs.Nodup)
    (hprefilled : ∀ seq ∈ seqs, c.PrefilledSeq seq) :
    Returns (· = c) (decodeKivi seqs) fun _ c' =>
      Stored g c' ∧ ∀ seq ∈ seqs, c'.PrefilledSeq seq := by
  have hrow : ∀ seq ∈ seqs, c.seqIdToRow seq = some ((c.seqIdToRow seq).getD 0) ∧
      c.Prefilled ((c.seqIdToRow seq).getD 0) := by
    intro seq hseq
    obtain ⟨row, hrow, hpre⟩ := hprefilled seq hseq
    rw [hrow]
    exact ⟨rfl, hpre⟩
  have hrows : mapEach seqs getKiviRow c =
      .ok (seqs.map fun seq => (c.seqIdToRow seq).getD 0) c :=
    mapEach_ok fun seq hseq => getKiviRow_mapped (hrow seq hseq).1
  set rows := seqs.map fun seq => (c.seqIdToRow seq).getD 0 with hdef
  have hdistinct : rows.Nodup := by
    refine List.Nodup.map_on (fun q hq q' hq' heq => ?_) hnd
    exact h.rows_inj (hrow q hq).1 ((hrow q' hq').1.trans (congrArg some heq.symm))
  have hpre : ∀ row ∈ rows, c.Prefilled row := by
    intro row hin
    obtain ⟨seq, hseq, rfl⟩ := List.mem_map.mp hin
    exact (hrow seq hseq).2
  refine Spec.get_bind fun t ht => ?_
  subst ht
  refine Spec.raiseIf_bind (fun _ _ _ => trivial) fun hroom => ?_
  refine Spec.bind (Spec.of_ok hrows) fun out => Spec.intro fun u hu => ?_
  obtain ⟨rfl, rfl⟩ := hu
  rintro v rfl
  have hlen : (v.freeSlots.drop (v.freeSlots.length - seqs.length)).length = rows.length := by
    rw [List.length_drop, hdef, List.length_map]
    omega
  have hkept := h.kept.appendRows hdistinct hpre (List.take_append_drop ..).symm hlen
  have hgrown : ∀ row, v.rowSeqLens row ≤ if row ∈ rows then v.rowSeqLens row + 1 else v.rowSeqLens row := by
    intro row
    split
    · exact Nat.le_succ _
    · exact le_rfl
  refine ⟨⟨hkept, h.rows_inj, h.freeRows_nodup, h.idle, fun {row} hunused => ?_,
    fun {seq row} hseq => ?_⟩, fun seq hseq => ?_⟩
  · refine ⟨?_, (h.unused hunused).2⟩
    have hout : row ∉ rows := by
      intro hin
      obtain ⟨seq, hseq, rfl⟩ := List.mem_map.mp hin
      exact hunused seq (hrow seq hseq).1
    exact (if_neg hout).trans (h.unused hunused).1
  · exact (h.used hseq).trans_le (hgrown row)
  · obtain ⟨hmap, hpre⟩ := hrow seq hseq
    refine ⟨_, hmap, ?_⟩
    unfold Prefilled at hpre
    exact hpre.trans (hgrown _)

/-! ## The end of a request -/

/-- **The end of a request keeps the storage**. -/
theorem freeKiviSeq_keeps (h : Stored g c) (seq : SeqId) :
    Returns (· = c) (freeKiviSeq seq) fun _ c' => Stored g c' := by
  refine Spec.get_bind fun t ht => ?_
  subst ht
  cases hrow : t.seqIdToRow seq with
  | none => exact fun _ _ => trivial
  | some row =>
    have hidle : row ∉ t.freeRows := h.idle hrow
    refine Spec.bind (R := fun _ u => u = { t with
      seqIdToRow := Function.update t.seqIdToRow seq none }) ?_ fun _ => ?_
    · rintro u -
      rfl
    refine Spec.raiseIf_bind (fun _ _ _ => trivial) fun _ => ?_
    rintro v rfl
    have hmapped : ∀ {q r}, Function.update t.seqIdToRow seq none q = some r →
        t.seqIdToRow q = some r ∧ r ≠ row := by
      intro q r hr
      have hq : q ≠ seq := by
        rintro rfl
        rw [Function.update_self] at hr
        cases hr
      rw [Function.update_of_ne hq] at hr
      refine ⟨hr, ?_⟩
      rintro rfl
      exact hq (h.rows_inj hr hrow)
    have hreleased : Kept g (releaseRow row (t.rowSeqLens row) t) :=
      h.kept.releaseRow (le_max_left ..)
    refine ⟨hreleased.congr (fun r => ⟨rfl, rfl, rfl, rfl⟩) rfl rfl rfl, fun hq hq' => ?_, ?_,
      fun {q r} hq => ?_, fun {r} hr => ?_, fun {q r} hq => ?_⟩
    · exact h.rows_inj (hmapped hq).1 (hmapped hq').1
    · refine List.nodup_append'.mpr ⟨h.freeRows_nodup, List.nodup_singleton row, ?_⟩
      exact List.disjoint_singleton.mpr hidle
    · intro hin
      rcases List.mem_append.mp hin with hin | hin
      · exact h.idle (hmapped hq).1 hin
      · exact (hmapped hq).2 (List.mem_singleton.mp hin)
    · by_cases hself : r = row
      · subst hself
        exact ⟨Function.update_self .., Function.update_self ..⟩
      · have hold : t.rowSeqLens r = 0 ∧ t.promptLens r = 0 := h.unused fun q hq => by
          have hseq : q ≠ seq := by
            rintro rfl
            rw [hrow] at hq
            exact hself (Option.some.inj hq).symm
          exact hr q ((Function.update_of_ne hseq ..).trans hq)
        exact ⟨(Function.update_of_ne hself ..).trans hold.1,
          (Function.update_of_ne hself ..).trans hold.2⟩
    · exact (h.used (hmapped hq).1).trans_eq (Function.update_of_ne (hmapped hq).2 ..).symm

/-! ## Runs -/

/-- **A step keeps the storage**. -/
theorem KiviOp.run_stored (h : Stored g c) (op : KiviOp) (hscheduled : op.Scheduled c) :
    Returns (· = c) (op.run g) fun _ c' => Stored g c' := by
  cases op with
  | prefill prompts =>
    refine Spec.bind (prefillKiviChunks_keep hscheduled h) fun _ => Spec.intro fun t ht => ?_
    obtain ⟨hstored, -, hall⟩ := ht
    refine (kiviEvict_keeps hstored fun seq hseq => ?_).post fun _ u hu => hu.1
    obtain ⟨prompt, hprompt, rfl⟩ := List.mem_map.mp hseq
    exact hall prompt hprompt
  | offload seq totalLen start size =>
    obtain ⟨hsize, hchunk⟩ := hscheduled
    split at hchunk
    · rename_i hstart
      subst hstart
      exact (prefillKiviChunk_first h hsize hchunk).post fun _ u hu => hu.1.stored
    · rename_i hstart
      obtain ⟨row, hrow, hle⟩ := hchunk
      exact prefillKiviChunk_next h hstart hrow hle
  | decode seqs =>
    obtain ⟨hnd, hall⟩ := hscheduled
    refine Spec.bind (decodeKivi_keeps h hnd hall) fun _ => Spec.intro fun t ht => ?_
    exact (kiviEvict_keeps ht.1 ht.2).post fun _ u hu => hu.1
  | free seq => exact freeKiviSeq_keeps h seq

variable {numSlots numBlocks numRows : Nat}

theorem stored_of_run (run : KiviReachable g numSlots numBlocks numRows c) : Stored g c := by
  refine run.invariant (stored_initial numSlots numBlocks numRows) fun t op ht hallowed => ?_
  have hstep := op.run_stored ht hallowed.1 t rfl
  cases hrun : op.run g t with
  | ok a u =>
    rw [hrun] at hstep
    rw [stateAfter_ok hrun]
    exact hstep
  | error e u =>
    have hraises : raises (op.run g) t = some e := raises_eq_some.mpr ⟨u, hrun⟩
    have hnone := hallowed.2
    rw [hraises] at hnone
    cases hnone

namespace KiviCache

/-- Every position of a row is stored once: in a raw slot, or in a block that reaches over it. -/
def StoredOnce (g : KiviGeometry) (c : KiviCache) (row : Nat) : Prop :=
  ∀ i < c.rowSeqLens row,
    ((∃ slot : Nat, c.slotsMap row i = slot) ∧ c.blockSlotsMap row i = -1) ∨
      (c.slotsMap row i = -1 ∧ ∃ block : Nat, c.blockSlotsMap row i = block ∧
        c.blockStartPos block ≤ i ∧ (i : Int) < c.blockStartPos block + g.groupSize)

/-- The quantised positions of a row are whole groups from the sink on, behind the residual
window. -/
def GroupedFromSink (g : KiviGeometry) (c : KiviCache) (row : Nat) : Prop :=
  ∃ n, (∀ i < c.rowSeqLens row,
      0 ≤ c.blockSlotsMap row i ↔ g.sinkKeepTokens ≤ i ∧ i < groupStart g n) ∧
    (n = 0 ∨ groupStart g n + g.residualLength ≤ c.rowSeqLens row) ∧
    ∀ k < n, ∃ block : Nat, c.blockStartPos block = groupStart g k ∧
      ∀ o < g.groupSize, c.blockSlotsMap row (groupStart g k + o) = block

/-- No two positions of rows in use share a raw slot. -/
def SlotsApart (c : KiviCache) : Prop :=
  ∀ {seq seq' row row' i i'} {slot : Nat}, c.seqIdToRow seq = some row →
    c.seqIdToRow seq' = some row' → i < c.rowSeqLens row → i' < c.rowSeqLens row' →
    c.slotsMap row i = slot → c.slotsMap row' i' = slot → row = row' ∧ i = i'

/-- No two groups of rows in use share a block. -/
def BlocksApart (g : KiviGeometry) (c : KiviCache) : Prop :=
  ∀ {seq seq' row row' i i'} {block : Nat}, c.seqIdToRow seq = some row →
    c.seqIdToRow seq' = some row' → i < c.rowSeqLens row → i' < c.rowSeqLens row' →
    c.blockSlotsMap row i = block → c.blockSlotsMap row' i' = block → row = row' ∧
      (i - g.sinkKeepTokens) / g.groupSize = (i' - g.sinkKeepTokens) / g.groupSize

theorem Stored.storedOnce (h : Stored g c) (row : Nat) : StoredOnce g c row := by
  intro i hi
  have hrow := h.kept.stored row
  rcases rawAt_or_packed g (hi.trans_le (le_max_left _ (c.promptLens row))) with
    hraw | ⟨k, hk, o, ho, rfl⟩
  · exact Or.inl (hrow.raw hraw)
  · obtain ⟨block, hstart, hall⟩ := hrow.packed hk
    refine Or.inr ⟨(hall o ho).1, block, (hall o ho).2, ?_, ?_⟩
    · rw [hstart]
      omega
    · rw [hstart]
      omega

theorem Stored.grouped (h : Stored g c) {row : Nat} (hprefilled : c.Prefilled row) :
    GroupedFromSink g c row := by
  have hrow := h.kept.stored row
  have hextent : c.extent row = c.rowSeqLens row := max_eq_left hprefilled
  refine ⟨c.groups g row, fun i hi => ⟨fun hblock => ?_, fun hi' => ?_⟩, ?_, fun k hk => ?_⟩
  · obtain ⟨k, hk, o, ho, rfl, -⟩ :=
      hrow.packed_of_block (Int.toNat_of_nonneg hblock).symm
    have hlast : groupStart g (k + 1) ≤ groupStart g (c.groups g row) := groupStart_mono hk
    have hfirst : g.sinkKeepTokens ≤ groupStart g k := Nat.le_add_right _ _
    rw [groupStart_succ] at hlast
    omega
  · rcases rawAt_or_packed g (hi.trans_eq hextent.symm) with hraw | ⟨k, hk, o, ho, rfl⟩
    · have := hraw.2
      omega
    · obtain ⟨block, -, hall⟩ := hrow.packed hk
      rw [(hall o ho).2]
      exact Int.natCast_nonneg block
  · rw [← hextent]
    exact hrow.behind
  · obtain ⟨block, hstart, hall⟩ := hrow.packed hk
    exact ⟨block, hstart, fun o ho => (hall o ho).2⟩

theorem Stored.slotsApart (h : Stored g c) : SlotsApart c := by
  intro seq seq' row row' i i' slot _ _ hi hi' hslot hslot'
  have hheld : ∀ {row i}, i < c.rowSeqLens row → c.slotsMap row i = slot →
      rawHeld g c (row, i) = some slot := by
    intro row i hi hslot
    have hraw := (h.kept.stored row).rawAt_of_slot (hi.trans_le (le_max_left _ _)) hslot
    exact rawHeld_eq_some.mpr ⟨hraw, by rw [hslot, Int.toNat_natCast]⟩
  exact Prod.mk.inj (h.kept.slots.apart (hheld hi hslot) (hheld hi' hslot'))

theorem Stored.blocksApart (h : Stored g c) : BlocksApart g c := by
  intro seq seq' row row' i i' block _ _ _ _ hblock hblock'
  obtain ⟨k, -, o, ho, rfl, hheld, -⟩ := (h.kept.stored row).packed_of_block hblock
  obtain ⟨k', -, o', ho', rfl, hheld', -⟩ := (h.kept.stored row').packed_of_block hblock'
  obtain ⟨hrow, rfl⟩ := Prod.mk.inj (h.kept.blocks.apart hheld hheld')
  have hgroup : ∀ {o}, o < g.groupSize →
      (groupStart g k + o - g.sinkKeepTokens) / g.groupSize = k := by
    intro o ho
    unfold groupStart
    rw [Nat.add_assoc, Nat.add_sub_cancel_left, Nat.mul_comm, Nat.mul_add_div g.group_pos,
      Nat.div_eq_of_lt ho, Nat.add_zero]
  exact ⟨hrow, (hgroup ho).trans (hgroup ho').symm⟩

end KiviCache

/-- **Full-layer KIVI storage covers every token once**, in every state of every run. -/
theorem kivi_covers (run : KiviReachable g numSlots numBlocks numRows c) :
    (∀ seq row, c.seqIdToRow seq = some row → c.Prefilled row →
      StoredOnce g c row ∧ GroupedFromSink g c row) ∧ SlotsApart c ∧ BlocksApart g c := by
  have h := stored_of_run run
  exact ⟨fun seq row _ hprefilled => ⟨h.storedOnce row, h.grouped hprefilled⟩, h.slotsApart,
    h.blocksApart⟩

/-! ### A prompt of eight tokens -/

/-- One sink token, groups of two, two residual tokens. -/
def smallKivi : KiviGeometry where
  sinkKeepTokens := 1
  groupSize := 2
  residualLength := 2
  group_pos := Nat.zero_lt_two
  residual_pos := Nat.zero_lt_two

/-- A prefill and two decode steps: the second packs a third group. -/
def kiviRun : List KiviOp := [.prefill [(1, 8)], .decode [1], .decode [1]]

/-- The states of the run. -/
def kiviState (steps : Nat) : KiviCache :=
  runAll (fun op => stateAfter (KiviOp.run smallKivi op)) (.initial 12 6 2) (kiviRun.take steps)

theorem kivi_covers_kiviRun : StoredOnce smallKivi (kiviState 3) 0 ∧
    GroupedFromSink smallKivi (kiviState 3) 0 ∧ (kiviState 3).quantizedLens 0 = 7 := by
  have hprefilled : ∀ steps, 0 < steps → steps ≤ 3 → (kiviState steps).PrefilledSeq 1 := by
    intro steps hpos hle
    refine ⟨0, ?_, ?_⟩
    · interval_cases steps <;> rfl
    · unfold KiviCache.Prefilled
      interval_cases steps <;> decide
  have hscheduled : ∀ steps, 0 < steps → steps ≤ 3 →
      (KiviOp.decode [1]).Scheduled (kiviState steps) := by
    refine fun steps hpos hle => ⟨List.nodup_singleton 1, fun seq hseq => ?_⟩
    rw [List.mem_singleton.mp hseq]
    exact hprefilled steps hpos hle
  have hfirst : (KiviOp.prefill [(1, 8)]).Scheduled (.initial 12 6 2) := by
    intro prompt hprompt
    rw [List.mem_singleton.mp hprompt]
    decide
  have run : KiviReachable smallKivi 12 6 2 (kiviState 3) :=
    Reachable.runAll .init ⟨⟨hfirst, by decide⟩, ⟨hscheduled 1 (by decide) (by decide), by decide⟩,
      ⟨hscheduled 2 (by decide) (by decide), by decide⟩, trivial⟩
  obtain ⟨row, hrow, hpre⟩ := hprefilled 3 (by decide) (by decide)
  have hzero : (kiviState 3).seqIdToRow 1 = some 0 := rfl
  obtain rfl := Option.some.inj (hzero.symm.trans hrow)
  obtain ⟨honce, hgrouped⟩ := (kivi_covers run).1 1 0 hrow hpre
  exact ⟨honce, hgrouped, rfl⟩

end SparseVllm
