import SparseVllm.Chain.IndexSpec
import SparseVllm.Chain.Runtime

/-!
# The ledger of the resident rows

The layers agree on how many rows are free and which sequences hold one, every IDLE chain holds a
row, and `owed` lists the rows of evicted chains that are about to be freed (`Rows`). `rowless`
counts the ACTIVE chains without a row. Each operation moves `free`, `owed` and `rowless` by known
amounts; the lemmas here say which.
-/

namespace SparseVllm

open SparseVllm.Lib

variable {C D : Type}

/-! ## Layers in agreement -/

/-- The layer has `free` free rows, and `has` tells which sequences hold one. -/
structure LayerAgrees (free : Nat) (has : SeqId → Bool) (layer : KvLayer) : Prop where
  free : layer.freeRows.length = free
  held : ∀ seq, (layer.seqIdToRow.get? seq).isSome = has seq

/-- All layers agree; without layers nothing is free and nothing is held. -/
structure RowsAgree (layers : List KvLayer) (free : Nat) (has : SeqId → Bool) : Prop where
  each : ∀ layer ∈ layers, LayerAgrees free has layer
  none : layers = [] → free = 0 ∧ ∀ seq, has seq = false

theorem forLayers_ok {E : Type} {f : KvLayer → Except E KvLayer} {P P' : KvLayer → Prop}
    (hf : ∀ layer, P layer → ∃ layer', f layer = .ok layer' ∧ P' layer') :
    ∀ layers : List KvLayer, (∀ layer ∈ layers, P layer) →
      ∃ layers', forLayers f layers = (layers', none) ∧ (∀ layer ∈ layers', P' layer) ∧
        (layers' = [] ↔ layers = [])
  | [], _ => ⟨[], rfl, fun _ h => absurd h List.not_mem_nil, Iff.rfl⟩
  | layer :: rest, h => by
    obtain ⟨layer', hlayer, hP'⟩ := hf layer (h layer List.mem_cons_self)
    obtain ⟨rest', hrest, hall, -⟩ :=
      forLayers_ok hf rest fun l hl => h l (List.mem_cons_of_mem _ hl)
    refine ⟨layer' :: rest', ?_, ?_, by simp⟩
    · simp only [forLayers, hlayer, hrest]
    · intro l hl
      rcases List.mem_cons.mp hl with rfl | hl
      · exact hP'
      · exact hall l hl

/-- A method that raises on every layer raises on the first and changes nothing. -/
theorem forLayers_error {E : Type} {f : KvLayer → Except E KvLayer} {e : E} {layers : List KvLayer}
    (hf : ∀ layer ∈ layers, f layer = .error e) : (forLayers f layers).1 = layers := by
  cases layers with
  | nil => rfl
  | cons layer rest => simp only [forLayers, hf layer List.mem_cons_self]

theorem freeResidentRows_eq {layers : List KvLayer} {free : Nat} {has : SeqId → Bool}
    (h : RowsAgree layers free has) : freeResidentRows layers = free := by
  unfold freeResidentRows
  cases layers with
  | nil => exact (h.none rfl).1.symm
  | cons layer rest =>
    have hmap : (layer :: rest).map (fun layer => layer.freeRows.length) =
        List.replicate (rest.length + 1) free := by
      refine List.eq_replicate_iff.mpr ⟨by simp, fun n hn => ?_⟩
      obtain ⟨l, hl, rfl⟩ := List.mem_map.mp hn
      exact (h.each l hl).free
    rw [hmap, List.min?_replicate]
    rfl

theorem chainHasResidency_eq {layers : List KvLayer} {free : Nat} {has : SeqId → Bool}
    (h : RowsAgree layers free has) (seq : SeqId) : chainHasResidency layers seq = has seq := by
  unfold chainHasResidency
  cases layers with
  | nil => exact ((h.none rfl).2 seq).symm
  | cons layer rest =>
    have hlayer := (h.each layer List.mem_cons_self).held seq
    cases hs : has seq with
    | true =>
      rw [List.any_eq_true]
      exact ⟨layer, List.mem_cons_self, hlayer.trans hs⟩
    | false =>
      rw [List.any_eq_false]
      intro l hl
      rw [(h.each l hl).held seq, hs]
      exact Bool.false_ne_true

/-- Freeing a held row of every layer. -/
theorem freeSeq_rowsAgree {layers : List KvLayer} {free : Nat} {has : SeqId → Bool} {seq : SeqId}
    (h : RowsAgree layers free has) (hseq : has seq = true) :
    ∃ layers', forLayers (KvLayer.freeSeq (C := C) seq) layers = (layers', none) ∧
      RowsAgree layers' (free + 1) (Function.update has seq false) := by
  have hstep : ∀ layer, LayerAgrees free has layer →
      ∃ layer', KvLayer.freeSeq (C := C) seq layer = .ok layer' ∧
        LayerAgrees (free + 1) (Function.update has seq false) layer' := by
    intro layer hlayer
    obtain ⟨row, hrow⟩ := Option.isSome_iff_exists.mp ((hlayer.held seq).trans hseq)
    refine ⟨_, by rw [KvLayer.freeSeq, hrow], ?_, fun q => ?_⟩
    · simp [hlayer.free]
    · rw [Dict.get?_pop]
      by_cases hq : q = seq
      · simp [hq]
      · simp [hq, hlayer.held q]
  obtain ⟨layers', hrun, hall, hnil⟩ := forLayers_ok hstep layers h.each
  refine ⟨layers', hrun, hall, fun hempty => ?_⟩
  rw [(h.none (hnil.mp hempty)).2 seq] at hseq
  cases hseq

theorem freeSeq_unchanged {layers : List KvLayer} {free : Nat} {has : SeqId → Bool} {seq : SeqId}
    (h : RowsAgree layers free has) (hseq : has seq = false) :
    (forLayers (KvLayer.freeSeq (C := C) seq) layers).1 = layers := by
  refine forLayers_error (e := ChainError.notResident seq) fun layer hlayer => ?_
  have hrow := Option.isSome_eq_false_iff.mp (((h.each layer hlayer).held seq).trans hseq)
  rw [KvLayer.freeSeq, Option.isNone_iff_eq_none.mp hrow]

/-- Taking a row in every layer: nothing happens where the sequence holds one already, and where
no row is free. -/
theorem getFreeRow_rowsAgree {layers : List KvLayer} {free : Nat} {has : SeqId → Bool}
    (seq : SeqId) (h : RowsAgree layers free has) :
    let layers' := (forLayers (KvLayer.getFreeRow (C := C) seq) layers).1
    RowsAgree layers' free has ∨
      (has seq = false ∧ 0 < free ∧
        RowsAgree layers' (free - 1) (Function.update has seq true)) := by
  intro layers'
  cases hseq : has seq with
  | true =>
    left
    have hstep : ∀ layer, LayerAgrees free has layer →
        ∃ layer', KvLayer.getFreeRow (C := C) seq layer = .ok layer' ∧
          LayerAgrees free has layer' := by
      intro layer hlayer
      obtain ⟨row, hrow⟩ := Option.isSome_iff_exists.mp ((hlayer.held seq).trans hseq)
      exact ⟨layer, by rw [KvLayer.getFreeRow, hrow], hlayer⟩
    obtain ⟨rows, hrun, hall, hnil⟩ := forLayers_ok hstep layers h.each
    have heq : layers' = rows := congrArg Prod.fst hrun
    exact heq ▸ ⟨hall, fun hempty => h.none (hnil.mp hempty)⟩
  | false =>
    have hnone : ∀ layer ∈ layers, layer.seqIdToRow.get? seq = none := fun layer hlayer =>
      Option.isNone_iff_eq_none.mp
        (Option.isSome_eq_false_iff.mp (((h.each layer hlayer).held seq).trans hseq))
    cases free with
    | zero =>
      left
      have herr : layers' = layers := by
        refine forLayers_error (e := ChainError.noFreeRow) fun layer hlayer => ?_
        have hempty := List.length_eq_zero_iff.mp (h.each layer hlayer).free
        simp only [KvLayer.getFreeRow, hnone layer hlayer, hempty]
      exact herr ▸ h
    | succ free =>
      right
      have hstep : ∀ layer, LayerAgrees (free + 1) has layer →
          ∃ layer', KvLayer.getFreeRow (C := C) seq layer = .ok layer' ∧
            LayerAgrees free (Function.update has seq true) layer' := by
        intro layer hlayer
        have hrow := Option.isNone_iff_eq_none.mp
          (Option.isSome_eq_false_iff.mp ((hlayer.held seq).trans hseq))
        obtain ⟨row, rest, hfree⟩ := List.exists_cons_of_length_eq_add_one hlayer.free
        refine ⟨_, by rw [KvLayer.getFreeRow, hrow, hfree], ?_, fun q => ?_⟩
        · have hlen := hlayer.free
          rw [hfree] at hlen
          exact Nat.succ.inj hlen
        · rw [Dict.get?_set]
          by_cases hq : q = seq
          · simp [hq]
          · simp [hq, hlayer.held q]
      obtain ⟨rows, hrun, hall, hnil⟩ := forLayers_ok hstep layers h.each
      have heq : layers' = rows := congrArg Prod.fst hrun
      refine ⟨rfl, Nat.succ_pos _, heq ▸ ⟨hall, fun hempty => ?_⟩⟩
      have := (h.none (hnil.mp hempty)).1
      omega

/-! ## The ledger -/

/-- The ACTIVE chains that hold no row. -/
def rowless (has : SeqId → Bool) (records : Dict C (ChainRecord C D)) : Nat :=
  records.values.countP fun record => record.state = .active ∧ has record.seqId = false

/-- One record's share of `rowless`. -/
def rowlessOne (has : SeqId → Bool) (record : ChainRecord C D) : Nat :=
  if record.state = .active ∧ has record.seqId = false then 1 else 0

theorem rowlessOne_idle {has : SeqId → Bool} {record : ChainRecord C D}
    (h : record.state = .idle) : rowlessOne has record = 0 := by
  unfold rowlessOne
  rw [if_neg]
  rintro ⟨hactive, -⟩
  rw [h] at hactive
  cases hactive

theorem rowlessOne_held {has : SeqId → Bool} {record : ChainRecord C D}
    (h : has record.seqId = true) : rowlessOne has record = 0 := by
  unfold rowlessOne
  rw [if_neg]
  rintro ⟨-, hrow⟩
  rw [h] at hrow
  cases hrow

theorem rowlessOne_le (has : SeqId → Bool) (record : ChainRecord C D) :
    rowlessOne has record ≤ 1 := by
  unfold rowlessOne
  split <;> omega

theorem rowless_cons (has : SeqId → Bool) (record : ChainRecord C D)
    (records : List (ChainRecord C D)) :
    (record :: records).countP (fun record => record.state = .active ∧ has record.seqId = false) =
      records.countP (fun record => record.state = .active ∧ has record.seqId = false) +
        rowlessOne has record := by
  rw [List.countP_cons]
  unfold rowlessOne
  simp only [decide_eq_true_eq]

variable [LinearOrder C]

theorem rowless_get? (has : SeqId → Bool) {records : Dict C (ChainRecord C D)} {chain : C}
    {record : ChainRecord C D} (h : records.get? chain = some record) :
    rowless has records = rowless has (records.pop chain) + rowlessOne has record := by
  unfold rowless
  rw [(Dict.values_perm h).countP_eq, rowless_cons]

theorem rowless_set (has : SeqId → Bool) (records : Dict C (ChainRecord C D)) (chain : C)
    (record : ChainRecord C D) :
    rowless has (records.set chain record) =
      rowless has (records.pop chain) + rowlessOne has record := by
  unfold rowless
  rw [Dict.values_set, rowless_cons]

theorem rowless_congr {has has' : SeqId → Bool} {records : Dict C (ChainRecord C D)}
    (h : ∀ chain record, records.get? chain = some record →
      has' record.seqId = has record.seqId) : rowless has' records = rowless has records := by
  unfold rowless
  refine List.countP_congr fun record hrecord => ?_
  obtain ⟨chain, hchain⟩ := Dict.mem_values.mp hrecord
  rw [h chain record hchain]

/-- Every record is filed under its own id, owns its sequence id, and the counter is ahead of all
owners. -/
structure WellOwned (index : ChainCacheIndex C D) (next : SeqId) : Prop where
  filed : ∀ chain record, index.records.get? chain = some record → record.chainId = chain
  owner : ∀ chain record, index.records.get? chain = some record →
    index.seqIdToChainId.get? record.seqId = some chain
  fresh : ∀ seq chain, index.seqIdToChainId.get? seq = some chain → seq < next

/-- The ledger of the resident rows. `owed` are the sequences of dropped chains whose rows are
still to be freed. -/
structure Rows (owed : List SeqId) (free : Nat) (has : SeqId → Bool) (s : ChainRuntime C D) :
    Prop where
  agree : RowsAgree s.layers free has
  owned : WellOwned s.index s.nextSeqId
  idle : ∀ chain record, s.index.records.get? chain = some record → record.state = .idle →
    has record.seqId = true ∧ record.residentRows = 1
  owedNodup : owed.Nodup
  owedHeld : ∀ seq ∈ owed, has seq = true
  owedFree : ∀ seq ∈ owed, ∀ chain record, s.index.records.get? chain = some record →
    record.seqId ≠ seq

/-- Two records of one sequence are the same record. -/
theorem WellOwned.chain_unique {index : ChainCacheIndex C D} {next : SeqId}
    (h : WellOwned index next) {chain chain' : C} {record record' : ChainRecord C D}
    (hrec : index.records.get? chain = some record)
    (hrec' : index.records.get? chain' = some record') (hseq : record.seqId = record'.seqId) :
    chain = chain' := by
  have h1 := h.owner chain record hrec
  have h2 := h.owner chain' record' hrec'
  rw [hseq, h2] at h1
  exact (Option.some.inj h1).symm

open ChainCacheIndex in
theorem Rows.sameLedger {owed : List SeqId} {free : Nat} {has : SeqId → Bool}
    {s : ChainRuntime C D} (h : Rows owed free has s) {index : ChainCacheIndex C D}
    (hsame : SameLedger s.index index) : Rows owed free has { s with index := index } where
  agree := h.agree
  owned := ⟨by rw [hsame.records]; exact h.owned.filed,
    by rw [hsame.records, hsame.owners]; exact h.owned.owner,
    by rw [hsame.owners]; exact h.owned.fresh⟩
  idle := by rw [hsame.records]; exact h.idle
  owedNodup := h.owedNodup
  owedHeld := h.owedHeld
  owedFree := by rw [hsame.records]; exact h.owedFree

open ChainCacheIndex in
theorem WellOwned.dropped {index index' : ChainCacheIndex C D} {next : SeqId}
    (h : WellOwned index next) {chain : C} {record : ChainRecord C D}
    (hdrop : Dropped index chain record index') : WellOwned index' next where
  filed c r hr := by
    rw [hdrop.records, Dict.get?_pop] at hr
    split at hr
    · cases hr
    · exact h.filed c r hr
  owner c r hr := by
    rw [hdrop.records, Dict.get?_pop] at hr
    split at hr
    · cases hr
    · rename_i hne
      rw [hdrop.owners, Dict.get?_pop, if_neg]
      · exact h.owner c r hr
      · intro hseq
        exact hne (h.chain_unique hr hdrop.found hseq)
  fresh q c hq := by
    rw [hdrop.owners, Dict.get?_pop] at hq
    split at hq
    · cases hq
    · exact h.fresh q c hq

open ChainCacheIndex in
/-- Dropping a chain that holds a row leaves the row owed. -/
theorem Rows.dropped {owed : List SeqId} {free : Nat} {has : SeqId → Bool}
    {s : ChainRuntime C D} (h : Rows owed free has s) {chain : C} {record : ChainRecord C D}
    {index : ChainCacheIndex C D} (hdrop : Dropped s.index chain record index) :
    Rows owed free has { s with index := index } ∧
      (has record.seqId = true → Rows (owed ++ [record.seqId]) free has { s with index := index }) := by
  have hold : ∀ c r, index.records.get? c = some r →
      s.index.records.get? c = some r ∧ c ≠ chain := by
    intro c r hr
    rw [hdrop.records, Dict.get?_pop] at hr
    split at hr
    · cases hr
    · exact ⟨hr, ‹_›⟩
  have hbase : Rows owed free has { s with index := index } :=
    { agree := h.agree
      owned := h.owned.dropped hdrop
      idle := fun c r hr hidle => h.idle c r (hold c r hr).1 hidle
      owedNodup := h.owedNodup
      owedHeld := h.owedHeld
      owedFree := fun q hq c r hr => h.owedFree q hq c r (hold c r hr).1 }
  refine ⟨hbase, fun hheld => { hbase with owedNodup := ?_, owedHeld := ?_, owedFree := ?_ }⟩
  · refine List.nodup_append.mpr ⟨h.owedNodup, List.nodup_singleton _, ?_⟩
    intro q hq q' hq' heq
    rw [List.mem_singleton.mp hq'] at heq
    exact h.owedFree q hq chain record hdrop.found heq.symm
  · intro q hq
    rcases List.mem_append.mp hq with hq | hq
    · exact h.owedHeld q hq
    · exact List.mem_singleton.mp hq ▸ hheld
  · intro q hq c r hr
    rcases List.mem_append.mp hq with hq | hq
    · exact hbase.owedFree q hq c r hr
    · rw [List.mem_singleton.mp hq]
      intro hseq
      exact (hold c r hr).2 (h.owned.chain_unique (hold c r hr).1 hdrop.found hseq)

/-- Replacing a record by one of the same sequence. -/
theorem Rows.replaced {owed : List SeqId} {free : Nat} {has : SeqId → Bool}
    {s : ChainRuntime C D} (h : Rows owed free has s) {chain : C} {record new : ChainRecord C D}
    {index : ChainCacheIndex C D} (found : s.index.records.get? chain = some record)
    (hid : new.chainId = record.chainId) (hseq : new.seqId = record.seqId)
    (hidle : new.state = .idle → has new.seqId = true ∧ new.residentRows = 1)
    (hrecords : index.records = s.index.records.set chain new)
    (howners : index.seqIdToChainId = s.index.seqIdToChainId) :
    Rows owed free has { s with index := index } := by
  have hold : ∀ c r, index.records.get? c = some r →
      (c = chain ∧ r = new) ∨ s.index.records.get? c = some r := by
    intro c r hr
    rw [hrecords, Dict.get?_set] at hr
    split at hr
    · exact Or.inl ⟨‹_›, (Option.some.inj hr).symm⟩
    · exact Or.inr hr
  refine ⟨h.agree, ⟨fun c r hr => ?_, fun c r hr => ?_, ?_⟩, fun c r hr hri => ?_, h.owedNodup,
    h.owedHeld, fun q hq c r hr => ?_⟩
  · rcases hold c r hr with ⟨rfl, rfl⟩ | hr
    · exact hid.trans (h.owned.filed c record found)
    · exact h.owned.filed c r hr
  · show index.seqIdToChainId.get? r.seqId = some c
    rw [howners]
    rcases hold c r hr with ⟨rfl, rfl⟩ | hr
    · rw [hseq]
      exact h.owned.owner c record found
    · exact h.owned.owner c r hr
  · show ∀ q c, index.seqIdToChainId.get? q = some c → q < s.nextSeqId
    rw [howners]
    exact h.owned.fresh
  · rcases hold c r hr with ⟨rfl, rfl⟩ | hr
    · exact hidle hri
    · exact h.idle c r hr hri
  · rcases hold c r hr with ⟨rfl, rfl⟩ | hr
    · rw [hseq]
      exact h.owedFree q hq c record found
    · exact h.owedFree q hq c r hr

/-- A new ACTIVE record under a sequence no chain owns. -/
theorem Rows.created {owed : List SeqId} {free : Nat} {has : SeqId → Bool}
    {s : ChainRuntime C D} (h : Rows owed free has s) {chain : C} {new : ChainRecord C D}
    {index : ChainCacheIndex C D} (hid : new.chainId = chain) (hactive : new.state = .active)
    (hnext : new.seqId < s.nextSeqId) (howed : new.seqId ∉ owed)
    (hfree : s.index.seqIdToChainId.get? new.seqId = none)
    (hnew : s.index.records.get? chain = none)
    (hrecords : index.records = s.index.records.set chain new)
    (howners : index.seqIdToChainId = s.index.seqIdToChainId.set new.seqId chain) :
    Rows owed free has { s with index := index } := by
  have hold : ∀ c r, index.records.get? c = some r →
      (c = chain ∧ r = new) ∨ (c ≠ chain ∧ s.index.records.get? c = some r) := by
    intro c r hr
    rw [hrecords, Dict.get?_set] at hr
    split at hr
    · exact Or.inl ⟨‹_›, (Option.some.inj hr).symm⟩
    · exact Or.inr ⟨‹_›, hr⟩
  refine ⟨h.agree, ⟨fun c r hr => ?_, fun c r hr => ?_, fun q c hq => ?_⟩, fun c r hr hri => ?_,
    h.owedNodup, h.owedHeld, fun q hq c r hr => ?_⟩
  · rcases hold c r hr with ⟨rfl, rfl⟩ | ⟨-, hr⟩
    · exact hid
    · exact h.owned.filed c r hr
  · show index.seqIdToChainId.get? r.seqId = some c
    rw [howners, Dict.get?_set]
    rcases hold c r hr with ⟨rfl, rfl⟩ | ⟨-, hr⟩
    · rw [if_pos rfl]
    · rw [if_neg, h.owned.owner c r hr]
      intro hseq
      have := h.owned.owner c r hr
      rw [hseq, hfree] at this
      cases this
  · have hq' : index.seqIdToChainId.get? q = some c := hq
    rw [howners, Dict.get?_set] at hq'
    split at hq'
    · rename_i hseq
      exact hseq ▸ hnext
    · exact h.owned.fresh q c hq'
  · rcases hold c r hr with ⟨rfl, rfl⟩ | ⟨-, hr⟩
    · rw [hactive] at hri
      cases hri
    · exact h.idle c r hr hri
  · rcases hold c r hr with ⟨rfl, rfl⟩ | ⟨-, hr⟩
    · exact fun heq => howed (heq ▸ hq)
    · exact h.owedFree q hq c r hr

theorem Rows.forget {owed : List SeqId} {free : Nat} {has : SeqId → Bool} {s : ChainRuntime C D}
    (h : Rows owed free has s) : Rows [] free has s where
  agree := h.agree
  owned := h.owned
  idle := h.idle
  owedNodup := List.nodup_nil
  owedHeld := fun _ hq => absurd hq List.not_mem_nil
  owedFree := fun _ hq => absurd hq List.not_mem_nil

/-- Freeing the row of an owed sequence: no record asks for it. -/
theorem Rows.freeOwed {seq : SeqId} {owed : List SeqId} {free : Nat} {has : SeqId → Bool}
    {s : ChainRuntime C D} (h : Rows (seq :: owed) free has s) {layers : List KvLayer}
    (hagree : RowsAgree layers (free + 1) (Function.update has seq false)) :
    Rows owed (free + 1) (Function.update has seq false) { s with layers := layers } ∧
      rowless (Function.update has seq false) s.index.records = rowless has s.index.records := by
  have hne : ∀ c r, s.index.records.get? c = some r → r.seqId ≠ seq :=
    h.owedFree seq List.mem_cons_self
  have hnodup := List.nodup_cons.mp h.owedNodup
  refine ⟨⟨hagree, h.owned, fun c r hr hidle => ?_, hnodup.2, fun q hq => ?_, fun q hq => ?_⟩, ?_⟩
  · rw [Function.update_of_ne (hne c r hr)]
    exact h.idle c r hr hidle
  · have hqs : q ≠ seq := fun heq => hnodup.1 (heq ▸ hq)
    rw [Function.update_of_ne hqs]
    exact h.owedHeld q (List.mem_cons_of_mem _ hq)
  · exact h.owedFree q (List.mem_cons_of_mem _ hq)
  · exact rowless_congr fun c r hr => Function.update_of_ne (hne c r hr) _ _

/-- Freeing the row of an ACTIVE chain: the chain may be one more without a row. -/
theorem Rows.freeActive {free : Nat} {has : SeqId → Bool} {s : ChainRuntime C D}
    (h : Rows [] free has s) {chain : C} {record : ChainRecord C D}
    (found : s.index.records.get? chain = some record) (hactive : record.state = .active)
    {layers : List KvLayer}
    (hagree : RowsAgree layers (free + 1) (Function.update has record.seqId false)) :
    Rows [] (free + 1) (Function.update has record.seqId false) { s with layers := layers } ∧
      rowless (Function.update has record.seqId false) s.index.records ≤
        rowless has s.index.records + 1 := by
  have hne : ∀ c r, s.index.records.get? c = some r → c ≠ chain → r.seqId ≠ record.seqId :=
    fun c r hr hc hseq => hc (h.owned.chain_unique hr found hseq)
  refine ⟨⟨hagree, h.owned, fun c r hr hidle => ?_, List.nodup_nil,
    fun _ hq => absurd hq List.not_mem_nil, fun _ hq => absurd hq List.not_mem_nil⟩, ?_⟩
  · have hc : c ≠ chain := by
      rintro rfl
      rw [found] at hr
      rw [← Option.some.inj hr, hactive] at hidle
      cases hidle
    rw [Function.update_of_ne (hne c r hr hc)]
    exact h.idle c r hr hidle
  · rw [rowless_get? _ found, rowless_get? has found]
    have hrest : rowless (Function.update has record.seqId false) (s.index.records.pop chain) =
        rowless has (s.index.records.pop chain) := by
      refine rowless_congr fun c r hr => ?_
      rw [Dict.get?_pop] at hr
      split at hr
      · cases hr
      · exact Function.update_of_ne (hne c r hr ‹_›) _ _
    have hone := rowlessOne_le (Function.update has record.seqId false) record
    omega

/-- An ACTIVE chain takes its row: one chain fewer is without. -/
theorem Rows.takeActive {free : Nat} {has : SeqId → Bool} {s : ChainRuntime C D}
    (h : Rows [] free has s) {chain : C} {record : ChainRecord C D}
    (found : s.index.records.get? chain = some record) (hactive : record.state = .active)
    (hrow : has record.seqId = false) {layers : List KvLayer}
    (hagree : RowsAgree layers (free - 1) (Function.update has record.seqId true)) :
    Rows [] (free - 1) (Function.update has record.seqId true) { s with layers := layers } ∧
      rowless (Function.update has record.seqId true) s.index.records + 1 =
        rowless has s.index.records := by
  refine ⟨⟨hagree, h.owned, fun c r hr hidle => ⟨?_, (h.idle c r hr hidle).2⟩, List.nodup_nil,
    fun _ hq => absurd hq List.not_mem_nil, fun _ hq => absurd hq List.not_mem_nil⟩, ?_⟩
  · by_cases hq : r.seqId = record.seqId
    · rw [hq, Function.update_self]
    · rw [Function.update_of_ne hq]
      exact (h.idle c r hr hidle).1
  · rw [rowless_get? _ found, rowless_get? has found]
    have hrest : rowless (Function.update has record.seqId true) (s.index.records.pop chain) =
        rowless has (s.index.records.pop chain) := by
      refine rowless_congr fun c r hr => ?_
      rw [Dict.get?_pop] at hr
      split at hr
      · cases hr
      · rename_i hc
        exact Function.update_of_ne (fun hseq => hc (h.owned.chain_unique hr found hseq)) _ _
    have hnow : rowlessOne (Function.update has record.seqId true) record = 0 :=
      rowlessOne_held (Function.update_self _ _ _)
    have hbefore : rowlessOne has record = 1 := if_pos ⟨hactive, hrow⟩
    omega

end SparseVllm
