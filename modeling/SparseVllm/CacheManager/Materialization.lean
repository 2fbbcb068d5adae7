import SparseVllm.CacheManager.Standard

/-!
# Blocks do not depend on the chunks (`_record_prefix_materialization`)

The tokens of a sequence arrive in chunks with the slots they are stored in, and are cut into blocks.
A call fills the block an earlier call has begun, cuts the rest, and keeps what is left for the next
call. `chainBlocks` is what a stream comes to: its full blocks, one after the other, each chained to
the one before. A state with the blocks produced so far `Represents` the stream recorded so far.

## Results

* `record_represents`: one call appends its chunk to the stream represented.
* **`materialization_chunking`**: consecutive calls, and one call with the whole stream.
-/

namespace SparseVllm

open SparseVllm.Lib

variable {B : Type}

/-- A stream of tokens with their slots. -/
abbrev TokenStream := List (Int × Nat)

/-- The tokens of a stream. -/
abbrev TokenStream.tokens (stream : TokenStream) : List Int := stream.map Prod.fst

/-- The slots of a stream. -/
abbrev TokenStream.slots (stream : TokenStream) : List Nat := stream.map Prod.snd

/-! ## The blocks of a stream -/

/-- The first `count` blocks of a stream, chained from `parent`. -/
def chainBlocks (hash : List Int → Option B → B) (blockSize : Nat) :
    Nat → Option B → Nat → TokenStream → List (PendingPrefixBlock B)
  | 0, _, _, _ => []
  | count + 1, parent, idx, stream =>
    let tokens := TokenStream.tokens (stream.take blockSize)
    let id := hash tokens parent
    { stableBlockId := id, parentBlockId := parent, logicalBlockIdx := idx,
      slots := TokenStream.slots (stream.take blockSize), tokenIds := tokens } ::
      chainBlocks hash blockSize count (some id) (idx + 1) (stream.drop blockSize)

/-- The id the next block is chained to. -/
def lastParent (parent : Option B) (blocks : List (PendingPrefixBlock B)) : Option B :=
  (blocks.getLast?.map (·.stableBlockId)).or parent

section Chain

variable {hash : List Int → Option B → B} {blockSize : Nat}

@[simp] theorem chainBlocks_zero (parent : Option B) (idx : Nat) (stream : TokenStream) :
    chainBlocks hash blockSize 0 parent idx stream = [] := rfl

@[simp] theorem lastParent_nil (parent : Option B) : lastParent parent [] = parent := rfl

theorem lastParent_cons (parent : Option B) (b : PendingPrefixBlock B)
    (blocks : List (PendingPrefixBlock B)) :
    lastParent parent (b :: blocks) = lastParent (some b.stableBlockId) blocks := by
  unfold lastParent
  rw [List.getLast?_cons]
  cases blocks.getLast? with
  | none => rfl
  | some c => rfl

theorem lastParent_append (parent : Option B) (blocks more : List (PendingPrefixBlock B)) :
    lastParent parent (blocks ++ more) = lastParent (lastParent parent blocks) more := by
  induction blocks generalizing parent with
  | nil => rfl
  | cons b blocks ih => rw [List.cons_append, lastParent_cons, lastParent_cons, ih]

/-- What follows the blocks read does not matter. -/
theorem chainBlocks_append {count : Nat} {stream : TokenStream}
    (h : count * blockSize ≤ stream.length) (more : TokenStream) (parent : Option B) (idx : Nat) :
    chainBlocks hash blockSize count parent idx (stream ++ more) =
      chainBlocks hash blockSize count parent idx stream := by
  induction count generalizing stream parent idx with
  | zero => rfl
  | succ count ih =>
    rw [Nat.succ_mul] at h
    have hrest : count * blockSize ≤ (stream.drop blockSize).length := by
      rw [List.length_drop]
      omega
    simp only [chainBlocks, List.take_append_of_le_length (show blockSize ≤ stream.length by omega),
      List.drop_append_of_le_length (show blockSize ≤ stream.length by omega), ih hrest]

/-- The blocks of a stream are its first ones and those of the rest, chained to them. -/
theorem chainBlocks_add (count more : Nat) (parent : Option B) (idx : Nat) (stream : TokenStream) :
    chainBlocks hash blockSize (count + more) parent idx stream =
      chainBlocks hash blockSize count parent idx stream ++
        chainBlocks hash blockSize more
          (lastParent parent (chainBlocks hash blockSize count parent idx stream)) (idx + count)
          (stream.drop (count * blockSize)) := by
  induction count generalizing parent idx stream with
  | zero => simp
  | succ count ih =>
    rw [show count + 1 + more = (count + more) + 1 by omega]
    simp only [chainBlocks, ih, List.cons_append, lastParent_cons, List.drop_drop]
    rw [show idx + 1 + count = idx + (count + 1) by omega, Nat.succ_mul,
      Nat.add_comm blockSize (count * blockSize)]

end Chain

/-! ## Calls -/

/-- The state and the blocks are what the first `count` blocks of a stream and the rest come to, below
`parent` and from block `idx` on. -/
structure Cut (hash : List Int → Option B → B) (blockSize : Nat) (parent : Option B) (idx count : Nat)
    (stream : TokenStream) (state : PrefixRuntimeState B) (blocks : List (PendingPrefixBlock B)) :
    Prop where
  produced : blocks = chainBlocks hash blockSize count parent idx stream
  parent : state.parentBlockId = lastParent parent blocks
  next : state.nextLogicalBlockIdx = idx + count
  tokens : state.pendingTokens = TokenStream.tokens (stream.drop (count * blockSize))
  slots : state.pendingSlots.flatten = TokenStream.slots (stream.drop (count * blockSize))

/-- All full blocks of a stream are cut. -/
abbrev Represents (hash : List Int → Option B → B) (blockSize : Nat) (parent : Option B) (idx : Nat)
    (stream : TokenStream) (state : PrefixRuntimeState B) (blocks : List (PendingPrefixBlock B)) :
    Prop :=
  Cut hash blockSize parent idx (stream.length / blockSize) stream state blocks

section Calls

variable {hash : List Int → Option B → B} {blockSize : Nat} {state left : PrefixRuntimeState B}
  {parent : Option B} {idx count : Nat} {stream : TokenStream} {blocks : List (PendingPrefixBlock B)}

/-- One block before the others. -/
theorem Cut.cons {id : B} (hid : id = hash (TokenStream.tokens (stream.take blockSize)) parent)
    (h : Cut hash blockSize (some id) (idx + 1) count (stream.drop blockSize) left blocks) :
    Cut hash blockSize parent idx (count + 1) stream left
      ({ stableBlockId := id, parentBlockId := parent, logicalBlockIdx := idx,
         slots := TokenStream.slots (stream.take blockSize),
         tokenIds := TokenStream.tokens (stream.take blockSize) } :: blocks) := by
  have hdrop : (stream.drop blockSize).drop (count * blockSize) =
      stream.drop ((count + 1) * blockSize) := by
    rw [List.drop_drop, Nat.succ_mul, Nat.add_comm blockSize]
  refine ⟨?_, ?_, ?_, ?_, ?_⟩
  · rw [h.produced, hid]
    rfl
  · rw [h.parent, lastParent_cons]
  · rw [h.next]
    omega
  · rw [h.tokens, hdrop]
  · rw [h.slots, hdrop]

/-- The state after a block. -/
def PrefixRuntimeState.advance (state : PrefixRuntimeState B) (id : B) : PrefixRuntimeState B :=
  { state with parentBlockId := some id, nextLogicalBlockIdx := state.nextLogicalBlockIdx + 1 }

theorem PrefixRuntimeState.addBlock_ok {tokens : List Int} (h : tokens.length = blockSize)
    (slots : List Nat) : state.addBlock (fullBlockId hash blockSize) tokens slots =
      .ok (state.advance (hash tokens state.parentBlockId),
        { stableBlockId := hash tokens state.parentBlockId
          parentBlockId := state.parentBlockId
          logicalBlockIdx := state.nextLogicalBlockIdx
          slots := slots
          tokenIds := tokens }) := by
  unfold addBlock fullBlockId
  rw [if_pos h]
  rfl

/-- The loop cuts a stream into its blocks and what is left. -/
theorem PrefixRuntimeState.addBlocks_ok (h : count * blockSize ≤ stream.length) :
    ∃ left blocks, state.addBlocks (fullBlockId hash blockSize) blockSize count stream.tokens
        stream.slots = .ok (left, blocks) ∧
      Cut hash blockSize state.parentBlockId state.nextLogicalBlockIdx count stream left blocks := by
  induction count generalizing state stream with
  | zero =>
    unfold addBlocks
    cases stream with
    | nil => exact ⟨_, _, rfl, rfl, rfl, rfl, by simp, by simp⟩
    | cons e stream => exact ⟨_, _, rfl, rfl, rfl, rfl, by simp, by simp⟩
  | succ count ih =>
    rw [Nat.succ_mul] at h
    have hfull : (TokenStream.tokens (stream.take blockSize)).length = blockSize := by
      rw [List.length_map, List.length_take]
      omega
    have hrest : count * blockSize ≤ (stream.drop blockSize).length := by
      rw [List.length_drop]
      omega
    have hnext : ∃ left blocks, (state.advance
        (hash (TokenStream.tokens (stream.take blockSize)) state.parentBlockId)).addBlocks
          (fullBlockId hash blockSize) blockSize count (TokenStream.tokens (stream.drop blockSize))
          (TokenStream.slots (stream.drop blockSize)) = .ok (left, blocks) ∧
        Cut hash blockSize _ _ count (stream.drop blockSize) left blocks := ih hrest
    obtain ⟨left, blocks, hrun, hcut⟩ := hnext
    refine ⟨left, _, ?_, Cut.cons rfl hcut⟩
    unfold addBlocks
    rw [← List.map_take, ← List.map_take, addBlock_ok hfull, ← List.map_drop, ← List.map_drop]
    show (do let rest ← _; pure _ : Except _ _) = _
    simp only [hrun]
    rfl

/-- **One call cuts what was carried over and its chunk.** -/
theorem PrefixRuntimeState.record_ok (hsize : 0 < blockSize) {carried chunk : TokenStream}
    (htokens : state.pendingTokens = carried.tokens) (hslots : state.pendingSlots.flatten = carried.slots)
    (hshort : carried.length < blockSize) :
    ∃ left blocks, state.record (fullBlockId hash blockSize) blockSize chunk.tokens chunk.slots =
        .ok (left, blocks) ∧
      Represents hash blockSize state.parentBlockId state.nextLogicalBlockIdx (carried ++ chunk) left
        blocks := by
  have hcarried : state.pendingTokens.length = carried.length := by
    rw [htokens, List.length_map]
  unfold record
  by_cases hnone : carried = []
  · subst carried
    rw [if_pos (by simpa using htokens), List.length_map]
    exact addBlocks_ok (Nat.div_mul_le_self _ _)
  · rw [if_neg (by rw [htokens]; simpa using hnone)]
    simp only [List.length_map, hcarried]
    by_cases hfill : blockSize ≤ carried.length + chunk.length
    · -- the block begun is filled, and the rest is cut
      rw [min_eq_left (by omega)]
      have htake : (carried ++ chunk).take blockSize =
          carried ++ chunk.take (blockSize - carried.length) := by
        rw [List.take_append, List.take_of_length_le hshort.le]
      have hdrop : (carried ++ chunk).drop blockSize = chunk.drop (blockSize - carried.length) := by
        rw [List.drop_append, List.drop_of_length_le hshort.le, List.nil_append]
      have hcount : (carried ++ chunk).length / blockSize =
          (chunk.drop (blockSize - carried.length)).length / blockSize + 1 := by
        rw [List.length_append, List.length_drop, ← Nat.add_div_right _ hsize]
        congr 1
        omega
      obtain ⟨block, hblock⟩ : ∃ block : TokenStream, (carried ++ chunk).take blockSize = block :=
        ⟨_, rfl⟩
      obtain ⟨filled, hfilled⟩ : ∃ filled, state.carry (chunk.tokens.take (blockSize - carried.length))
          (chunk.slots.take (blockSize - carried.length)) = filled := ⟨_, rfl⟩
      have hparent : filled.parentBlockId = state.parentBlockId := hfilled ▸ rfl
      have hidx : filled.nextLogicalBlockIdx = state.nextLogicalBlockIdx := hfilled ▸ rfl
      have hpending : filled.pendingTokens = block.tokens := by
        rw [← hfilled, ← hblock, htake]
        simp [carry, htokens]
      have hflat : filled.pendingSlots.flatten = block.slots := by
        rw [← hfilled, ← hblock, htake]
        simp [carry, hslots]
      have hfull : block.tokens.length = blockSize := by
        rw [← hblock, List.length_map, List.length_take, List.length_append]
        omega
      have hnext : ∃ left blocks, ({ (filled.advance (hash block.tokens filled.parentBlockId)) with
          pendingTokens := [], pendingSlots := [] } : PrefixRuntimeState B).addBlocks
            (fullBlockId hash blockSize) blockSize
            ((chunk.drop (blockSize - carried.length)).length / blockSize)
            (TokenStream.tokens (chunk.drop (blockSize - carried.length)))
            (TokenStream.slots (chunk.drop (blockSize - carried.length))) = .ok (left, blocks) ∧
          Cut hash blockSize _ _ _ (chunk.drop (blockSize - carried.length)) left blocks :=
        addBlocks_ok (Nat.div_mul_le_self _ _)
      obtain ⟨left, blocks, hrun, hcut⟩ := hnext
      rw [← hdrop] at hcut
      have hcons := Cut.cons (by rw [hblock]) hcut
      rw [hblock, hdrop, hparent, hidx] at hcons
      refine ⟨left, _, ?_, hcount ▸ hcons⟩
      rw [hfilled, hpending, hflat, if_pos hfull, addBlock_ok hfull]
      have htokensDrop : TokenStream.tokens (chunk.drop (blockSize - carried.length)) =
          chunk.tokens.drop (blockSize - carried.length) := List.map_drop
      have hslotsDrop : TokenStream.slots (chunk.drop (blockSize - carried.length)) =
          chunk.slots.drop (blockSize - carried.length) := List.map_drop
      rw [htokensDrop, hslotsDrop, List.length_drop, hparent] at hrun
      rw [hparent, hidx]
      show (do let rest ← _; pure _ : Except _ _) = _
      rw [hrun]
      rfl
    · rw [min_eq_right (by omega), List.take_of_length_le (by simp), List.take_of_length_le (by simp)]
      have hzero : (carried ++ chunk).length / blockSize = 0 := by
        rw [List.length_append]
        exact Nat.div_eq_of_lt (by omega)
      have hlength : (state.carry chunk.tokens chunk.slots).pendingTokens.length ≠ blockSize := by
        simp only [carry, htokens, List.length_append, List.length_map]
        omega
      rw [if_neg hlength]
      refine ⟨_, _, rfl, ?_⟩
      unfold Represents
      rw [hzero]
      refine ⟨rfl, rfl, rfl, ?_, ?_⟩
      · simp [carry, htokens]
      · simp [carry, hslots]

/-- What a state that represents a stream carries over to the next call. -/
theorem Cut.carried_lt (hsize : 0 < blockSize) :
    (stream.drop (stream.length / blockSize * blockSize)).length < blockSize := by
  rw [List.length_drop, Nat.mul_comm, ← Nat.mod_def]
  exact Nat.mod_lt _ hsize

/-- **One call appends its chunk to the stream.** -/
theorem record_represents (hsize : 0 < blockSize) (chunk : TokenStream)
    (h : Represents hash blockSize parent idx stream state blocks) :
    ∃ left more, state.record (fullBlockId hash blockSize) blockSize chunk.tokens chunk.slots =
        .ok (left, more) ∧
      Represents hash blockSize parent idx (stream ++ chunk) left (blocks ++ more) := by
  have hcall : ∃ left more,
      state.record (fullBlockId hash blockSize) blockSize chunk.tokens chunk.slots =
        .ok (left, more) ∧ Represents hash blockSize _ _ (_ ++ chunk) left more :=
    PrefixRuntimeState.record_ok hsize h.tokens h.slots (Cut.carried_lt hsize)
  obtain ⟨left, more, hrun, hcut⟩ := hcall
  refine ⟨left, more, hrun, ?_⟩
  have hle := Nat.div_mul_le_self stream.length blockSize
  have hdrop : (stream ++ chunk).drop (stream.length / blockSize * blockSize) =
      stream.drop (stream.length / blockSize * blockSize) ++ chunk :=
    List.drop_append_of_le_length hle
  have hcount : (stream ++ chunk).length / blockSize = stream.length / blockSize +
      (stream.drop (stream.length / blockSize * blockSize) ++ chunk).length / blockSize := by
    rw [← Nat.mul_add_div hsize, List.length_append, List.length_append, List.length_drop,
      Nat.mul_comm blockSize]
    congr 1
    omega
  have hblocks : blocks ++ more =
      chainBlocks hash blockSize ((stream ++ chunk).length / blockSize) parent idx
        (stream ++ chunk) := by
    rw [hcount, chainBlocks_add, chainBlocks_append hle, hdrop, ← h.produced, ← h.parent, ← h.next,
      ← hcut.produced]
  have hleft : (stream ++ chunk).drop ((stream ++ chunk).length / blockSize * blockSize) =
      (stream.drop (stream.length / blockSize * blockSize) ++ chunk).drop
        ((stream.drop (stream.length / blockSize * blockSize) ++ chunk).length / blockSize *
          blockSize) := by
    rw [← hdrop, List.drop_drop, hdrop, ← Nat.add_mul, ← hcount]
  refine ⟨hblocks, ?_, ?_, ?_, ?_⟩
  · rw [hcut.parent, h.parent, lastParent_append]
  · rw [hcut.next, h.next, hcount, Nat.add_assoc]
  · rw [hcut.tokens, hleft]
  · rw [hcut.slots, hleft]

theorem Represents.empty (hash : List Int → Option B → B) (blockSize : Nat) (parent : Option B)
    (idx : Nat) : Represents hash blockSize parent idx []
      { parentBlockId := parent, nextLogicalBlockIdx := idx } [] where
  produced := by simp
  parent := rfl
  next := by simp
  tokens := by simp
  slots := by simp

end Calls

/-! ## The manager -/

namespace StandardCacheManager

variable {m t u : StandardCacheManager B} {seqId : SeqId} {seq seq' : Sequence B}

/-- The fields of a sequence that `_record_prefix_materialization` reads. -/
structure SameHit (seq' seq : Sequence B) : Prop where
  multimodal : seq'.hasMultimodalDigest = seq.hasMultimodalDigest
  lastBlock : seq'.prefixCacheHitLastBlockId = seq.prefixCacheHitLastBlockId
  blockCount : seq'.prefixCacheHitBlockCount = seq.prefixCacheHitBlockCount

/-- Nothing of the sequence is recorded. -/
def NotRecorded (m : StandardCacheManager B) (seq : Sequence B) : Prop :=
  seq.hasMultimodalDigest = true ∨ m.enablePrefixCaching = false

/-- The manager `t` is `m` with the stream recorded for a sequence it had nothing recorded for. -/
def Materialized (m : StandardCacheManager B) (seqId : SeqId) (seq : Sequence B)
    (stream : TokenStream) (t : StandardCacheManager B) : Prop :=
  (m.NotRecorded seq ∨ stream = []) ∧ t = m ∨
    ¬ m.NotRecorded seq ∧ stream ≠ [] ∧ ∃ state blocks,
      Represents m.stableBlockId m.prefixCacheBlockSize seq.prefixCacheHitLastBlockId
        seq.prefixCacheHitBlockCount stream state blocks ∧
      t = { m with
        prefixRuntimeStates := m.prefixRuntimeStates.set seqId state
        pendingPrefixBlocks := m.pendingPrefixBlocks.set seqId
          ((m.pendingPrefixBlocks.get? seqId).getD [] ++ blocks) }

theorem recordPrefixMaterialization_skip (h : m.NotRecorded seq) (chunk : TokenStream) :
    recordPrefixMaterialization seqId seq chunk.tokens chunk.slots m = .ok () m := by
  unfold NotRecorded at h
  unfold recordPrefixMaterialization
  rw [get_bind, if_pos h]
  rfl

theorem recordPrefixMaterialization_empty :
    recordPrefixMaterialization seqId seq [] [] m = .ok () m := by
  unfold recordPrefixMaterialization
  rw [get_bind]
  split
  · rfl
  · rfl

theorem recordPrefixMaterialization_ok (h : ¬ m.NotRecorded seq) {chunk : TokenStream}
    (hchunk : chunk ≠ []) {left : PrefixRuntimeState B} {more : List (PendingPrefixBlock B)}
    (hrecord : (m.runtimeState seqId seq).record (fullBlockId m.stableBlockId m.prefixCache.blockSize)
      m.prefixCacheBlockSize chunk.tokens chunk.slots = .ok (left, more)) :
    recordPrefixMaterialization seqId seq chunk.tokens chunk.slots m = .ok () { m with
      prefixRuntimeStates := m.prefixRuntimeStates.set seqId left
      pendingPrefixBlocks := m.pendingPrefixBlocks.set seqId
        ((m.pendingPrefixBlocks.get? seqId).getD [] ++ more) } := by
  unfold NotRecorded at h
  unfold recordPrefixMaterialization
  rw [get_bind, if_neg h, raiseIf_bind, if_neg (by simp), if_neg (by simpa using hchunk), hrecord]
  rfl

theorem SameHit.notRecorded (h : SameHit seq' seq) :
    m.NotRecorded seq' ↔ m.NotRecorded seq := by
  unfold NotRecorded
  rw [h.multimodal]

/-- A call on the manager it was the first to find, or on one with something recorded. -/
theorem Materialized.record_of_represents (hsize : 0 < t.prefixCacheBlockSize)
    (hindex : t.prefixCache.blockSize = t.prefixCacheBlockSize) (hrecords : ¬ t.NotRecorded seq')
    {parent : Option B} {idx : Nat} {stream chunk : TokenStream} (hchunk : chunk ≠ [])
    {blocks : List (PendingPrefixBlock B)}
    (h : Represents t.stableBlockId t.prefixCacheBlockSize parent idx stream
      (t.runtimeState seqId seq') blocks) :
    ∃ left more, Represents t.stableBlockId t.prefixCacheBlockSize parent idx (stream ++ chunk) left
        (blocks ++ more) ∧
      recordPrefixMaterialization seqId seq' chunk.tokens chunk.slots t = .ok () { t with
        prefixRuntimeStates := t.prefixRuntimeStates.set seqId left
        pendingPrefixBlocks := t.pendingPrefixBlocks.set seqId
          ((t.pendingPrefixBlocks.get? seqId).getD [] ++ more) } := by
  obtain ⟨left, more, hrun, hnext⟩ := record_represents hsize chunk h
  refine ⟨left, more, hnext, recordPrefixMaterialization_ok hrecords hchunk ?_⟩
  rw [hindex]
  exact hrun

/-- **One call appends its chunk to the stream recorded.** -/
theorem Materialized.record (hsize : 0 < m.prefixCacheBlockSize)
    (hindex : m.prefixCache.blockSize = m.prefixCacheBlockSize)
    (hfresh : m.prefixRuntimeStates.get? seqId = none) (hseq : SameHit seq' seq)
    {stream : TokenStream} (h : Materialized m seqId seq stream t) (chunk : TokenStream) :
    ∃ u, recordPrefixMaterialization seqId seq' chunk.tokens chunk.slots t = .ok () u ∧
      Materialized m seqId seq (stream ++ chunk) u := by
  by_cases hchunk : chunk = []
  · subst chunk
    rw [List.append_nil]
    exact ⟨t, recordPrefixMaterialization_empty, h⟩
  have hne : stream ++ chunk ≠ [] := by simp [hchunk]
  rcases h with ⟨hskip, rfl⟩ | ⟨hrecords, -, state, blocks, hrep, rfl⟩
  · by_cases hnone : t.NotRecorded seq
    · exact ⟨t, recordPrefixMaterialization_skip (hseq.notRecorded.mpr hnone) chunk,
        Or.inl ⟨Or.inl hnone, rfl⟩⟩
    · obtain rfl := hskip.resolve_left hnone
      have hstart : t.runtimeState seqId seq' =
          { parentBlockId := seq.prefixCacheHitLastBlockId,
            nextLogicalBlockIdx := seq.prefixCacheHitBlockCount } := by
        unfold runtimeState
        rw [hfresh, hseq.lastBlock, hseq.blockCount]
        rfl
      have hempty := Represents.empty t.stableBlockId t.prefixCacheBlockSize
        seq.prefixCacheHitLastBlockId seq.prefixCacheHitBlockCount
      rw [← hstart] at hempty
      obtain ⟨left, more, hnext, hrun⟩ := Materialized.record_of_represents hsize hindex
        (fun h => hnone (hseq.notRecorded.mp h)) hchunk hempty
      exact ⟨_, hrun, Or.inr ⟨hnone, hne, left, more, hnext, rfl⟩⟩
  · have hstate : ({ m with
        prefixRuntimeStates := m.prefixRuntimeStates.set seqId state
        pendingPrefixBlocks := m.pendingPrefixBlocks.set seqId
          ((m.pendingPrefixBlocks.get? seqId).getD [] ++ blocks) } :
          StandardCacheManager B).runtimeState seqId seq' = state := by
      simp [runtimeState]
    obtain ⟨left, more, hnext, hrun⟩ := Materialized.record_of_represents
      (t := { m with
        prefixRuntimeStates := m.prefixRuntimeStates.set seqId state
        pendingPrefixBlocks := m.pendingPrefixBlocks.set seqId
          ((m.pendingPrefixBlocks.get? seqId).getD [] ++ blocks) }) hsize hindex
      (fun h => hrecords (hseq.notRecorded.mp h)) hchunk (hstate ▸ hrep)
    refine ⟨_, hrun, Or.inr ⟨hrecords, hne, left, blocks ++ more, hnext, ?_⟩⟩
    simp [List.append_assoc]

/-- The calls of a list, in order. -/
theorem Materialized.records (hsize : 0 < m.prefixCacheBlockSize)
    (hindex : m.prefixCache.blockSize = m.prefixCacheBlockSize)
    (hfresh : m.prefixRuntimeStates.get? seqId = none) {calls : List (Sequence B × TokenStream)}
    (hcalls : ∀ call ∈ calls, SameHit call.1 seq) {stream : TokenStream}
    (h : Materialized m seqId seq stream t) :
    ∃ u, forEach calls (fun call =>
        recordPrefixMaterialization seqId call.1 call.2.tokens call.2.slots) t = .ok () u ∧
      Materialized m seqId seq (stream ++ calls.flatMap (·.2)) u := by
  induction calls generalizing stream t with
  | nil => exact ⟨t, rfl, by simpa using h⟩
  | cons call calls ih =>
    obtain ⟨u, hrun, hu⟩ := h.record hsize hindex hfresh (hcalls call List.mem_cons_self) call.2
    obtain ⟨v, hrest, hv⟩ := ih (fun c hc => hcalls c (List.mem_cons_of_mem _ hc)) hu
    refine ⟨v, (bind_ok hrun).trans hrest, ?_⟩
    rw [List.flatMap_cons, ← List.append_assoc]
    exact hv

/-- The same blocks pend for the sequence, and the same tokens with the same slots are left over. -/
structure SameMaterialization (seqId : SeqId) (t u : StandardCacheManager B) : Prop where
  blocks : t.pendingPrefixBlocks = u.pendingPrefixBlocks
  left : Option.Rel (fun a b => a.parentBlockId = b.parentBlockId ∧
      a.nextLogicalBlockIdx = b.nextLogicalBlockIdx ∧ a.pendingTokens = b.pendingTokens ∧
      a.pendingSlots.flatten = b.pendingSlots.flatten)
    (t.prefixRuntimeStates.get? seqId) (u.prefixRuntimeStates.get? seqId)

theorem Materialized.same (hfresh : m.prefixRuntimeStates.get? seqId = none) {stream : TokenStream}
    (ht : Materialized m seqId seq stream t) (hu : Materialized m seqId seq stream u) :
    SameMaterialization seqId t u := by
  rcases ht with ⟨hskip, rfl⟩ | ⟨hrecords, hne, state, blocks, hrep, rfl⟩
  · rcases hu with ⟨-, rfl⟩ | ⟨hrecords, hne, -⟩
    · exact ⟨rfl, by rw [hfresh]; exact .none⟩
    · rcases hskip with hskip | hskip
      · exact absurd hskip hrecords
      · exact absurd hskip hne
  · rcases hu with ⟨hskip, -⟩ | ⟨-, -, state', blocks', hrep', rfl⟩
    · rcases hskip with hskip | hskip
      · exact absurd hskip hrecords
      · exact absurd hskip hne
    · have hblocks : blocks = blocks' := hrep.produced.trans hrep'.produced.symm
      subst blocks'
      refine ⟨rfl, ?_⟩
      simp only [Dict.get?_set_self]
      exact .some ⟨hrep.parent.trans hrep'.parent.symm, hrep.next.trans hrep'.next.symm,
        hrep.tokens.trans hrep'.tokens.symm, hrep.slots.trans hrep'.slots.symm⟩

/-- **Block materialisation does not depend on chunking**: consecutive calls, of any sizes, leave the
pending blocks and the leftover that one call with the whole stream leaves, which are the consecutive
full blocks of the stream, chained from the last block of the hit, and the rest. -/
theorem materialization_chunking (hsize : 0 < m.prefixCacheBlockSize)
    (hindex : m.prefixCache.blockSize = m.prefixCacheBlockSize)
    (hfresh : m.prefixRuntimeStates.get? seqId = none) {calls : List (Sequence B × TokenStream)}
    (hcalls : ∀ call ∈ calls, SameHit call.1 seq) :
    ∃ t u, forEach calls (fun call =>
        recordPrefixMaterialization seqId call.1 call.2.tokens call.2.slots) m = .ok () t ∧
      recordPrefixMaterialization seqId seq (TokenStream.tokens (calls.flatMap (·.2)))
        (TokenStream.slots (calls.flatMap (·.2))) m = .ok () u ∧
      SameMaterialization seqId t u ∧ Materialized m seqId seq (calls.flatMap (·.2)) t := by
  have hstart : Materialized m seqId seq [] m := Or.inl ⟨Or.inr rfl, rfl⟩
  obtain ⟨t, hrun, ht⟩ := hstart.records hsize hindex hfresh hcalls
  obtain ⟨u, hrun', hu⟩ :=
    hstart.record hsize hindex hfresh ⟨rfl, rfl, rfl⟩ (calls.flatMap (·.2))
  exact ⟨t, u, hrun, hrun', ht.same hfresh hu, ht⟩

/-- A manager with blocks of two tokens, and a sequence that hit one block. -/
def pairManager : StandardCacheManager Nat where
  stableBlockId := fun tokens parent => tokens.foldl (fun id token => 10 * id + token.toNat)
    (parent.getD 0)
  prefixCacheBlockSize := 2
  maxNumBatchedTokens := 8
  maxDecodingSeqs := 2
  enablePrefixCaching := true
  offloadEnabled := false
  freeSlots := []
  freeRows := []
  controller :=
    { prefixCache := { blockSize := 2, maxBlocks := none }
      blockSize := 2 }

def hitSeq : Sequence Nat where
  tokenIds := [1, 2, 3, 4, 5]
  numTokens := 5
  numPromptTokens := 5
  prefixCacheHitBlockCount := 1
  prefixCacheHitLastBlockId := some 12

/-- Its tokens from the third on, in a chunk of three and two single ones. -/
def pairCalls : List (Sequence Nat × TokenStream) :=
  [(hitSeq, [(3, 0), (4, 1), (5, 2)]), (hitSeq, [(6, 3)]), (hitSeq, [(7, 4)])]

theorem materialization_chunking_pairCalls :
    ∃ t u, forEach pairCalls (fun call =>
        recordPrefixMaterialization 0 call.1 call.2.tokens call.2.slots) pairManager = .ok () t ∧
      recordPrefixMaterialization 0 hitSeq
        (TokenStream.tokens (pairCalls.flatMap (·.2)))
        (TokenStream.slots (pairCalls.flatMap (·.2))) pairManager = .ok () u ∧
      SameMaterialization 0 t u ∧
      Materialized pairManager 0 hitSeq (pairCalls.flatMap (·.2)) t :=
  materialization_chunking (by decide) rfl rfl (by
    intro call hcall
    simp only [pairCalls, List.mem_cons, List.not_mem_nil, or_false] at hcall
    rcases hcall with rfl | rfl | rfl
    · exact ⟨rfl, rfl, rfl⟩
    · exact ⟨rfl, rfl, rfl⟩
    · exact ⟨rfl, rfl, rfl⟩)

end StandardCacheManager

end SparseVllm
