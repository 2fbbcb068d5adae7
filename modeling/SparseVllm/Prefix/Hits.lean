import SparseVllm.Prefix.Routing

/-!
# Prefix hits are true

A request asks for the ids of its blocks and takes the payloads of the chain it finds. The ids are
chained hashes of its tokens, so what it takes has been written for these tokens, if every block was
inserted with a payload written for its id.

* `Written` is kept by every call, whatever is evicted, deleted, offloaded or touched in between.
* **`prefix_hits_true`**: the chain of a lookup is found, it has the blocks of the first ids of the
  request, and the next block of the request is not indexed.
-/

namespace SparseVllm

open SparseVllm.Lib

namespace RadixPrefixIndex

variable {B P : Type} [LinearOrder B] {hash : List Int → Option B → B} {written : B → P → Prop}
  {s t : RadixPrefixIndex B P}

/-- Every block has a payload that was written for its id. -/
def Written (written : B → P → Prop) (s : RadixPrefixIndex B P) : Prop :=
  ∀ id b, s.getBlock id = some b → written id b.payload

/-- Blocks are full, inserted under the id of their tokens and their parent, and with a payload that
was written for it. -/
def InsertsWritten (hash : List Int → Option B → B) (written : B → P → Prop)
    (s : RadixPrefixIndex B P) : IndexOp B P → Prop
  | .insert block => (block.tokenIds.length = s.blockSize ∧
      block.stableBlockId = hash block.tokenIds block.parentBlockId) ∧
        written block.stableBlockId block.payload
  | _ => True

/-! ## Payloads stay -/

theorem Written.of_blocks (h : Written written s)
    (hblocks : ∀ id b', t.getBlock id = some b' →
      ∃ b, s.getBlock id = some b ∧ b'.payload = b.payload) : Written written t := by
  intro id b' hb'
  obtain ⟨b, hb, hpayload⟩ := hblocks id b' hb'
  rw [hpayload]
  exact h id b hb

theorem Written.retagged (h : Written written s) (ht : Retagged SameShape s t) : Written written t := by
  refine h.of_blocks fun id b' hb' => ?_
  obtain ⟨b, hb, hsame⟩ := ht.backward hb'
  exact ⟨b, hb, hsame.payload⟩

theorem Written.resided {id : B} {b : PrefixCacheBlock B P} {r : PrefixBlockResidency}
    (h : Written written s) (hb : s.getBlock id = some b) : Written written (s.resided id b r) := by
  refine h.of_blocks fun q b' hb' => ?_
  rw [getBlock_resided] at hb'
  split at hb'
  · subst q
    obtain rfl := Option.some.inj hb'
    exact ⟨b, hb, rfl⟩
  · exact ⟨b', hb', rfl⟩

theorem Written.change (h : Written written s) (hchange : Change s t) : Written written t := by
  cases hchange with
  | minor tags _ => exact h.retagged tags.shape
  | retag tags _ => exact h.retagged tags
  | reside here _ => exact h.resided here
  | remove _ _ gone =>
    refine h.of_blocks fun q b hb => ?_
    rw [gone.getBlock] at hb
    split at hb
    · cases hb
    · exact ⟨b, hb, rfl⟩
  | memo view _ => exact h

theorem Written.changes (h : Written written s) (hchanges : Relation.ReflTransGen Change s t) :
    Written written t := by
  induction hchanges with
  | refl => exact h
  | tail _ hlast ih => exact ih.change hlast

theorem Written.inserted {block : PrefixCacheBlock B P} (h : Written written s)
    (hnew : written block.stableBlockId block.payload) (ht : Inserted s block t) :
    Written written t := by
  intro q b hb
  rw [ht.getBlock] at hb
  split at hb
  · obtain rfl := Option.some.inj hb
    rename_i heq
    rw [heq]
    exact hnew
  · exact h q b hb

theorem Written.outcome {op : IndexOp B P} (h : Written written s)
    (hop : InsertsWritten hash written s op) (ht : Outcome s op t) : Written written t := by
  cases ht with
  | changes steps => exact h.changes steps
  | inserted new => exact h.inserted hop.2 new
  | aborted here _ _ => exact h.resided here

/-! ## Chains -/

theorem recoverChain_blocks (expected : Int) {ids : List B}
    (hids : ∀ id ∈ ids, ∃ b, s.getBlock id = some b) : ∃ chain,
      recoverChain expected ids s = .ok chain s ∧
        List.Forall₂ (fun id b => s.getBlock id = some b) ids chain := by
  induction ids with
  | nil => exact ⟨[], rfl, .nil⟩
  | cons id ids ih =>
    obtain ⟨b, hb⟩ := hids id List.mem_cons_self
    obtain ⟨chain, hchain, hblocks⟩ := ih fun q hq => hids q (List.mem_cons_of_mem _ hq)
    refine ⟨b :: chain, ?_, .cons hb hblocks⟩
    unfold recoverChain
    rw [bind_ok (indexed_some _ hb), bind_ok hchain]
    rfl

/-- The chain of the last block of a path from the root. -/
theorem getChain_blocks (hs : Indexed s) {path : List B} {last : B} (hlast : path.getLast? = some last)
    (hpath : ∀ e ∈ RadixForest.chainEdges none path, e ∈ s.backend.edges) : ∃ chain,
      getChain last path.length s = .ok chain s ∧
        List.Forall₂ (fun id b => s.getBlock id = some b) path chain := by
  have hindexed : ∀ id ∈ path, ∃ b, s.getBlock id = some b := by
    intro id hid
    rw [← RadixForest.chainEdges_fst none path] at hid
    obtain ⟨e, he, rfl⟩ := List.mem_map.mp hid
    obtain ⟨b, hb, -⟩ := (hs.edges e.1 e.2).mp (hpath e he)
    exact ⟨b, hb⟩
  have hmem : last ∈ s.backend.ids := hs.mem_ids.mpr (hindexed last (List.mem_of_getLast? hlast))
  obtain ⟨hend, hchain⟩ := RadixTreeBackend.pathToBlock_chain hmem
  have hsame : s.backend.pathToBlock last = path :=
    RadixTreeBackend.chain_unique _ hchain hpath (hend.trans hlast.symm)
  have hpos : 0 < path.length := by
    refine List.length_pos_iff.mpr fun hnil => ?_
    rw [hnil] at hlast
    cases hlast
  obtain ⟨chain, hrecover, hblocks⟩ := recoverChain_blocks (path.length : Int) hindexed
  refine ⟨chain, ?_, hblocks⟩
  unfold getChain
  rw [raiseIf_bind, if_neg (by omega), get_bind, raiseIf_bind, if_neg (not_not.mpr hmem), raiseIf_bind,
    if_neg (by rw [hsame]; omega), hsame, Int.toNat_natCast, Nat.sub_self, List.drop_zero]
  exact hrecover

/-! ## Lookups -/

/-- The element after the longest run does not belong to it. -/
theorem eq_false_of_getElem?_takeWhile {α : Type} {p : α → Bool} {l : List α} {a : α}
    (h : l[(l.takeWhile p).length]? = some a) : p a = false := by
  induction l with
  | nil => cases h
  | cons x l ih =>
    rw [List.takeWhile_cons] at h
    split at h
    · exact ih h
    · rename_i hx
      cases h
      simpa using hx

/-- `chain` are the indexed blocks of the first ids of a request, with payloads written for them, and
the next id is not indexed. -/
structure LongestHit (written : B → P → Prop) (s : RadixPrefixIndex B P) (ids : List B)
    (chain : List (PrefixCacheBlock B P)) : Prop where
  blocks : List.Forall₂ (fun id b => s.getBlock id = some b ∧ written id b.payload)
    (ids.take chain.length) chain
  longest : ∀ id, ids[chain.length]? = some id → s.getBlock id = none

/-- **Prefix hits are true.** After any history of calls whose inserts are written for their ids, a
lookup returns the length of the longest indexed run of the request's blocks, at most the tokens it
may use; `get_chain` finds that run without changing the index, and its payloads are those written
for the ids of the request's own tokens. -/
theorem prefix_hits_true {blockSize : Nat} {maxBlocks : Option Nat}
    (hfree : CollisionFree hash blockSize)
    (run : Reachable IndexOp.exec (InsertsWritten hash written) (initial blockSize maxBlocks) s)
    (tokenIds : List Int) (maxUsableTokens : Nat) :
    ∃ chain, LongestHit written s (blockIdsForTokens hash blockSize tokenIds maxUsableTokens) chain ∧
      s.matchLongestPrefix hash tokenIds maxUsableTokens = (chain.length * blockSize,
        ((blockIdsForTokens hash blockSize tokenIds maxUsableTokens).take chain.length).getLast?,
          chain.length) ∧
      chain.length * blockSize ≤ min maxUsableTokens tokenIds.length ∧
      ∀ last, (s.matchLongestPrefix hash tokenIds maxUsableTokens).2.1 = some last →
        getChain last chain.length s = .ok chain s := by
  have hinv : Indexed s ∧ Hashed hash s ∧ s.blockSize = blockSize ∧ Written written s := by
    refine run.invariant (I := fun t => Indexed t ∧ Hashed hash t ∧ t.blockSize = blockSize ∧
      Written written t) ⟨indexed_initial _ _, fun id b hb => ?_, rfl, fun id b hb => ?_⟩
      fun t op ht hop => ?_
    · cases hb
    · cases hb
    · obtain ⟨hs, hh, hsize, hwritten⟩ := ht
      have houtcome := op.outcome hs
      have hids : ∀ block, op = .insert block → block.tokenIds.length = t.blockSize ∧
          block.stableBlockId = hash block.tokenIds block.parentBlockId := by
        rintro block rfl
        exact hop.1
      obtain ⟨hhashed, hsame⟩ := houtcome.hashed hh hids
      exact ⟨houtcome.indexed hs, hhashed, hsame.trans hsize, hwritten.outcome hop houtcome⟩
  obtain ⟨hs, hh, rfl, hwritten⟩ := hinv
  generalize hids : blockIdsForTokens hash s.blockSize tokenIds maxUsableTokens = ids
  have hholds : ∀ id, (s.getBlock id).isSome = true ↔ ∃ b, s.getBlock id = some b :=
    fun id => Option.isSome_iff_exists
  have hlength : min maxUsableTokens tokenIds.length / s.blockSize * s.blockSize ≤ tokenIds.length :=
    (Nat.div_mul_le_self _ _).trans (Nat.min_le_right _ _)
  have hrouted := lookup_eq_routedIds hs hh hfree hholds hlength hids.symm
  have hcount : (s.backend.lookup ids ids.length).length * s.blockSize ≤
      min maxUsableTokens tokenIds.length := by
    rw [hrouted]
    exact (Nat.mul_le_mul_right _ (length_routedIds_le hash _ _ _ _ _)).trans (Nat.div_mul_le_self _ _)
  have hwhile : s.backend.lookup ids ids.length = ids.takeWhile fun id => (s.getBlock id).isSome := by
    rw [hrouted, routedIds_eq]
    exact congrArg _ hids
  have htake : ids.take (s.backend.lookup ids ids.length).length = s.backend.lookup ids ids.length :=
    (List.prefix_iff_eq_take.mp (RadixTreeBackend.lookup_prefix ids ids.length)).symm
  have hnext : ∀ id, ids[(s.backend.lookup ids ids.length).length]? = some id →
      s.getBlock id = none := by
    intro id hid
    rw [hwhile] at hid
    simpa using eq_false_of_getElem?_takeWhile hid
  have hmatch : s.matchLongestPrefix hash tokenIds maxUsableTokens =
      ((s.backend.lookup ids ids.length).length * s.blockSize,
        (s.backend.lookup ids ids.length).getLast?, (s.backend.lookup ids ids.length).length) := by
    unfold matchLongestPrefix matchLongestBlockIds
    rw [hids]
  have hpath := RadixTreeBackend.lookup_chain (t := s.backend) ids ids.length
  generalize s.backend.lookup ids ids.length = hit at hcount htake hnext hmatch hpath
  cases hlast : hit.getLast? with
  | none =>
    obtain rfl := List.getLast?_eq_none_iff.mp hlast
    refine ⟨[], ⟨.nil, hnext⟩, ?_, hcount, fun last hsome => ?_⟩
    · rw [hmatch]
      rfl
    · rw [hmatch] at hsome
      cases hsome
  | some last =>
    obtain ⟨chain, hchain, hblocks⟩ := getChain_blocks hs hlast hpath
    have hsame := hblocks.length_eq
    refine ⟨chain, ⟨?_, hsame ▸ hnext⟩, ?_, hsame ▸ hcount, fun other hother => ?_⟩
    · rw [← hsame, htake]
      exact hblocks.imp fun id b hb => ⟨hb, hwritten id b hb⟩
    · rw [hmatch, ← hsame, htake]
    · rw [hmatch] at hother
      obtain rfl : last = other := Option.some.inj (hlast.symm.trans hother)
      rw [← hsame]
      exact hchain

/-- Two blocks, one of which has been evicted. -/
theorem prefix_hits_true_evicted :
    let s : RadixPrefixIndex (List Int) Unit := runAll IndexOp.exec (initial 1 none)
      [.insert (pathBlock 7 none 0), .insert (pathBlock 8 (some [0, 7]) 1), .evict 1 fun _ => 1]
    ∃ chain, LongestHit (fun id _ => id ∈ [[0, 7], [1, 8, 0, 7]]) s
      (blockIdsForTokens pathId 1 [7, 8, 9] 2) chain ∧ chain.length = 1 := by
  intro s
  have hrun : Reachable IndexOp.exec (InsertsWritten pathId fun id _ => id ∈ [[0, 7], [1, 8, 0, 7]])
      (initial 1 none) s :=
    Reachable.init.runAll ⟨⟨⟨rfl, rfl⟩, by decide⟩, ⟨⟨rfl, rfl⟩, by decide⟩, trivial, trivial⟩
  obtain ⟨chain, hhit, hmatch, -⟩ := prefix_hits_true (pathId_collisionFree 1) hrun [7, 8, 9] 2
  have hlookup : (s.matchLongestPrefix pathId [7, 8, 9] 2).2.2 = 1 := by decide +kernel
  rw [hmatch] at hlookup
  exact ⟨chain, hhit, hlookup⟩

end RadixPrefixIndex

end SparseVllm
