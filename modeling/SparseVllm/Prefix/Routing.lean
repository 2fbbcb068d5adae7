import Mathlib.Data.List.TakeWhile
import Mathlib.Order.Lex
import Mathlib.Data.List.Lex
import SparseVllm.Prefix.IndexSpec

/-!
# Routing agrees with the index

A snapshot probes its set of ids block by block (`routedIds`); `match_longest_prefix` walks the
radix tree along compressed edges (`lookup`). Both stop at the first block of the prompt that is
not indexed: the set holds the indexed ids (`Indexed.routing`), and an indexed id determines the
block's parent, so a chain of indexed ids is a path of the tree (`mem_edges_of_indexed`).

Headline: **`routing_agrees`**. In every state of every run, a snapshot taken then and every
snapshot taken before answer as the index did when they were taken.
-/

namespace SparseVllm

open SparseVllm.Lib

namespace RadixPrefixIndex

variable {B P : Type} [LinearOrder B] {hash : List Int → Option B → B}

/-- `match_longest_prefix`. -/
def matchLongestPrefix (hash : List Int → Option B → B) (s : RadixPrefixIndex B P)
    (tokenIds : List Int) (maxUsableTokens : Nat) : Nat × Option B × Nat :=
  s.matchLongestBlockIds (blockIdsForTokens hash s.blockSize tokenIds maxUsableTokens)

/-- The ids of full blocks do not collide. -/
def CollisionFree (hash : List Int → Option B → B) (blockSize : Nat) : Prop :=
  ∀ tokens parent tokens' parent', tokens.length = blockSize → tokens'.length = blockSize →
    hash tokens parent = hash tokens' parent' → tokens = tokens' ∧ parent = parent'

/-- Every block is indexed under the id of a full block below its parent. -/
def Hashed (hash : List Int → Option B → B) (s : RadixPrefixIndex B P) : Prop :=
  ∀ id b, s.getBlock id = some b →
    ∃ tokens : List Int, tokens.length = s.blockSize ∧ id = hash tokens b.parentBlockId

/-! ## Ids stay hashed -/

section Ids

variable {s t : RadixPrefixIndex B P}

theorem Hashed.of_blocks (h : Hashed hash s) (hsize : t.blockSize = s.blockSize)
    (hblocks : ∀ id b', t.getBlock id = some b' →
      ∃ b, s.getBlock id = some b ∧ b'.parentBlockId = b.parentBlockId) : Hashed hash t := by
  intro id b' hb'
  obtain ⟨b, hb, hparent⟩ := hblocks id b' hb'
  obtain ⟨tokens, hfull, hid⟩ := h id b hb
  exact ⟨tokens, hfull.trans hsize.symm, hparent ▸ hid⟩

theorem Hashed.retagged (h : Hashed hash s) (ht : Retagged SameShape s t) : Hashed hash t := by
  refine h.of_blocks ht.routing.blockSize fun id b' hb' => ?_
  obtain ⟨b, hb, hsame⟩ := ht.backward hb'
  exact ⟨b, hb, hsame.parent⟩

theorem Hashed.resided {id : B} {b : PrefixCacheBlock B P} {r : PrefixBlockResidency}
    (h : Hashed hash s) (hb : s.getBlock id = some b) : Hashed hash (s.resided id b r) := by
  refine h.of_blocks rfl fun q b' hb' => ?_
  rw [getBlock_resided] at hb'
  split at hb'
  · subst q
    obtain rfl := Option.some.inj hb'
    exact ⟨b, hb, rfl⟩
  · exact ⟨b', hb', rfl⟩

theorem Hashed.removed {id : B} (h : Hashed hash s) (ht : Removed s id t) : Hashed hash t := by
  refine h.of_blocks ht.blockSize fun q b hb => ?_
  rw [ht.getBlock] at hb
  split at hb
  · cases hb
  · exact ⟨b, hb, rfl⟩

theorem Change.hashed (h : Hashed hash s) (hchange : Change s t) :
    Hashed hash t ∧ t.blockSize = s.blockSize := by
  cases hchange with
  | minor tags _ => exact ⟨h.retagged tags.shape, tags.routing.blockSize⟩
  | retag tags _ => exact ⟨h.retagged tags, tags.routing.blockSize⟩
  | reside here _ => exact ⟨h.resided here, rfl⟩
  | remove _ _ gone => exact ⟨h.removed gone, gone.blockSize⟩
  | memo view _ => exact ⟨h, rfl⟩

theorem Hashed.changes (h : Hashed hash s) (hchanges : Relation.ReflTransGen Change s t) :
    Hashed hash t ∧ t.blockSize = s.blockSize := by
  induction hchanges with
  | refl => exact ⟨h, rfl⟩
  | tail _ hlast ih =>
    obtain ⟨hhashed, hsize⟩ := hlast.hashed ih.1
    exact ⟨hhashed, hsize.trans ih.2⟩

/-- A new block has to bring the id of its tokens and its parent. -/
theorem Hashed.inserted {block : PrefixCacheBlock B P} (h : Hashed hash s)
    (hfull : block.tokenIds.length = s.blockSize)
    (hid : block.stableBlockId = hash block.tokenIds block.parentBlockId)
    (ht : Inserted s block t) : Hashed hash t := by
  intro q b hb
  rw [ht.getBlock] at hb
  split at hb
  · obtain rfl := Option.some.inj hb
    exact ⟨block.tokenIds, hfull.trans ht.blockSize.symm, ‹q = _›.trans hid⟩
  · obtain ⟨tokens, hfull', hid'⟩ := h q b hb
    exact ⟨tokens, hfull'.trans ht.blockSize.symm, hid'⟩

end Ids

/-! ## One prompt -/

section Prompts

variable {s : RadixPrefixIndex B P}

/-- An indexed id of a prompt hangs below the id before it. -/
theorem mem_edges_of_indexed (hs : Indexed s) (hh : Hashed hash s)
    (hfree : CollisionFree hash s.blockSize) {tokens : List Int} {parent : Option B}
    (hfull : tokens.length = s.blockSize)
    (hindexed : ∃ b, s.getBlock (hash tokens parent) = some b) :
    (hash tokens parent, parent) ∈ s.backend.edges := by
  obtain ⟨b, hb⟩ := hindexed
  obtain ⟨tokens', hfull', hid⟩ := hh _ b hb
  obtain ⟨-, hparent⟩ := hfree _ _ _ _ hfull hfull' hid
  exact (hs.edges _ _).mpr ⟨b, hb, hparent.symm⟩

omit [LinearOrder B] in
theorem routedIds_eq (holds : B → Bool) (blockSize n : Nat) (parent : Option B)
    (rest : List Int) : routedIds hash blockSize holds n parent rest =
      (blockIdsForTokens.go hash blockSize n parent rest).takeWhile holds := by
  induction n generalizing parent rest with
  | zero => rfl
  | succ n ih =>
    unfold routedIds blockIdsForTokens.go
    rw [List.takeWhile_cons]
    by_cases hhold : holds (hash (rest.take blockSize) parent) = true
    · simp only [hhold, if_true, ih]
    · simp only [hhold, if_false, Bool.false_eq_true]

/-- The ids a snapshot finds are a path of the tree. -/
theorem routedIds_edges (hs : Indexed s) (hh : Hashed hash s)
    (hfree : CollisionFree hash s.blockSize) {holds : B → Bool}
    (hholds : ∀ id, holds id = true ↔ ∃ b, s.getBlock id = some b) (n : Nat) :
    ∀ (parent : Option B) (rest : List Int), n * s.blockSize ≤ rest.length →
      ∀ e ∈ RadixForest.chainEdges parent (routedIds hash s.blockSize holds n parent rest),
        e ∈ s.backend.edges := by
  induction n with
  | zero => exact fun _ _ _ e he => nomatch he
  | succ n ih =>
    intro parent rest hlength e he
    rw [Nat.succ_mul] at hlength
    unfold routedIds at he
    by_cases hhold : holds (hash (rest.take s.blockSize) parent) = true
    · simp only [hhold, if_true, RadixForest.chainEdges] at he
      have hfull : (rest.take s.blockSize).length = s.blockSize :=
        List.length_take_of_le (by omega)
      rcases List.mem_cons.mp he with rfl | he
      · exact mem_edges_of_indexed hs hh hfree hfull ((hholds _).mp hhold)
      · exact ih _ _ (by rw [List.length_drop]; omega) e he
    · simp only [hhold, if_false, Bool.false_eq_true] at he
      cases he

/-- **The lookup stops at the first id that is not indexed.** -/
theorem lookup_eq_routedIds (hs : Indexed s) (hh : Hashed hash s)
    (hfree : CollisionFree hash s.blockSize) {holds : B → Bool}
    (hholds : ∀ id, holds id = true ↔ ∃ b, s.getBlock id = some b) {n : Nat} {tokenIds : List Int}
    (hlength : n * s.blockSize ≤ tokenIds.length) {ids : List B}
    (hids : ids = blockIdsForTokens.go hash s.blockSize n none tokenIds) :
    s.backend.lookup ids ids.length = routedIds hash s.blockSize holds n none tokenIds := by
  have hrouted : routedIds hash s.blockSize holds n none tokenIds = ids.takeWhile holds := by
    rw [hids, routedIds_eq]
  obtain ⟨rest, hrest⟩ : s.backend.lookup ids ids.length <+: ids := by
    unfold RadixTreeBackend.lookup
    rw [List.take_length]
    exact RadixForest.matched_prefix _ _
  have hheld : ∀ id ∈ s.backend.lookup ids ids.length, holds id = true := by
    intro id hid
    unfold RadixTreeBackend.lookup at hid
    rw [List.take_length, ← RadixForest.chainEdges_fst none (s.backend.root.matched ids)] at hid
    obtain ⟨e, he, rfl⟩ := List.mem_map.mp hid
    have hedge : e ∈ s.backend.edges := RadixForest.matched_path _ _ none e he
    obtain ⟨b, hb, -⟩ := (hs.edges e.1 e.2).mp hedge
    exact (hholds e.1).mpr ⟨b, hb⟩
  have hshort : s.backend.lookup ids ids.length <+: ids.takeWhile holds := by
    rw [← congrArg (List.takeWhile holds) hrest, List.takeWhile_append_of_pos hheld]
    exact List.prefix_append _ _
  have hlong : ids.takeWhile holds <+: s.backend.lookup ids ids.length := by
    refine RadixTreeBackend.lookup_maximal (List.takeWhile_prefix holds) ?_
    rw [← hrouted]
    exact routedIds_edges hs hh hfree hholds n none tokenIds hlength
  rw [hrouted]
  exact hshort.eq_of_length_le hlong.length_le

omit [LinearOrder B] in
variable (hash) in
theorem length_routedIds_le (holds : B → Bool) (blockSize n : Nat) (parent : Option B)
    (rest : List Int) : (routedIds hash blockSize holds n parent rest).length ≤ n := by
  induction n generalizing parent rest with
  | zero => exact Nat.le_refl 0
  | succ n ih =>
    unfold routedIds
    by_cases hhold : holds (hash (rest.take blockSize) parent) = true
    · simp only [hhold, if_true, List.length_cons]
      exact Nat.succ_le_succ (ih _ _)
    · simp only [hhold, if_false, Bool.false_eq_true]
      exact Nat.zero_le _

end Prompts

/-! ## Snapshots -/

/-- The snapshot answers for the index: `match` returns, with the blocks, tokens and last id of
`match_longest_prefix`, and leaves a token of the prompt to compute. -/
def Answers (hash : List Int → Option B → B) (snapshot : PrefixCacheRoutingSnapshot B)
    (s : RadixPrefixIndex B P) : Prop :=
  ∀ tokenIds : List Int, ∃ r, snapshot.matchTokens hash tokenIds = .ok r ∧
    (r.matchedTokens, r.lastBlockId, r.matchedBlocks) = s.matchLongestPrefix hash tokenIds
      (usablePrefixCacheTokens tokenIds.length s.blockSize) ∧
    (tokenIds ≠ [] → r.matchedTokens < tokenIds.length)

section Snapshots

variable {s : RadixPrefixIndex B P}

theorem newRoutingSnapshot_answers (hs : Indexed s) (hh : Hashed hash s)
    (hfree : CollisionFree hash s.blockSize) (hsize : 0 < s.blockSize) (method : String) :
    Answers hash (s.newRoutingSnapshot method) s := by
  intro tokenIds
  let usable := usablePrefixCacheTokens tokenIds.length s.blockSize
  have husable : usable ≤ tokenIds.length - 1 := usablePrefixCacheTokens_le _ _
  have hmul : usable / s.blockSize * s.blockSize ≤ usable := Nat.div_mul_le_self _ _
  refine ⟨(s.newRoutingSnapshot method).matchBlocks hash s.blockSize tokenIds, ?_, ?_, ?_⟩
  · unfold PrefixCacheRoutingSnapshot.matchTokens newRoutingSnapshot
    obtain ⟨n, hn⟩ := Nat.exists_eq_succ_of_ne_zero (Nat.pos_iff_ne_zero.mp hsize)
    simp [hn]
  · have hholds : ∀ id, (s.newRoutingSnapshot method).containsBlock id = true ↔
        ∃ b, s.getBlock id = some b := fun id => hs.routing.contains_iff
    have hids : blockIdsForTokens hash s.blockSize tokenIds usable =
        blockIdsForTokens.go hash s.blockSize (usable / s.blockSize) none tokenIds := by
      unfold blockIdsForTokens
      rw [Nat.min_eq_left (by omega)]
    unfold matchLongestPrefix matchLongestBlockIds
    rw [lookup_eq_routedIds hs hh hfree hholds (by omega) hids]
    rfl
  · intro hne
    have hpos : 0 < tokenIds.length := List.length_pos_iff.mpr hne
    have hle := length_routedIds_le hash (s.newRoutingSnapshot method).containsBlock
      s.blockSize (usable / s.blockSize) none tokenIds
    have hmatched := Nat.mul_le_mul_right s.blockSize hle
    show (routedIds hash s.blockSize (s.newRoutingSnapshot method).containsBlock
      (usable / s.blockSize) none tokenIds).length * s.blockSize < tokenIds.length
    omega

/-- The set counts as many blocks as are indexed. -/
theorem Indexed.liveBlocks (hs : Indexed s) :
    s.routingMembership.liveBlocks = s.blocks.entries.length := by
  have hmem : ∀ id, id ∈ s.routingMembership.root.elems ↔ id ∈ s.blocks.keys := by
    intro id
    rw [hs.routing.mem]
    unfold getBlock Dict.get?
    rw [← Option.isSome_iff_exists, AList.lookup_isSome]
    rfl
  have hperm : s.routingMembership.root.elems.Perm s.blocks.keys :=
    (List.perm_ext_iff_of_nodup hs.routing.ordered.nodup s.blocks.keys_nodup).mpr hmem
  rw [hs.routing.live, hperm.length_eq]
  unfold AList.keys List.keys
  rw [List.length_map]

/-- **`routing_snapshot`** never raises: it returns the snapshot of the index as it is. -/
theorem routingSnapshot_run (hs : Indexed s) (method : String) :
    ∃ t, routingSnapshot method s = .ok (s.newRoutingSnapshot method) t ∧
      (t = s ∨ t = { s with lastRoutingSnapshot := some (s.newRoutingSnapshot method) }) := by
  unfold routingSnapshot
  rw [get_bind]
  cases hlast : s.lastRoutingSnapshot.filter (·.method = method) with
  | some snapshot =>
    obtain ⟨hmemo, hmethod⟩ := Option.filter_eq_some_iff.mp hlast
    have hsame := hs.snapshot snapshot hmemo
    rw [of_decide_eq_true hmethod] at hsame
    exact ⟨s, by rw [hsame]; rfl, Or.inl rfl⟩
  | none =>
    refine ⟨_, ?_, Or.inr rfl⟩
    simp only [raiseIf_bind]
    rw [if_neg (not_not.mpr hs.liveBlocks)]
    rfl

end Snapshots

/-! ## Runs -/

/-- A call on the index, or a snapshot taken for a method. -/
inductive RoutingOp (B P : Type) where
  | call (op : IndexOp B P)
  | snapshot (method : String)

/-- An index, with the snapshots taken of it so far and the index each was taken of. -/
structure RoutingRun (B P : Type) where
  index : RadixPrefixIndex B P
  taken : List (PrefixCacheRoutingSnapshot B × RadixPrefixIndex B P) := []

/-- What an operation does. -/
def RoutingOp.exec (op : RoutingOp B P) (r : RoutingRun B P) : RoutingRun B P :=
  match op with
  | .call op => { r with index := op.exec r.index }
  | .snapshot method =>
    match routingSnapshot method r.index with
    | .ok taken t => { index := t, taken := (taken, r.index) :: r.taken }
    | .error _ t => { r with index := t }

/-- Blocks are full and inserted under the id of their tokens and their parent. -/
def StableIds (hash : List Int → Option B → B) (r : RoutingRun B P) : RoutingOp B P → Prop
  | .call (.insert block) => block.tokenIds.length = r.index.blockSize ∧
      block.stableBlockId = hash block.tokenIds block.parentBlockId
  | _ => True

/-- What a run keeps. -/
structure Routed (hash : List Int → Option B → B) (blockSize : Nat) (r : RoutingRun B P) :
    Prop where
  indexed : Indexed r.index
  hashed : Hashed hash r.index
  blockSize : r.index.blockSize = blockSize
  taken : ∀ entry ∈ r.taken, Answers hash entry.1 entry.2

section Runs

variable {blockSize : Nat} {r : RoutingRun B P}

theorem Routed.answers (h : Routed hash blockSize r) (hsize : 0 < blockSize)
    (hfree : CollisionFree hash blockSize) (method : String) :
    Answers hash (r.index.newRoutingSnapshot method) r.index :=
  newRoutingSnapshot_answers h.indexed h.hashed (h.blockSize ▸ hfree) (h.blockSize ▸ hsize) method

theorem Outcome.hashed {s t : RadixPrefixIndex B P} {op : IndexOp B P} (h : Hashed hash s)
    (hids : ∀ block, op = .insert block → block.tokenIds.length = s.blockSize ∧
      block.stableBlockId = hash block.tokenIds block.parentBlockId) (hop : Outcome s op t) :
    Hashed hash t ∧ t.blockSize = s.blockSize := by
  cases hop with
  | changes steps => exact h.changes steps
  | inserted new =>
    obtain ⟨hfull, hid⟩ := hids _ rfl
    exact ⟨h.inserted hfull hid new, new.blockSize⟩
  | aborted here _ _ => exact ⟨h.resided here, rfl⟩

theorem Routed.exec (h : Routed hash blockSize r) (hsize : 0 < blockSize)
    (hfree : CollisionFree hash blockSize) {op : RoutingOp B P} (hop : StableIds hash r op) :
    Routed hash blockSize (op.exec r) := by
  cases op with
  | call op =>
    have houtcome := op.outcome h.indexed
    have hids : ∀ block, op = .insert block → block.tokenIds.length = r.index.blockSize ∧
        block.stableBlockId = hash block.tokenIds block.parentBlockId := by
      rintro block rfl
      exact hop
    obtain ⟨hhashed, hsame⟩ := houtcome.hashed h.hashed hids
    exact ⟨houtcome.indexed h.indexed, hhashed, hsame.trans h.blockSize, h.taken⟩
  | snapshot method =>
    obtain ⟨t, hrun, ht⟩ := routingSnapshot_run h.indexed method
    have hexec : (RoutingOp.snapshot method).exec r =
        { index := t, taken := (r.index.newRoutingSnapshot method, r.index) :: r.taken } := by
      unfold RoutingOp.exec
      simp only [hrun]
    rw [hexec]
    have hmemo : ∀ last, t.lastRoutingSnapshot = some last →
        last = t.newRoutingSnapshot last.method := by
      rcases ht with rfl | rfl
      · exact h.indexed.snapshot
      · rintro last ⟨⟩
        rfl
    have hsame : t.blockSize = r.index.blockSize := by
      rcases ht with rfl | rfl <;> rfl
    refine ⟨?_, ?_, hsame.trans h.blockSize, fun entry hentry => ?_⟩
    · rcases ht with rfl | rfl
      · exact h.indexed
      · exact { h.indexed with snapshot := hmemo }
    · rcases ht with rfl | rfl
      · exact h.hashed
      · exact h.hashed
    · rcases List.mem_cons.mp hentry with rfl | hentry
      · exact h.answers hsize hfree method
      · exact h.taken entry hentry

/-- **Routing agrees with the index**: after any history of calls, a snapshot for any method
answers for the index as it is, and every snapshot taken before still answers for the index it was
taken of. -/
theorem routing_agrees {maxBlocks : Option Nat} (hsize : 0 < blockSize)
    (hfree : CollisionFree hash blockSize)
    (run : Reachable RoutingOp.exec (StableIds hash) { index := initial blockSize maxBlocks } r) :
    (∀ method, ∃ snapshot t, routingSnapshot method r.index = .ok snapshot t ∧
      snapshot.method = method ∧ Answers hash snapshot r.index) ∧
    ∀ entry ∈ r.taken, Answers hash entry.1 entry.2 := by
  have hrouted : Routed hash blockSize r := by
    refine run.invariant ⟨indexed_initial _ _, ?_, rfl, ?_⟩ fun _ _ h hop => h.exec hsize hfree hop
    · intro id b hb
      cases hb
    · intro entry hentry
      cases hentry
  refine ⟨fun method => ?_, hrouted.taken⟩
  obtain ⟨t, hrun, -⟩ := routingSnapshot_run hrouted.indexed method
  exact ⟨_, t, hrun, rfl, hrouted.answers hsize hfree method⟩

end Runs

/-! ## A run -/

/-- Ids that spell out the path of a block. -/
def pathId (tokens : List Int) : Option (List Int) → List Int
  | none => 0 :: tokens
  | some parent => 1 :: (tokens ++ parent)

theorem pathId_collisionFree (blockSize : Nat) : CollisionFree pathId blockSize := by
  intro tokens parent tokens' parent' hfull hfull' h
  cases parent with
  | none =>
    cases parent' with
    | none => exact ⟨by simpa [pathId] using h, rfl⟩
    | some p' => simp [pathId] at h
  | some p =>
    cases parent' with
    | none => simp [pathId] at h
    | some p' =>
      obtain ⟨htokens, hp⟩ := List.append_inj (List.cons.inj h).2 (hfull.trans hfull'.symm)
      exact ⟨htokens, congrArg some hp⟩

/-- A block of one token. -/
def pathBlock (token : Int) (parent : Option (List Int)) (idx : Nat) :
    PrefixCacheBlock (List Int) Unit where
  stableBlockId := pathId [token] parent
  parentBlockId := parent
  blockSize := 1
  logicalBlockIdx := idx
  payload := ()
  tokenIds := [token]

/-- Two blocks, a snapshot, the eviction of the lower block and a second snapshot. -/
def routedOps : List (RoutingOp (List Int) Unit) :=
  [.call (.insert (pathBlock 7 none 0)), .call (.insert (pathBlock 8 (some [0, 7]) 1)),
    .snapshot "omnikv", .call (.evict 1 fun _ => 1), .snapshot "omnikv"]

/-- The first snapshot still finds both blocks of the prompt, the second finds one. -/
example : (runAll RoutingOp.exec { index := initial 1 none } routedOps).taken.map
    (fun entry => ((entry.1.matchTokens pathId [7, 8, 9]).toOption.map (·.matchedTokens))) =
      [some 1, some 2] := by decide +kernel

theorem routing_agrees_evicted :
    let r := runAll RoutingOp.exec { index := initial 1 none } routedOps
    (∀ method, ∃ snapshot t, routingSnapshot method r.index = .ok snapshot t ∧
      snapshot.method = method ∧ Answers pathId snapshot r.index) ∧
    ∀ entry ∈ r.taken, Answers pathId entry.1 entry.2 :=
  routing_agrees Nat.one_pos (pathId_collisionFree 1)
    (Reachable.init.runAll ⟨⟨rfl, rfl⟩, ⟨rfl, rfl⟩, trivial, trivial, trivial, trivial⟩)

end RadixPrefixIndex

end SparseVllm
