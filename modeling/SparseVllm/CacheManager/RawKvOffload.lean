import Mathlib.Data.List.Sort
import SparseVllm.Lib.Dict
import SparseVllm.Lib.Rows

/-!
# Raw key and value rows on the host (`engine/cache_manager/raw_kv_offload.py`)

`RawKVOffloadBuffer` keeps the raw rows of a prompt, written in ranges and read as a prefix. In chunked
mode an entry is a dictionary of chunks by their start, and a read walks it in order; in contiguous
mode it is one tensor and a mark of how far it was written.

The key and the value tensor of an entry or a chunk have the same rows and are one list of pairs.
Values are taken in the entry's dtype. The events of asynchronous copies are left out.

## Results

* `copyChunks_ok_iff`: what the walk over the chunks returns, position by position.
-/

namespace SparseVllm.RawKv

open Lib

variable {α β γ : Type}

/-! ## Entries -/

/-- A tensor: its rows, and the shape of a row. -/
structure RawTensor (α : Type) where
  rows : List α
  shapeTail : List Nat
  deriving DecidableEq

/-- `(layer_idx, row_idx, kind)`. -/
abbrev Key := Int × Int × String

/-- `RawKVOffloadBuffer.mode`. -/
inductive Mode where
  | chunked
  | contiguous
  deriving DecidableEq

/-- What an entry was created for. -/
structure EntryShape where
  capacity : Nat
  kShapeTail : List Nat
  vShapeTail : List Nat
  deriving DecidableEq

/-- `_RawKVEntry`; `kv` is there in contiguous mode, `chunks` in chunked mode. -/
structure RawKvEntry (γ : Type) extends EntryShape where
  kv : Option (List γ) := none
  filledUntil : Nat := 0
  chunks : Option (Dict Nat (List γ)) := none

/-- What the methods raise. -/
inductive RawKvError where
  | negativeTotalLen
  | cannotGrow
  | existingTailMismatch
  | missingEntry
  | putShapeMismatch
  | putTailMismatch
  | putLeavesGap
  | missingTensors
  | readsUnwritten
  | destinationTooShort
  | destinationTailMismatch
  | foundGap
  | didNotFill
  deriving DecidableEq

/-- `RawKVOffloadBuffer`. -/
structure RawKvOffloadBuffer (γ : Type) where
  mode : Mode
  entries : Dict Key (RawKvEntry γ) := ∅

/-! ## Reading the chunks -/

/-- The checks after the loop of `copy_prefix_to`. -/
def finishCopy (n cursor : Nat) (copied : List γ) : Except RawKvError (List γ) :=
  if cursor ≠ n then .error .didNotFill else .ok copied

/-- The loop of `copy_prefix_to` over the chunks by start. `copied` is what was written to the
destination so far; every copy starts at its end. -/
def copyChunks (n : Nat) : List (Nat × List γ) → Nat → List γ → Except RawKvError (List γ)
  | [], cursor, copied => finishCopy n cursor copied
  | (chunkStart, chunk) :: rest, cursor, copied =>
    let chunkEnd := chunkStart + chunk.length
    if chunkStart > cursor then .error .foundGap
    else if chunkEnd ≤ cursor then copyChunks n rest cursor copied
    else
      let copyStart := max cursor chunkStart
      let copyEnd := min n chunkEnd
      if copyStart < copyEnd then
        let copied := copied ++ between (copyStart - chunkStart) (copyEnd - chunkStart) chunk
        if copyEnd ≥ n then finishCopy n copyEnd copied else copyChunks n rest copyEnd copied
      else if cursor ≥ n then finishCopy n cursor copied else copyChunks n rest cursor copied

/-- `sorted(entry.chunks)`, with the chunks. -/
def sortedChunks (chunks : Dict Nat (List γ)) : List (Nat × List γ) :=
  (chunks.entries.map fun entry => (entry.1, entry.2)).insertionSort fun a b => a.1 ≤ b.1

/-! ## The methods -/

namespace EntryShape

/-- The first two checks of `put_range`. -/
def checkPut (entry : EntryShape) (start : Int) (k : RawTensor α) (v : RawTensor β) :
    Except RawKvError Unit :=
  if start < 0 ∨ start + k.rows.length > entry.capacity ∨ v.rows.length ≠ k.rows.length then
    .error .putShapeMismatch
  else if k.shapeTail ≠ entry.kShapeTail ∨ v.shapeTail ≠ entry.vShapeTail then
    .error .putTailMismatch
  else .ok ()

/-- A range that passes the checks ends within the entry. -/
theorem room_of_checkPut {entry : EntryShape} {start : Int} {k : RawTensor α} {v : RawTensor β}
    (h : entry.checkPut start k v = .ok ()) :
    start.toNat + k.rows.length ≤ entry.capacity ∧ v.rows.length = k.rows.length := by
  unfold checkPut at h
  split at h
  · cases h
  · omega

/-- The checks of the destination in `copy_prefix_to`. -/
def checkDestination (entry : EntryShape) (stop : Int) (kOut : RawTensor α) (vOut : RawTensor β) :
    Except RawKvError Unit :=
  if (kOut.rows.length : Int) < stop ∨ (vOut.rows.length : Int) < stop then
    .error .destinationTooShort
  else if kOut.shapeTail ≠ entry.kShapeTail ∨ vOut.shapeTail ≠ entry.vShapeTail then
    .error .destinationTailMismatch
  else .ok ()

/-- The checks of `ensure_entry` on an entry that exists. -/
def checkExisting (entry : EntryShape) (totalLen : Int) (kShapeTail vShapeTail : List Nat) :
    Except RawKvError Unit :=
  if (entry.capacity : Int) < totalLen then .error .cannotGrow
  else if entry.kShapeTail ≠ kShapeTail ∨ entry.vShapeTail ≠ vShapeTail then
    .error .existingTailMismatch
  else .ok ()

end EntryShape

namespace RawKvEntry

/-- What `put_range` does to an entry once the shapes fit. -/
def write (entry : RawKvEntry γ) (start : Nat) (rows : List γ) : Except RawKvError (RawKvEntry γ) :=
  let filledUntil := max entry.filledUntil (start + rows.length)
  match entry.chunks with
  | some chunks =>
    if start > entry.filledUntil then .error .putLeavesGap
    else .ok { entry with chunks := some (chunks.set start rows), filledUntil }
  | none =>
    match entry.kv with
    | none => .error .missingTensors
    | some kv => .ok { entry with kv := some (overwrite start rows kv), filledUntil }

/-- The rows `copy_prefix_to` writes to a destination that fits. -/
def read (entry : RawKvEntry γ) (n : Nat) : Except RawKvError (List γ) :=
  match entry.chunks with
  | some chunks => copyChunks n (sortedChunks chunks) 0 []
  | none =>
    match entry.kv with
    | none => .error .missingTensors
    | some kv => .ok (kv.take n)

end RawKvEntry

/-- The destinations, with these rows copied to their start. -/
def filledWith (kOut : RawTensor α) (vOut : RawTensor β) (copied : List (α × β)) :
    RawTensor α × RawTensor β :=
  ({ kOut with rows := overwrite 0 (copied.map Prod.fst) kOut.rows },
    { vOut with rows := overwrite 0 (copied.map Prod.snd) vOut.rows })

namespace RawKvOffloadBuffer

/-- The entry `ensure_entry` creates; `torch.empty` gives whatever rows the memory holds. -/
def newEntry (memory : Nat → γ) (self : RawKvOffloadBuffer γ) (shape : EntryShape) : RawKvEntry γ :=
  match self.mode with
  | .chunked => { shape with chunks := some ∅ }
  | .contiguous => { shape with kv := some ((List.range shape.capacity).map memory) }

/-- `ensure_entry`. -/
def ensureEntry (memory : Nat → γ) (self : RawKvOffloadBuffer γ) (key : Key) (totalLen : Int)
    (kShapeTail vShapeTail : List Nat) : Except RawKvError (RawKvOffloadBuffer γ) :=
  if totalLen < 0 then .error .negativeTotalLen
  else
    match self.entries.get? key with
    | some entry => do
      entry.checkExisting totalLen kShapeTail vShapeTail
      return self
    | none =>
      let entry := self.newEntry memory { capacity := totalLen.toNat, kShapeTail, vShapeTail }
      return { self with entries := self.entries.set key entry }

/-- `put_range`. -/
def putRange (self : RawKvOffloadBuffer (α × β)) (key : Key) (start : Int) (k : RawTensor α)
    (v : RawTensor β) : Except RawKvError (RawKvOffloadBuffer (α × β)) :=
  match self.entries.get? key with
  | none => .error .missingEntry
  | some entry => do
    entry.checkPut start k v
    let entry ← entry.write start.toNat (k.rows.zip v.rows)
    return { self with entries := self.entries.set key entry }

/-- `copy_prefix_to`; the destinations with what was copied to them. -/
def copyPrefixTo (self : RawKvOffloadBuffer (α × β)) (key : Key) (stop : Int) (kOut : RawTensor α)
    (vOut : RawTensor β) : Except RawKvError (RawTensor α × RawTensor β) :=
  match self.entries.get? key with
  | none => .error .missingEntry
  | some entry =>
    if stop < 0 ∨ stop > entry.filledUntil then .error .readsUnwritten
    else do
      entry.checkDestination stop kOut vOut
      let copied ← entry.read stop.toNat
      return filledWith kOut vOut copied

end RawKvOffloadBuffer

/-- `for key in list(d): if …: del d[key]`. -/
def dropKeys {V : Type} (drop : Key → Bool) (d : Dict Key V) : Dict Key V :=
  d.keys.foldl (fun d key => if drop key then d.pop key else d) d

/-- The keys `release_layer` deletes. -/
def inLayer (layerIdx rowIdx : Int) (kind : Option String) (key : Key) : Bool :=
  key.1 = layerIdx ∧ key.2.1 = rowIdx ∧ (kind = none ∨ kind = some key.2.2)

/-- The keys `release_row` deletes. -/
def inRow (rowIdx : Int) (key : Key) : Bool := key.2.1 = rowIdx

/-- `release_layer`. -/
def RawKvOffloadBuffer.releaseLayer (self : RawKvOffloadBuffer γ) (layerIdx rowIdx : Int)
    (kind : Option String) : RawKvOffloadBuffer γ :=
  { self with entries := dropKeys (inLayer layerIdx rowIdx kind) self.entries }

/-- `release_row`. -/
def RawKvOffloadBuffer.releaseRow (self : RawKvOffloadBuffer γ) (rowIdx : Int) :
    RawKvOffloadBuffer γ :=
  { self with entries := dropKeys (inRow rowIdx) self.entries }

/-- Deleting keys one by one. -/
theorem get?_foldl_pop {V : Type} (drop : Key → Bool) (keys : List Key) (d : Dict Key V) (key : Key) :
    (keys.foldl (fun d key => if drop key then d.pop key else d) d).get? key =
      if key ∈ keys ∧ drop key = true then none else d.get? key := by
  induction keys generalizing d with
  | nil => simp
  | cons first keys ih =>
    rw [List.foldl_cons, ih]
    simp only [List.mem_cons]
    by_cases hdrop : drop first = true
    · rw [if_pos hdrop, Dict.get?_pop]
      by_cases hkey : key = first
      · subst hkey
        simp [hdrop]
      · simp [hkey]
    · rw [if_neg hdrop]
      by_cases hkey : key = first
      · subst hkey
        simp [hdrop]
      · simp [hkey]

theorem get?_dropKeys {V : Type} (drop : Key → Bool) (d : Dict Key V) (key : Key) :
    (dropKeys drop d).get? key = if drop key then none else d.get? key := by
  unfold dropKeys
  rw [get?_foldl_pop]
  by_cases hkey : key ∈ d.keys
  · simp [hkey]
  · have hnone : d.get? key = none := AList.lookup_eq_none.mpr hkey
    simp [hkey, hnone]

/-! ## What a walk returns -/

/-- The first chunk that ends past a position. -/
def firstPast (chunks : List (Nat × List γ)) (p : Nat) : Option (Nat × List γ) :=
  chunks.find? fun chunk => p < chunk.1 + chunk.2.length

/-- What the first chunk that ends past a position has there. -/
def chunkAt (chunks : List (Nat × List γ)) (p : Nat) : Option γ :=
  (firstPast chunks p).bind fun chunk => if chunk.1 ≤ p then chunk.2[p - chunk.1]? else none

section Walk

variable {n cursor p : Nat} {chunk : Nat × List γ} {chunks : List (Nat × List γ)}
  {copied result : List γ}

theorem firstPast_cons_of_le (h : chunk.1 + chunk.2.length ≤ p) :
    firstPast (chunk :: chunks) p = firstPast chunks p :=
  List.find?_cons_of_neg (by simpa using h)

theorem firstPast_cons_of_lt (h : p < chunk.1 + chunk.2.length) :
    firstPast (chunk :: chunks) p = some chunk :=
  List.find?_cons_of_pos (by simpa using h)

/-- Chunks that end before the cursor do not matter. -/
theorem map_chunkAt_skip (h : chunk.1 + chunk.2.length ≤ cursor) (m : Nat) :
    (List.range' cursor m).map (chunkAt (chunk :: chunks)) =
      (List.range' cursor m).map (chunkAt chunks) := by
  refine List.map_congr_left fun p hp => ?_
  have hle : chunk.1 + chunk.2.length ≤ p := h.trans (List.mem_range'_1.mp hp).1
  unfold chunkAt
  rw [firstPast_cons_of_le hle]

/-- A copy from the first chunk that ends past the cursor. -/
theorem map_chunkAt_first {stop : Nat} (hstart : chunk.1 ≤ cursor)
    (hstop : stop ≤ chunk.1 + chunk.2.length) :
    (List.range' cursor (stop - cursor)).map (chunkAt (chunk :: chunks)) =
      (between (cursor - chunk.1) (stop - chunk.1) chunk.2).map some := by
  by_cases hle : stop ≤ cursor
  · have hnone : between (cursor - chunk.1) (stop - chunk.1) chunk.2 = [] := by
      unfold between
      exact List.drop_eq_nil_of_le ((List.length_take_le _ _).trans (by omega))
    rw [Nat.sub_eq_zero_of_le hle, hnone]
    rfl
  · have hlen : (between (cursor - chunk.1) (stop - chunk.1) chunk.2).length = stop - cursor := by
      rw [length_between (by omega)]
      omega
    apply List.ext_getElem?
    intro i
    by_cases hi : i < stop - cursor
    · have hrow : (between (cursor - chunk.1) (stop - chunk.1) chunk.2)[i]? =
          chunk.2[cursor + i - chunk.1]? := by
        unfold between
        rw [List.getElem?_drop, List.getElem?_take, if_pos (by omega)]
        exact congrArg (chunk.2[·]?) (by omega)
      have hsome : cursor + i - chunk.1 < chunk.2.length := by omega
      rw [List.getElem?_map, List.getElem?_map, hrow, List.getElem?_range' hi,
        List.getElem?_eq_getElem hsome, Option.map_some, Option.map_some]
      unfold chunkAt
      rw [firstPast_cons_of_lt (by omega), Option.bind_some, if_pos (by omega), Nat.one_mul,
        List.getElem?_eq_getElem hsome]
    · rw [List.getElem?_eq_none (by simpa using hi), List.getElem?_eq_none (by simpa [hlen] using hi)]

/-- Nothing starts at or before the cursor: there is nothing to read there. -/
theorem chunkAt_late (h : cursor < chunk.1) : chunkAt (chunk :: chunks) cursor = none := by
  unfold chunkAt
  rw [firstPast_cons_of_lt (by omega), Option.bind_some, if_neg (by omega)]

/-- A missing row is never read. -/
theorem map_some_ne (h : cursor < n) (hnone : chunkAt chunks cursor = none) :
    result.map some ≠ copied.map some ++ (List.range' cursor (n - cursor)).map (chunkAt chunks) := by
  intro heq
  have hin : none ∈ result.map some := by
    rw [heq]
    refine List.mem_append_right _ (List.mem_map.mpr ⟨cursor, ?_, hnone⟩)
    exact List.mem_range'_1.mpr ⟨Nat.le_refl _, by omega⟩
  obtain ⟨row, -, hrow⟩ := List.mem_map.mp hin
  cases hrow

/-- **The walk from a cursor reads, at each position, the first chunk that ends past it.** -/
theorem copyChunks_ok_iff (h : cursor < n) :
    copyChunks n chunks cursor copied = .ok result ↔
      result.map some = copied.map some ++
        (List.range' cursor (n - cursor)).map (chunkAt chunks) := by
  induction chunks generalizing cursor copied with
  | nil =>
    unfold copyChunks finishCopy
    rw [if_pos h.ne]
    exact iff_of_false nofun (map_some_ne h rfl)
  | cons chunk chunks ih =>
    obtain ⟨chunkStart, rows⟩ := chunk
    unfold copyChunks
    dsimp only
    by_cases hlate : chunkStart > cursor
    · rw [if_pos hlate]
      exact iff_of_false nofun (map_some_ne h (chunkAt_late hlate))
    rw [if_neg hlate]
    by_cases hskip : chunkStart + rows.length ≤ cursor
    · rw [if_pos hskip, ih h, map_chunkAt_skip hskip]
    rw [if_neg hskip, Nat.max_eq_left (by omega), if_pos (by omega)]
    -- the copy goes to the end of the chunk, or to the end of the read
    have hfirst : (List.range' cursor (min n (chunkStart + rows.length) - cursor)).map
        (chunkAt ((chunkStart, rows) :: chunks)) =
        (between (cursor - chunkStart) (min n (chunkStart + rows.length) - chunkStart) rows).map some :=
      map_chunkAt_first (by omega) (Nat.min_le_right _ _)
    by_cases hlast : min n (chunkStart + rows.length) ≥ n
    · have hstop : min n (chunkStart + rows.length) = n := Nat.le_antisymm (Nat.min_le_left _ _) hlast
      rw [hstop] at hfirst
      rw [if_pos hlast, hstop]
      unfold finishCopy
      rw [if_neg (not_not.mpr rfl), hfirst, ← List.map_append,
        List.map_inj_right (fun _ _ => Option.some.inj), Except.ok.injEq]
      exact eq_comm
    · have hstop : min n (chunkStart + rows.length) = chunkStart + rows.length := by omega
      rw [hstop] at hfirst
      rw [if_neg hlast, hstop]
      have hrest : (List.range' (chunkStart + rows.length) (n - (chunkStart + rows.length))).map
          (chunkAt ((chunkStart, rows) :: chunks)) = _ := map_chunkAt_skip (Nat.le_refl _) _
      have hsplit : List.range' cursor (n - cursor) =
          List.range' cursor (chunkStart + rows.length - cursor) ++
            List.range' (chunkStart + rows.length) (n - (chunkStart + rows.length)) := by
        rw [show n - cursor = (chunkStart + rows.length - cursor) +
          (n - (chunkStart + rows.length)) by omega, ← List.range'_append_1]
        congr 2
        omega
      rw [ih (by omega), List.map_append, hsplit, List.map_append, hfirst, hrest, List.append_assoc]

/-- An empty read only looks for a chunk that starts too late. -/
theorem copyChunks_zero_ok_iff : copyChunks 0 chunks 0 [] = .ok result ↔
    result = [] ∧ ∀ chunk, firstPast chunks 0 = some chunk → chunk.1 = 0 := by
  induction chunks with
  | nil =>
    refine ⟨fun h => ⟨(Except.ok.inj h).symm, nofun⟩, ?_⟩
    rintro ⟨rfl, -⟩
    rfl
  | cons chunk chunks ih =>
    obtain ⟨chunkStart, rows⟩ := chunk
    unfold copyChunks
    dsimp only
    by_cases hlate : chunkStart > 0
    · rw [if_pos hlate, firstPast_cons_of_lt (show 0 < chunkStart + rows.length by omega)]
      refine iff_of_false nofun fun h => ?_
      have hzero := h.2 _ rfl
      omega
    rw [if_neg hlate]
    by_cases hskip : chunkStart + rows.length ≤ 0
    · rw [if_pos hskip, ih, firstPast_cons_of_le hskip]
    · rw [if_neg hskip, firstPast_cons_of_lt (show 0 < chunkStart + rows.length by omega)]
      have hzero : chunkStart = 0 := by omega
      subst hzero
      simp [finishCopy, eq_comm]

end Walk

end SparseVllm.RawKv
