import SparseVllm.CacheManager.RawKvOffload
import SparseVllm.Lib.Run

/-!
# The two layouts of the raw rows agree

`Store` is what `RawKVOffloadBuffer` (`raw_kv_offload.py`) is for: an entry is the list of what was put to
it, so it has the row last written at each position, and a prefix can be read once all of it was written.
Both layouts answer every call as the store does, as long as no range starts past what was written and
every read is of a `Readable` prefix: at each position, the range put there last is the one whose chunk the
walk finds. That is a matter of the ranges alone, whatever the rows are.

## Results

* `current_of_readable`: a walk reads, in a readable prefix, what was put there last.
* `stepOk`: a call that `Fits` is answered alike, and keeps the three related.
* **`layouts_agree`**: both layouts answer a sequence of calls as the store does if every call of it fits.
-/

namespace SparseVllm.RawKv

open Lib

variable {α β γ : Type}

/-! ## Calls -/

/-- A call of the buffer. -/
inductive Call (α β : Type) where
  | ensureEntry (key : Key) (totalLen : Int) (kShapeTail vShapeTail : List Nat)
  | putRange (key : Key) (start : Int) (k : RawTensor α) (v : RawTensor β)
  | copyPrefixTo (key : Key) (stop : Int) (kOut : RawTensor α) (vOut : RawTensor β)
  | releaseLayer (layerIdx rowIdx : Int) (kind : Option String)
  | releaseRow (rowIdx : Int)

/-- What a call returns: the destinations of a copy, and nothing otherwise. -/
abbrev Returned (α β : Type) := Option (RawTensor α × RawTensor β)

/-- A call on a state: the next state and what it returns, or what it raises. -/
abbrev Outcome (σ α β : Type) := Except RawKvError (σ × Returned α β)

/-- What the caller sees: a raise, or what is returned. -/
def answer {σ : Type} : Outcome σ α β → Option (Returned α β)
  | .ok (_, returned) => some returned
  | .error _ => none

/-- The state after a call; a call that raises changes nothing. -/
def after {σ : Type} (s : σ) : Outcome σ α β → σ
  | .ok (t, _) => t
  | .error _ => s

/-- The answers to a sequence of calls. -/
def answers {σ : Type} (run : Call α β → σ → Outcome σ α β) : σ → List (Call α β) →
    List (Option (Returned α β))
  | _, [] => []
  | s, call :: calls => answer (run call s) :: answers run (after s (run call s)) calls

/-- A call of `RawKVOffloadBuffer`. -/
def RawKvOffloadBuffer.run (memory : Nat → α × β) (call : Call α β)
    (self : RawKvOffloadBuffer (α × β)) : Outcome (RawKvOffloadBuffer (α × β)) α β :=
  match call with
  | .ensureEntry key totalLen kShapeTail vShapeTail =>
    (self.ensureEntry memory key totalLen kShapeTail vShapeTail).map fun next => (next, none)
  | .putRange key start k v => (self.putRange key start k v).map fun next => (next, none)
  | .copyPrefixTo key stop kOut vOut =>
    (self.copyPrefixTo key stop kOut vOut).map fun out => (self, some out)
  | .releaseLayer layerIdx rowIdx kind => .ok (self.releaseLayer layerIdx rowIdx kind, none)
  | .releaseRow rowIdx => .ok (self.releaseRow rowIdx, none)

/-! ## The store -/

/-- An entry of the store: what was put to it and where, the newest first. -/
structure Written (γ : Type) extends EntryShape where
  puts : List (Nat × List γ) := []

/-- What was put, entry by entry. -/
abbrev Store (γ : Type) := Dict Key (Written γ)

/-- The start and the length of what was put. -/
def rangeOf (put : Nat × List γ) : Nat × Nat := (put.1, put.2.length)

/-- The range covers the position. -/
def covers (p : Nat) (r : Nat × Nat) : Bool := r.1 ≤ p ∧ p < r.1 + r.2

namespace Written

/-- The row last written at a position. -/
def rowAt (entry : Written γ) (p : Nat) : Option γ :=
  (entry.puts.find? fun put => covers p (rangeOf put)).bind fun put => put.2[p - put.1]?

/-- The ranges that were put, the newest first. -/
def ranges (entry : Written γ) : List (Nat × Nat) := entry.puts.map rangeOf

/-- How far the entry was written. -/
def filled (entry : Written γ) : Nat := (entry.ranges.map fun r => r.1 + r.2).foldr max 0

/-- Write rows from a position on. -/
def write (entry : Written γ) (start : Nat) (rows : List γ) : Written γ :=
  { entry with puts := (start, rows) :: entry.puts }

theorem rowAt_write (entry : Written γ) (start : Nat) (rows : List γ) (p : Nat) :
    (entry.write start rows).rowAt p =
      if start ≤ p ∧ p < start + rows.length then rows[p - start]? else entry.rowAt p := by
  unfold rowAt write covers
  rw [List.find?_cons]
  by_cases hin : start ≤ p ∧ p < start + rows.length
  · rw [if_pos hin, decide_eq_true (by exact hin)]
    rfl
  · rw [if_neg hin, decide_eq_false (by exact hin)]

/-- The first rows, if all were written. -/
def read (entry : Written γ) (n : Nat) : Except RawKvError (List γ) :=
  if (List.range n).all fun p => (entry.rowAt p).isSome then
    .ok ((List.range n).filterMap entry.rowAt)
  else .error .readsUnwritten

end Written

/-- A read of the store. -/
def Store.copyPrefixTo (self : Store (α × β)) (key : Key) (stop : Int) (kOut : RawTensor α)
    (vOut : RawTensor β) : Except RawKvError (RawTensor α × RawTensor β) :=
  match self.get? key with
  | none => .error .missingEntry
  | some entry =>
    if stop < 0 then .error .readsUnwritten
    else do
      entry.checkDestination stop kOut vOut
      let copied ← entry.read stop.toNat
      return filledWith kOut vOut copied

/-- A call of the store. -/
def Store.run (call : Call α β) (self : Store (α × β)) : Outcome (Store (α × β)) α β :=
  match call with
  | .ensureEntry key totalLen kShapeTail vShapeTail =>
    if totalLen < 0 then .error .negativeTotalLen
    else
      match self.get? key with
      | some entry => (entry.checkExisting totalLen kShapeTail vShapeTail).map fun _ => (self, none)
      | none => .ok (self.set key { capacity := totalLen.toNat, kShapeTail, vShapeTail }, none)
  | .putRange key start k v =>
    match self.get? key with
    | none => .error .missingEntry
    | some entry => (entry.checkPut start k v).map fun _ =>
      (self.set key (entry.write start.toNat (k.rows.zip v.rows)), none)
  | .copyPrefixTo key stop kOut vOut =>
    (self.copyPrefixTo key stop kOut vOut).map fun out => (self, some out)
  | .releaseLayer layerIdx rowIdx kind => .ok (dropKeys (inLayer layerIdx rowIdx kind) self, none)
  | .releaseRow rowIdx => .ok (dropKeys (inRow rowIdx) self, none)

/-! ## When the layouts agree -/

/-- A read of `n` rows finds, at each position, the chunk that was written there last, and no chunk
before it is missing. -/
structure Current (chunks : List (Nat × List γ)) (n : Nat) (rowAt : Nat → Option γ) : Prop where
  first : ∀ chunk, firstPast chunks 0 = some chunk → chunk.1 = 0
  latest : ∀ p < n, chunkAt chunks p = rowAt p

/-- The chunk at the start of a range is the one that was put with it: none was put there later. -/
def Kept (ranges : List (Nat × Nat)) (r : Nat × Nat) : Prop := ranges.find? (·.1 = r.1) = some r

/-- The last range that covers a position is kept, and no kept one that starts before it ends past the
position. -/
def Shows (ranges : List (Nat × Nat)) (p : Nat) : Prop :=
  ∃ r ∈ ranges, Kept ranges r ∧ ranges.find? (covers p) = some r ∧
    ∀ q ∈ ranges, Kept ranges q → q.1 < r.1 → q.1 + q.2 ≤ p

/-- A read of `n` rows is right: it is so at each position, and an empty one finds no gap. -/
structure Readable (ranges : List (Nat × Nat)) (n : Nat) : Prop where
  first : ∀ q ∈ ranges, Kept ranges q → 0 < q.1 + q.2 → ∃ r ∈ ranges, Kept ranges r ∧ r.1 = 0 ∧ 0 < r.2
  shows : ∀ p < n, Shows ranges p

instance (ranges : List (Nat × Nat)) (r : Nat × Nat) : Decidable (Kept ranges r) :=
  inferInstanceAs (Decidable (_ = _))

instance (ranges : List (Nat × Nat)) (p : Nat) : Decidable (Shows ranges p) :=
  inferInstanceAs (Decidable (∃ r ∈ ranges, _))

/-- A put starts within what was written, and a copy of what was written is of a readable prefix. -/
def Fits (call : Call α β) (store : Store (α × β)) : Prop :=
  match call with
  | .putRange key start k v => ∀ entry, store.get? key = some entry →
    entry.checkPut start k v = .ok () → start.toNat ≤ entry.filled
  | .copyPrefixTo key stop kOut vOut => ∀ entry, store.get? key = some entry → 0 ≤ stop →
    stop ≤ entry.filled → entry.checkDestination stop kOut vOut = .ok () →
    Readable entry.ranges stop.toNat
  | _ => True

/-- An entry in both layouts and in the store. -/
structure EntryRelated (chunked contiguous : RawKvEntry γ) (written : Written γ) : Prop where
  chunkedShape : chunked.toEntryShape = written.toEntryShape
  contiguousShape : contiguous.toEntryShape = written.toEntryShape
  chunks : ∃ chunks, chunked.chunks = some chunks ∧
    ∀ start, chunks.get? start = (written.puts.find? (·.1 = start)).map Prod.snd
  noChunks : contiguous.chunks = none
  filled : chunked.filledUntil = contiguous.filledUntil
  filledUntil : contiguous.filledUntil = written.filled
  within : contiguous.filledUntil ≤ written.capacity
  kv : ∃ kv, contiguous.kv = some kv ∧ kv.length = written.capacity ∧
    ∀ p < contiguous.filledUntil, written.rowAt p = kv[p]?
  unwritten : ∀ p, contiguous.filledUntil ≤ p → written.rowAt p = none

/-- A key is missing everywhere, or has an entry everywhere. -/
inductive Slots : Option (RawKvEntry γ) → Option (RawKvEntry γ) → Option (Written γ) → Prop where
  | missing : Slots none none none
  | held {chunked contiguous : RawKvEntry γ} {written : Written γ}
    (h : EntryRelated chunked contiguous written) :
    Slots (some chunked) (some contiguous) (some written)

/-- Both layouts and the store after the same calls. -/
structure Related (chunked contiguous : RawKvOffloadBuffer γ) (store : Store γ) : Prop where
  chunkedMode : chunked.mode = .chunked
  contiguousMode : contiguous.mode = .contiguous
  slots : ∀ key, Slots (chunked.entries.get? key) (contiguous.entries.get? key) (store.get? key)

section Steps

variable {memory : Nat → α × β} {chunked contiguous : RawKvOffloadBuffer (α × β)}
  {store : Store (α × β)} {call : Call α β}

/-- All three answer a call alike. -/
def StepAgrees (memory : Nat → α × β) (call : Call α β)
    (chunked contiguous : RawKvOffloadBuffer (α × β)) (store : Store (α × β)) : Prop :=
  answer (chunked.run memory call) = answer (store.run call) ∧
    answer (contiguous.run memory call) = answer (store.run call)

theorem related_empty : Related (γ := γ) { mode := .chunked } { mode := .contiguous } ∅ :=
  ⟨rfl, rfl, fun _ => .missing⟩

/-- Setting a key in all three. -/
theorem Related.set (h : Related chunked contiguous store) (key : Key)
    {c k : RawKvEntry (α × β)} {w : Written (α × β)} (hnew : EntryRelated c k w) :
    Related { chunked with entries := chunked.entries.set key c }
      { contiguous with entries := contiguous.entries.set key k } (store.set key w) := by
  refine ⟨h.chunkedMode, h.contiguousMode, fun other => ?_⟩
  dsimp only
  rw [Dict.get?_set, Dict.get?_set, Dict.get?_set]
  by_cases hkey : other = key
  · rw [if_pos hkey, if_pos hkey, if_pos hkey]
    exact .held hnew
  · rw [if_neg hkey, if_neg hkey, if_neg hkey]
    exact h.slots other

/-- Releasing keys in all three. -/
theorem Related.drop (h : Related chunked contiguous store) (keys : Key → Bool) :
    Related { chunked with entries := dropKeys keys chunked.entries }
      { contiguous with entries := dropKeys keys contiguous.entries } (dropKeys keys store) := by
  refine ⟨h.chunkedMode, h.contiguousMode, fun key => ?_⟩
  dsimp only
  rw [get?_dropKeys, get?_dropKeys, get?_dropKeys]
  by_cases hkey : keys key = true
  · rw [if_pos hkey, if_pos hkey, if_pos hkey]
    exact .missing
  · rw [if_neg hkey, if_neg hkey, if_neg hkey]
    exact h.slots key

/-- A new entry holds nothing in any of the three. -/
theorem EntryRelated.new (memory : Nat → α × β) (h : Related chunked contiguous store)
    (shape : EntryShape) :
    EntryRelated (chunked.newEntry memory shape) (contiguous.newEntry memory shape)
      { shape with } := by
  unfold RawKvOffloadBuffer.newEntry
  rw [h.chunkedMode, h.contiguousMode]
  exact ⟨rfl, rfl, ⟨∅, rfl, fun _ => rfl⟩, rfl, rfl, rfl, Nat.zero_le _, ⟨_, rfl, by simp, nofun⟩,
    fun _ _ => rfl⟩

/-- All three answer the call alike and stay related. -/
def StepOk (memory : Nat → α × β) (call : Call α β)
    (chunked contiguous : RawKvOffloadBuffer (α × β)) (store : Store (α × β)) : Prop :=
  StepAgrees memory call chunked contiguous store ∧
    Related (after chunked (chunked.run memory call)) (after contiguous (contiguous.run memory call))
      (after store (store.run call))

/-- A call that raises in all three. -/
theorem StepOk.raises {ec ek es : RawKvError} (h : Related chunked contiguous store)
    (hchunked : chunked.run memory call = .error ec)
    (hcontiguous : contiguous.run memory call = .error ek) (hstore : store.run call = .error es) :
    StepOk memory call chunked contiguous store := by
  unfold StepOk StepAgrees
  rw [hchunked, hcontiguous, hstore]
  exact ⟨⟨rfl, rfl⟩, h⟩

/-- A call that returns the same in all three. -/
theorem StepOk.returns {returned : Returned α β} {c k : RawKvOffloadBuffer (α × β)}
    {w : Store (α × β)} (hchunked : chunked.run memory call = .ok (c, returned))
    (hcontiguous : contiguous.run memory call = .ok (k, returned))
    (hstore : store.run call = .ok (w, returned)) (h : Related c k w) :
    StepOk memory call chunked contiguous store := by
  unfold StepOk StepAgrees
  rw [hchunked, hcontiguous, hstore]
  exact ⟨⟨rfl, rfl⟩, h⟩

theorem stepOk_ensureEntry (h : Related chunked contiguous store) (key : Key) (totalLen : Int)
    (kShapeTail vShapeTail : List Nat) :
    StepOk memory (.ensureEntry key totalLen kShapeTail vShapeTail) chunked contiguous store := by
  have hslot := h.slots key
  generalize hc : chunked.entries.get? key = c at hslot
  generalize hk : contiguous.entries.get? key = k at hslot
  generalize hw : store.get? key = w at hslot
  by_cases hlen : totalLen < 0
  · have hchunked : chunked.run memory (.ensureEntry key totalLen kShapeTail vShapeTail) =
        .error .negativeTotalLen := by
      unfold RawKvOffloadBuffer.run RawKvOffloadBuffer.ensureEntry
      simp only [if_pos hlen]
      rfl
    have hcontiguous : contiguous.run memory (.ensureEntry key totalLen kShapeTail vShapeTail) =
        .error .negativeTotalLen := by
      unfold RawKvOffloadBuffer.run RawKvOffloadBuffer.ensureEntry
      simp only [if_pos hlen]
      rfl
    exact StepOk.raises h hchunked hcontiguous (if_pos hlen)
  cases hslot with
  | missing =>
    have hnew := EntryRelated.new memory h ⟨totalLen.toNat, kShapeTail, vShapeTail⟩
    have hchunked : chunked.run memory (.ensureEntry key totalLen kShapeTail vShapeTail) =
        .ok (⟨chunked.mode, chunked.entries.set key
          (chunked.newEntry memory ⟨totalLen.toNat, kShapeTail, vShapeTail⟩)⟩, none) := by
      unfold RawKvOffloadBuffer.run RawKvOffloadBuffer.ensureEntry
      simp only [if_neg hlen, hc]
      rfl
    have hcontiguous : contiguous.run memory (.ensureEntry key totalLen kShapeTail vShapeTail) =
        .ok (⟨contiguous.mode, contiguous.entries.set key
          (contiguous.newEntry memory ⟨totalLen.toNat, kShapeTail, vShapeTail⟩)⟩, none) := by
      unfold RawKvOffloadBuffer.run RawKvOffloadBuffer.ensureEntry
      simp only [if_neg hlen, hk]
      rfl
    have hstore : store.run (.ensureEntry key totalLen kShapeTail vShapeTail) =
        .ok (store.set key { toEntryShape := ⟨totalLen.toNat, kShapeTail, vShapeTail⟩ }, none) := by
      unfold Store.run
      simp only [if_neg hlen, hw]
    exact StepOk.returns hchunked hcontiguous hstore (h.set key hnew)
  | @held c k w hentry =>
    have hchunked : chunked.run memory (.ensureEntry key totalLen kShapeTail vShapeTail) =
        (c.checkExisting totalLen kShapeTail vShapeTail).map fun _ => (chunked, none) := by
      unfold RawKvOffloadBuffer.run RawKvOffloadBuffer.ensureEntry
      simp only [if_neg hlen, hc]
      cases c.checkExisting totalLen kShapeTail vShapeTail <;> rfl
    have hcontiguous : contiguous.run memory (.ensureEntry key totalLen kShapeTail vShapeTail) =
        (k.checkExisting totalLen kShapeTail vShapeTail).map fun _ => (contiguous, none) := by
      unfold RawKvOffloadBuffer.run RawKvOffloadBuffer.ensureEntry
      simp only [if_neg hlen, hk]
      cases k.checkExisting totalLen kShapeTail vShapeTail <;> rfl
    have hstore : store.run (.ensureEntry key totalLen kShapeTail vShapeTail) =
        (w.checkExisting totalLen kShapeTail vShapeTail).map fun _ => (store, none) := by
      unfold Store.run
      simp only [if_neg hlen, hw]
    rw [hentry.chunkedShape] at hchunked
    rw [hentry.contiguousShape] at hcontiguous
    cases hcheck : w.checkExisting totalLen kShapeTail vShapeTail with
    | error e =>
      rw [hcheck] at hchunked hcontiguous hstore
      exact StepOk.raises h hchunked hcontiguous hstore
    | ok _ =>
      rw [hcheck] at hchunked hcontiguous hstore
      exact StepOk.returns hchunked hcontiguous hstore h

/-- Rows written to both layouts and to the store. -/
theorem EntryRelated.write {c k : RawKvEntry γ} {w : Written γ} (h : EntryRelated c k w)
    {start : Nat} {rows : List γ} (hstart : start ≤ c.filledUntil)
    (hroom : start + rows.length ≤ w.capacity) :
    ∃ c' k', c.write start rows = .ok c' ∧ k.write start rows = .ok k' ∧
      EntryRelated c' k' (w.write start rows) := by
  obtain ⟨chunks, hchunks, hkept⟩ := h.chunks
  obtain ⟨kv, hkv, hlen, hrows⟩ := h.kv
  have hstart' : start ≤ k.filledUntil := h.filled ▸ hstart
  refine ⟨{ c with chunks := some (chunks.set start rows)
                   filledUntil := max c.filledUntil (start + rows.length) },
    { k with kv := some (overwrite start rows kv)
             filledUntil := max k.filledUntil (start + rows.length) }, ?_, ?_, ?_⟩
  · unfold RawKvEntry.write
    rw [hchunks]
    exact if_neg (by omega)
  · unfold RawKvEntry.write
    rw [h.noChunks, hkv]
  · have hroom' : start + rows.length ≤ kv.length := hlen ▸ hroom
    refine ⟨h.chunkedShape, h.contiguousShape, ⟨_, rfl, fun other => ?_⟩, h.noChunks, ?_, ?_, ?_,
      ⟨_, rfl, ?_, ?_⟩, ?_⟩
    · show _ = (((start, rows) :: w.puts).find? _).map _
      rw [Dict.get?_set, List.find?_cons]
      by_cases hother : other = start
      · rw [if_pos hother, decide_eq_true (by exact hother.symm)]
        rfl
      · rw [if_neg hother, decide_eq_false (by exact Ne.symm hother)]
        exact hkept other
    · rw [h.filled]
    · exact (Nat.max_comm _ _).trans (congrArg (max _) h.filledUntil)
    · exact Nat.max_le.mpr ⟨h.within, hroom⟩
    · rw [length_overwrite hroom']
      exact hlen
    · intro p hp
      dsimp only at hp
      rw [getElem?_overwrite hroom', Written.rowAt_write]
      split
      · rfl
      · rename_i hout
        exact hrows p (by omega)
    · intro p hp
      dsimp only at hp
      rw [Written.rowAt_write, if_neg (by omega)]
      exact h.unwritten p (by omega)

theorem stepOk_putRange (h : Related chunked contiguous store) (key : Key) (start : Int)
    (k : RawTensor α) (v : RawTensor β) (hfits : Fits (.putRange key start k v) store) :
    StepOk memory (.putRange key start k v) chunked contiguous store := by
  have hslot := h.slots key
  generalize hc : chunked.entries.get? key = ec at hslot
  generalize hk : contiguous.entries.get? key = ek at hslot
  generalize hw : store.get? key = es at hslot
  have hrun : ∀ {self : RawKvOffloadBuffer (α × β)} {entry : RawKvEntry (α × β)},
      self.entries.get? key = some entry → self.run memory (.putRange key start k v) =
        (entry.checkPut start k v).bind fun _ =>
          (entry.write start.toNat (k.rows.zip v.rows)).map fun entry =>
            ({ self with entries := self.entries.set key entry }, none) := by
    intro self entry hentry
    unfold RawKvOffloadBuffer.run RawKvOffloadBuffer.putRange
    simp only [hentry]
    cases entry.checkPut start k v with
    | error e => rfl
    | ok _ => cases entry.write start.toNat (k.rows.zip v.rows) <;> rfl
  cases hslot with
  | missing =>
    have hraise : ∀ {self : RawKvOffloadBuffer (α × β)}, self.entries.get? key = none →
        self.run memory (.putRange key start k v) = .error .missingEntry := by
      intro self hnone
      unfold RawKvOffloadBuffer.run RawKvOffloadBuffer.putRange
      simp only [hnone]
      rfl
    have hstore : store.run (.putRange key start k v) = .error .missingEntry := by
      unfold Store.run
      simp only [hw]
    exact StepOk.raises h (hraise hc) (hraise hk) hstore
  | @held c r w hentry =>
    have hchunked := hrun hc
    have hcontiguous := hrun hk
    have hstore : store.run (.putRange key start k v) = (w.checkPut start k v).map fun _ =>
        (store.set key (w.write start.toNat (k.rows.zip v.rows)), none) := by
      unfold Store.run
      simp only [hw]
    rw [hentry.chunkedShape] at hchunked
    rw [hentry.contiguousShape] at hcontiguous
    cases hcheck : w.checkPut start k v with
    | error e =>
      rw [hcheck] at hchunked hcontiguous hstore
      exact StepOk.raises h hchunked hcontiguous hstore
    | ok _ =>
      rw [hcheck] at hchunked hcontiguous hstore
      have hstart : start.toNat ≤ c.filledUntil := by
        rw [hentry.filled, hentry.filledUntil]
        exact hfits w hw hcheck
      have hroom : start.toNat + (k.rows.zip v.rows).length ≤ w.capacity := by
        have hput := EntryShape.room_of_checkPut hcheck
        rw [List.length_zip]
        omega
      obtain ⟨c', r', hwritec, hwriter, hrelated⟩ := hentry.write hstart hroom
      refine StepOk.returns ?_ ?_ hstore (h.set key hrelated)
      · rw [hchunked]
        show (c.write _ _).map _ = _
        rw [hwritec]
        rfl
      · rw [hcontiguous]
        show (r.write _ _).map _ = _
        rw [hwriter]
        rfl

section Reads

variable {c r : RawKvEntry γ} {w : Written γ} {kv : List γ} {n : Nat}

theorem EntryRelated.read_contiguous (h : EntryRelated c r w) (hkv : r.kv = some kv) (n : Nat) :
    r.read n = .ok (kv.take n) := by
  unfold RawKvEntry.read
  rw [h.noChunks, hkv]

/-- What was written so far, as the tensor has it. -/
theorem EntryRelated.rowAt_eq (h : EntryRelated c r w) (hkv : r.kv = some kv)
    (hn : n ≤ r.filledUntil) {p : Nat} (hp : p < n) :
    w.rowAt p = (kv.take n)[p]? ∧ p < (kv.take n).length := by
  obtain ⟨kv', hkv', hlen, hrows⟩ := h.kv
  obtain rfl : kv = kv' := Option.some.inj (hkv.symm.trans hkv')
  have hwithin := h.within
  rw [hrows p (by omega), List.getElem?_take, if_pos hp, List.length_take]
  exact ⟨rfl, by omega⟩

theorem EntryRelated.length_take (h : EntryRelated c r w) (hkv : r.kv = some kv)
    (hn : n ≤ r.filledUntil) : (kv.take n).length = n := by
  obtain ⟨kv', hkv', hlen, -⟩ := h.kv
  obtain rfl : kv = kv' := Option.some.inj (hkv.symm.trans hkv')
  have hwithin := h.within
  rw [List.length_take]
  omega

/-- What was last written is a prefix of the tensor. -/
theorem EntryRelated.map_rowAt (h : EntryRelated c r w) (hkv : r.kv = some kv)
    (hn : n ≤ r.filledUntil) : (List.range n).map w.rowAt = (kv.take n).map some := by
  have hlen := h.length_take hkv hn
  apply List.ext_getElem
  · rw [List.length_map, List.length_range, List.length_map, hlen]
  · intro p hp _
    rw [List.length_map, List.length_range] at hp
    obtain ⟨hrow, hlt⟩ := h.rowAt_eq hkv hn hp
    rw [List.getElem_map, List.getElem_range, List.getElem_map, hrow, List.getElem?_eq_getElem hlt]

theorem EntryRelated.read_store (h : EntryRelated c r w) (hkv : r.kv = some kv)
    (hn : n ≤ r.filledUntil) : w.read n = .ok (kv.take n) := by
  have hrows := h.map_rowAt hkv hn
  have hall : ((List.range n).all fun p => (w.rowAt p).isSome) = true := by
    rw [List.all_eq_true]
    intro p hp
    obtain ⟨hrow, hlt⟩ := h.rowAt_eq hkv hn (List.mem_range.mp hp)
    rw [hrow, List.getElem?_eq_getElem hlt]
    rfl
  have hread : (List.range n).filterMap w.rowAt = kv.take n := by
    have hid : (List.range n).filterMap w.rowAt = ((List.range n).map w.rowAt).filterMap id := by
      rw [List.filterMap_map]
      rfl
    rw [hid, hrows, List.filterMap_map]
    exact List.filterMap_some
  unfold Written.read
  rw [if_pos hall, hread]

theorem EntryRelated.read_unwritten (h : EntryRelated c r w) (hn : r.filledUntil < n) :
    w.read n = .error .readsUnwritten := by
  unfold Written.read
  refine if_neg fun hall => ?_
  have hsome := List.all_eq_true.mp hall r.filledUntil (List.mem_range.mpr hn)
  rw [h.unwritten _ (Nat.le_refl _)] at hsome
  cases hsome

/-- A read of current chunks returns what was written last. -/
theorem EntryRelated.read_chunked (h : EntryRelated c r w) (hkv : r.kv = some kv)
    (hn : n ≤ r.filledUntil) {chunks : Dict Nat (List γ)} (hchunks : c.chunks = some chunks)
    (hcurrent : Current (sortedChunks chunks) n w.rowAt) : c.read n = .ok (kv.take n) := by
  unfold RawKvEntry.read
  rw [hchunks]
  dsimp only
  rcases Nat.eq_zero_or_pos n with rfl | hpos
  · rw [copyChunks_zero_ok_iff, List.take_zero]
    exact ⟨rfl, hcurrent.first⟩
  rw [copyChunks_ok_iff hpos, List.map_nil, List.nil_append, Nat.sub_zero, ← h.map_rowAt hkv hn,
    ← List.range_eq_range', List.map_inj_left]
  exact fun p hp => (hcurrent.latest p (List.mem_range.mp hp)).symm

/-! ### The walk and the ranges -/

section Ranges

variable {chunks : Dict Nat (List γ)} {p : Nat} {chunk : Nat × List γ}

theorem mem_sortedChunks : chunk ∈ sortedChunks chunks ↔ chunks.get? chunk.1 = some chunk.2 := by
  unfold sortedChunks
  rw [List.mem_insertionSort, List.mem_map, ← Dict.mem_entries]
  exact ⟨fun ⟨_, hin, heq⟩ => heq ▸ hin, fun hin => ⟨_, hin, rfl⟩⟩

/-- The first chunk that ends past a position has the least start of these. -/
theorem firstPast_iff : firstPast (sortedChunks chunks) p = some chunk ↔
    chunks.get? chunk.1 = some chunk.2 ∧ p < chunk.1 + chunk.2.length ∧
      ∀ other : Nat × List γ, chunks.get? other.1 = some other.2 → p < other.1 + other.2.length →
        chunk.1 ≤ other.1 := by
  have hfound : ∀ {first}, firstPast (sortedChunks chunks) p = some first →
      chunks.get? first.1 = some first.2 ∧ p < first.1 + first.2.length := fun hfirst =>
    ⟨mem_sortedChunks.mp (List.mem_of_find?_eq_some hfirst), of_decide_eq_true (List.find?_some hfirst :)⟩
  have hleast : ∀ {first}, firstPast (sortedChunks chunks) p = some first →
      ∀ other : Nat × List γ, chunks.get? other.1 = some other.2 →
        p < other.1 + other.2.length → first.1 ≤ other.1 := by
    intro first hfirst other hget hpast
    have hsorted : (sortedChunks chunks).Pairwise fun a b => a.1 ≤ b.1 := by
      have : Std.Total fun a b : Nat × List γ => a.1 ≤ b.1 := ⟨fun a b => le_total _ _⟩
      have : IsTrans (Nat × List γ) fun a b => a.1 ≤ b.1 := ⟨fun _ _ _ h h' => h.trans h'⟩
      exact List.pairwise_insertionSort _ _
    obtain ⟨-, before, after, hsplit, hbefore⟩ := List.find?_eq_some_iff_append.mp hfirst
    have hin := mem_sortedChunks.mpr hget
    rw [hsplit] at hin hsorted
    rcases List.mem_append.mp hin with hin | hin
    · have hnot := hbefore other hin
      rw [decide_eq_true hpast] at hnot
      cases hnot
    · rcases List.mem_cons.mp hin with heq | hin
      · exact heq ▸ le_rfl
      · exact List.rel_of_pairwise_cons (List.pairwise_append.mp hsorted).2.1 hin
  refine ⟨fun hfirst => ⟨(hfound hfirst).1, (hfound hfirst).2, hleast hfirst⟩, ?_⟩
  rintro ⟨hget, hpast, hmin⟩
  have hsome : (firstPast (sortedChunks chunks) p).isSome = true :=
    List.find?_isSome.mpr ⟨chunk, mem_sortedChunks.mpr hget, decide_eq_true hpast⟩
  obtain ⟨first, hfirst⟩ := Option.isSome_iff_exists.mp hsome
  obtain ⟨hin, hends⟩ := hfound hfirst
  have hstart : first.1 = chunk.1 := le_antisymm (hleast hfirst _ hget hpast) (hmin _ hin hends)
  rw [hstart, hget] at hin
  rw [hfirst, Prod.ext hstart (Option.some.inj hin).symm]

/-- Two searches that find each other's element find the same. -/
theorem find?_unique {δ : Type} {P Q : δ → Bool} {l : List δ} {a b : δ} (ha : l.find? P = some a)
    (hb : l.find? Q = some b) (hab : P b = true) (hba : Q a = true) : a = b := by
  induction l with
  | nil => cases ha
  | cons x l ih =>
    rw [List.find?_cons] at ha hb
    cases hP : P x with
    | true =>
      rw [hP] at ha
      cases ha
      rw [hba] at hb
      exact Option.some.inj hb
    | false =>
      have hQ : Q x = false := by
        by_contra hQ
        rw [Bool.not_eq_false] at hQ
        rw [hQ] at hb
        cases hb
        rw [hP] at hab
        cases hab
      rw [hP] at ha
      rw [hQ] at hb
      exact ih ha hb

/-- A kept range is that of a chunk. -/
theorem kept_iff {r : Nat × Nat} : Kept w.ranges r ↔
    ∃ put, w.puts.find? (·.1 = put.1) = some put ∧ rangeOf put = r := by
  unfold Kept Written.ranges
  rw [List.find?_map, Option.map_eq_some_iff]
  refine exists_congr fun put => and_congr_left ?_
  rintro rfl
  rfl

theorem rangeOf_mem {P : Nat × List γ → Bool} {put : Nat × List γ} (h : w.puts.find? P = some put) :
    rangeOf put ∈ w.ranges := List.mem_map_of_mem (List.mem_of_find?_eq_some h)

variable (kept : ∀ start, chunks.get? start = (w.puts.find? (·.1 = start)).map Prod.snd)

include kept

theorem get?_iff {put : Nat × List γ} :
    chunks.get? put.1 = some put.2 ↔ w.puts.find? (·.1 = put.1) = some put := by
  rw [kept, Option.map_eq_some_iff]
  refine ⟨fun ⟨found, hfound, hrows⟩ => ?_, fun hfound => ⟨put, hfound, rfl⟩⟩
  have hstart : found.1 = put.1 := of_decide_eq_true (List.find?_some hfound :)
  rw [hfound, Prod.ext hstart hrows]

/-- Where the ranges show a position, the walk reads what was put there last. -/
theorem chunkAt_of_shows (hshows : Shows w.ranges p) :
    chunkAt (sortedChunks chunks) p = w.rowAt p := by
  obtain ⟨r, -, hkept, hlast, hearlier⟩ := hshows
  obtain ⟨put, hput, rfl⟩ := kept_iff.mp hkept
  have hcovers := List.find?_some hlast
  unfold Written.ranges at hlast
  rw [List.find?_map, Option.map_eq_some_iff] at hlast
  obtain ⟨last, hlast, hrange⟩ := hlast
  obtain rfl : put = last := find?_unique hput hlast
    (decide_eq_true (congrArg Prod.fst hrange :)) hcovers
  have hcovers : put.1 ≤ p ∧ p < put.1 + put.2.length := of_decide_eq_true hcovers
  have hfirst : firstPast (sortedChunks chunks) p = some put := by
    refine firstPast_iff.mpr ⟨(get?_iff kept).mpr hput, hcovers.2, fun other hget hpast => ?_⟩
    have hfound := (get?_iff kept).mp hget
    by_contra hlt
    have hle := hearlier _ (rangeOf_mem hfound) (kept_iff.mpr ⟨_, hfound, rfl⟩) (not_le.mp hlt)
    exact absurd hpast (not_lt.mpr hle)
  have hrow : w.rowAt p = put.2[p - put.1]? := by
    unfold Written.rowAt
    rw [show (w.puts.find? fun put => covers p (rangeOf put)) = some put from hlast]
    rfl
  unfold chunkAt
  rw [hfirst, hrow, Option.bind_some, if_pos hcovers.1]

/-- A walk of a readable prefix finds no gap, and reads what was put last. -/
theorem current_of_readable (h : Readable w.ranges n) : Current (sortedChunks chunks) n w.rowAt := by
  refine ⟨fun chunk hchunk => ?_, fun p hp => chunkAt_of_shows kept (h.shows p hp)⟩
  obtain ⟨hget, hends, hleast⟩ := firstPast_iff.mp hchunk
  have hfound := (get?_iff kept).mp hget
  obtain ⟨r, -, hkept, hzero, hlen⟩ := h.first _ (rangeOf_mem hfound)
    (kept_iff.mpr ⟨chunk, hfound, rfl⟩) hends
  obtain ⟨put, hput, rfl⟩ := kept_iff.mp hkept
  have hle := hleast put ((get?_iff kept).mpr hput) (Nat.lt_add_left _ hlen)
  exact Nat.le_zero.mp (hle.trans_eq hzero)

end Ranges

end Reads

theorem stepOk_copyPrefixTo (h : Related chunked contiguous store) (key : Key) (stop : Int)
    (kOut : RawTensor α) (vOut : RawTensor β) (hfits : Fits (.copyPrefixTo key stop kOut vOut) store) :
    StepOk memory (.copyPrefixTo key stop kOut vOut) chunked contiguous store := by
  have hslot := h.slots key
  generalize hc : chunked.entries.get? key = ec at hslot
  generalize hk : contiguous.entries.get? key = ek at hslot
  generalize hw : store.get? key = es at hslot
  cases hslot with
  | missing =>
    have hraise : ∀ {self : RawKvOffloadBuffer (α × β)}, self.entries.get? key = none →
        self.run memory (.copyPrefixTo key stop kOut vOut) = .error .missingEntry := by
      intro self hnone
      unfold RawKvOffloadBuffer.run RawKvOffloadBuffer.copyPrefixTo
      simp only [hnone]
      rfl
    have hstore : store.run (.copyPrefixTo key stop kOut vOut) = .error .missingEntry := by
      unfold Store.run Store.copyPrefixTo
      simp only [hw]
      rfl
    exact StepOk.raises h (hraise hc) (hraise hk) hstore
  | @held c r w hentry =>
    obtain ⟨chunks, hchunks, hkept⟩ := hentry.chunks
    obtain ⟨kv, hkv, -, -⟩ := hentry.kv
    have hrun : ∀ {self : RawKvOffloadBuffer (α × β)} {entry : RawKvEntry (α × β)},
        self.entries.get? key = some entry → self.run memory (.copyPrefixTo key stop kOut vOut) =
          if stop < 0 ∨ stop > entry.filledUntil then .error .readsUnwritten
          else (entry.checkDestination stop kOut vOut).bind fun _ =>
            (entry.read stop.toNat).map fun copied => (self, some (filledWith kOut vOut copied)) := by
      intro self entry hentry
      unfold RawKvOffloadBuffer.run RawKvOffloadBuffer.copyPrefixTo
      simp only [hentry]
      by_cases hrange : stop < 0 ∨ stop > entry.filledUntil
      · rw [if_pos hrange, if_pos hrange]
        rfl
      · rw [if_neg hrange, if_neg hrange]
        cases entry.checkDestination stop kOut vOut with
        | error e => rfl
        | ok _ => cases entry.read stop.toNat <;> rfl
    have hstore : store.run (.copyPrefixTo key stop kOut vOut) =
        if stop < 0 then .error .readsUnwritten
        else (w.checkDestination stop kOut vOut).bind fun _ =>
          (w.read stop.toNat).map fun copied => (store, some (filledWith kOut vOut copied)) := by
      unfold Store.run Store.copyPrefixTo
      simp only [hw]
      by_cases hneg : stop < 0
      · rw [if_pos hneg, if_pos hneg]
        rfl
      · rw [if_neg hneg, if_neg hneg]
        cases w.checkDestination stop kOut vOut with
        | error e => rfl
        | ok _ => cases w.read stop.toNat <;> rfl
    have hchunked := hrun hc
    have hcontiguous := hrun hk
    rw [hentry.chunkedShape, hentry.filled] at hchunked
    rw [hentry.contiguousShape] at hcontiguous
    by_cases hrange : stop < 0 ∨ stop > r.filledUntil
    · -- past what was written the store raises too
      rw [if_pos hrange] at hchunked hcontiguous
      have hraise : ∃ e, store.run (.copyPrefixTo key stop kOut vOut) = .error e := by
        rw [hstore]
        by_cases hneg : stop < 0
        · exact ⟨_, if_pos hneg⟩
        · rw [if_neg hneg]
          cases w.checkDestination stop kOut vOut with
          | error e => exact ⟨e, rfl⟩
          | ok _ =>
            rw [hentry.read_unwritten (by omega)]
            exact ⟨_, rfl⟩
      obtain ⟨e, hraise⟩ := hraise
      exact StepOk.raises h hchunked hcontiguous hraise
    rw [not_or, not_lt, not_lt] at hrange
    have hn : stop.toNat ≤ r.filledUntil := by omega
    rw [if_neg (by omega)] at hchunked hcontiguous hstore
    cases hcheck : w.checkDestination stop kOut vOut with
    | error e =>
      rw [hcheck] at hchunked hcontiguous hstore
      exact StepOk.raises h hchunked hcontiguous hstore
    | ok _ =>
      rw [hcheck] at hchunked hcontiguous hstore
      have hreadable := hfits w hw hrange.1 (by rw [← hentry.filledUntil]; exact hrange.2) hcheck
      have hread := hentry.read_chunked hkv hn hchunks (current_of_readable hkept hreadable)
      exact StepOk.returns (hchunked.trans (congrArg (Except.map _) hread))
        (hcontiguous.trans (congrArg (Except.map _) (hentry.read_contiguous hkv stop.toNat)))
        (hstore.trans (congrArg (Except.map _) (hentry.read_store hkv hn))) h

theorem stepOk (h : Related chunked contiguous store) (call : Call α β) (hfits : Fits call store) :
    StepOk memory call chunked contiguous store := by
  cases call with
  | ensureEntry key totalLen kShapeTail vShapeTail => exact stepOk_ensureEntry h ..
  | putRange key start k v => exact stepOk_putRange h _ _ _ _ hfits
  | copyPrefixTo key stop kOut vOut => exact stepOk_copyPrefixTo h _ _ _ _ hfits
  | releaseLayer layerIdx rowIdx kind => exact ⟨⟨rfl, rfl⟩, h.drop _⟩
  | releaseRow rowIdx => exact ⟨⟨rfl, rfl⟩, h.drop _⟩

/-! ### Runs -/

/-- What was put after a call. -/
def Store.exec (call : Call α β) (store : Store (α × β)) : Store (α × β) :=
  after store (store.run call)

/-- Both layouts answer the calls as the store does. -/
def Agree (memory : Nat → α × β) (chunked contiguous : RawKvOffloadBuffer (α × β))
    (store : Store (α × β)) (calls : List (Call α β)) : Prop :=
  answers (RawKvOffloadBuffer.run memory) chunked calls = answers Store.run store calls ∧
    answers (RawKvOffloadBuffer.run memory) contiguous calls = answers Store.run store calls

theorem Related.agree (h : Related chunked contiguous store) {calls : List (Call α β)}
    (hfits : Along Store.exec (fun store call => Fits call store) store calls) :
    Agree memory chunked contiguous store calls := by
  induction calls generalizing chunked contiguous store with
  | nil => exact ⟨rfl, rfl⟩
  | cons call calls ih =>
    obtain ⟨hcall, hrest⟩ := hfits
    have hstep : StepOk memory call chunked contiguous store := stepOk h call hcall
    obtain ⟨⟨hchunked, hcontiguous⟩, hnext⟩ := hstep
    obtain ⟨hchunks, htensor⟩ := ih hnext hrest
    exact ⟨List.cons_eq_cons.mpr ⟨hchunked, hchunks⟩, List.cons_eq_cons.mpr ⟨hcontiguous, htensor⟩⟩

/-- **Both layouts answer a sequence of calls as the store does** if no range starts past what was
written and every read is of a readable prefix, whatever the rows are. -/
theorem layouts_agree (memory : Nat → α × β) (calls : List (Call α β))
    (fits : Along Store.exec (fun store call => Fits call store) ∅ calls) :
    Agree memory { mode := .chunked } { mode := .contiguous } ∅ calls :=
  related_empty.agree fits

/-- The rows of a prompt come in two ranges, and the second is put again. -/
def promptCalls : List (Call Nat Nat) :=
  [.ensureEntry (0, 0, "raw") 3 [] [], .putRange (0, 0, "raw") 0 ⟨[1, 2], []⟩ ⟨[1, 2], []⟩,
    .putRange (0, 0, "raw") 2 ⟨[3], []⟩ ⟨[3], []⟩, .putRange (0, 0, "raw") 2 ⟨[4], []⟩ ⟨[4], []⟩,
    .copyPrefixTo (0, 0, "raw") 3 ⟨[0, 0, 0], []⟩ ⟨[0, 0, 0], []⟩]

theorem layouts_agree_promptCalls :
    Agree (fun _ => (0, 0)) { mode := .chunked } { mode := .contiguous } ∅ promptCalls := by
  refine layouts_agree _ _ ⟨trivial, fun entry h _ => ?_, fun entry h _ => ?_,
    fun entry h _ => ?_, fun entry h _ _ _ => ?_, trivial⟩
  · cases h
    decide
  · cases h
    decide
  · cases h
    decide
  · cases h
    exact ⟨by decide, by decide⟩

/-- The calls of a rewrite of the second row. -/
def rewriteCalls : List (Call Nat Nat) :=
  [.ensureEntry (0, 0, "raw") 2 [] [], .putRange (0, 0, "raw") 0 ⟨[1, 2], []⟩ ⟨[1, 2], []⟩,
    .putRange (0, 0, "raw") 1 ⟨[3], []⟩ ⟨[3], []⟩,
    .copyPrefixTo (0, 0, "raw") 2 ⟨[0, 0], []⟩ ⟨[0, 0], []⟩]

/-- A row that is written again in a later chunk is read from the earlier one. -/
theorem layouts_disagree :
    ¬ Agree (fun _ => (0, 0)) { mode := .chunked } { mode := .contiguous } ∅ rewriteCalls := by
  rintro ⟨hchunked, -⟩
  revert hchunked
  decide

end Steps

end SparseVllm.RawKv
