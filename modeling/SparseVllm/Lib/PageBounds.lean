import Mathlib

/-!
# Bounds of pages

A memory of pages of `size` entries keeps an upper and a lower bound for each page. The bounds are
`Exact` up to an offset when they are the least upper and the greatest lower bound of the entries
before it. Entries are appended to a page as a `PagePiece`; what was in the page after its offset
does not matter, and neither do the bounds when the piece starts the page.

* `Exact.writePiece`, `Exact.of_ne`: a piece extends what is exact in its page, and leaves the others.
* `reboundAll_eq`: pieces of distinct pages may be stored first and bounded afterwards.
* `Exact.isGreatest`, `Exact.isLeast`: the bounds of vectors are those of their elements.
* `Exact.copyPage`, `exact_restorePage`: a page that is copied out with its bounds and restored.
-/

namespace SparseVllm.Lib

/-- A paged memory with the bounds of each page. -/
@[ext] structure PagedStore (K : Type) where
  keys : Int → K
  pageMax : Int → K
  pageMin : Int → K

/-- Entries for consecutive offsets of a page. -/
structure PagePiece (K : Type) where
  page : Int
  offset : Nat
  entries : List K

/-- The contents of a full page with its bounds, outside the memory. -/
structure PageCopy (K : Type) where
  keys : Nat → K
  pageMax : K
  pageMin : K

variable {K : Type}

/-- The entries with the slots they go to, from an offset of a page on. -/
def slotsFrom (size : Nat) (page : Int) : Nat → List K → List (Int × K)
  | _, [] => []
  | offset, key :: rest => (page * size + offset, key) :: slotsFrom size page (offset + 1) rest

namespace PagePiece

def tokens (size : Nat) (p : PagePiece K) : List (Int × K) := slotsFrom size p.page p.offset p.entries

/-- The offset after the piece. -/
def stop (p : PagePiece K) : Nat := p.offset + p.entries.length

/-- The piece has entries, and they lie in the page. -/
structure Fits (size : Nat) (p : PagePiece K) : Prop where
  nonempty : p.entries ≠ []
  inside : p.stop ≤ size

end PagePiece

/-- The least upper bound of a list. -/
def listMax [Lattice K] [BoundedOrder K] (entries : List K) : K := entries.foldr (· ⊔ ·) ⊥

/-- The greatest lower bound of a list. -/
def listMin [Lattice K] [BoundedOrder K] (entries : List K) : K := entries.foldr (· ⊓ ·) ⊤

namespace PagedStore

/-- Store entries, one after the other. -/
def store (tokens : List (Int × K)) (m : PagedStore K) : PagedStore K :=
  { m with keys := tokens.foldl (fun keys token => Function.update keys token.1 token.2) m.keys }

/-- Copy a page out. -/
def copyPage (size : Nat) (page : Int) (m : PagedStore K) : PageCopy K where
  keys i := m.keys (page * size + i)
  pageMax := m.pageMax page
  pageMin := m.pageMin page

/-- Write a copy into a page. -/
def restorePage (size : Nat) (page : Int) (copy : PageCopy K) (m : PagedStore K) : PagedStore K where
  keys slot := if slot / size = page then copy.keys (slot % size).toNat else m.keys slot
  pageMax := Function.update m.pageMax page copy.pageMax
  pageMin := Function.update m.pageMin page copy.pageMin

variable [Lattice K] [BoundedOrder K]

/-- Store a piece and extend the bounds of its page. -/
def writePiece (size : Nat) (p : PagePiece K) (m : PagedStore K) : PagedStore K where
  keys := (m.store (p.tokens size)).keys
  pageMax := Function.update m.pageMax p.page
    ((if p.offset = 0 then ⊥ else m.pageMax p.page) ⊔ listMax p.entries)
  pageMin := Function.update m.pageMin p.page
    ((if p.offset = 0 then ⊤ else m.pageMin p.page) ⊓ listMin p.entries)

/-- Compute the bounds of a page from its first entries. -/
def rebound (size : Nat) (page : Int) (filled : Nat) (m : PagedStore K) : PagedStore K where
  keys := m.keys
  pageMax := Function.update m.pageMax page
    ((Finset.range filled).sup fun i => m.keys (page * size + i))
  pageMin := Function.update m.pageMin page
    ((Finset.range filled).inf fun i => m.keys (page * size + i))

/-- Store pieces with their bounds, one after the other. -/
def writePieces (size : Nat) (pieces : List (PagePiece K)) (m : PagedStore K) : PagedStore K :=
  pieces.foldl (fun m p => m.writePiece size p) m

/-- Compute the bounds of pages, each from its first entries. -/
def reboundAll (size : Nat) (pages : List (Int × Nat)) (m : PagedStore K) : PagedStore K :=
  pages.foldl (fun m page => m.rebound size page.1 page.2) m

/-- The bounds of a page are those of its first `filled` entries. -/
structure Exact (size : Nat) (page : Int) (filled : Nat) (m : PagedStore K) : Prop where
  max : m.pageMax page = (Finset.range filled).sup fun i => m.keys (page * size + i)
  min : m.pageMin page = (Finset.range filled).inf fun i => m.keys (page * size + i)

end PagedStore

/-- The bounds of a copy are those of its entries. -/
structure PageCopy.Exact [Lattice K] [BoundedOrder K] (size : Nat) (copy : PageCopy K) : Prop where
  max : copy.pageMax = (Finset.range size).sup copy.keys
  min : copy.pageMin = (Finset.range size).inf copy.keys

/-! ## Slots -/

section Slots

variable {size offset : Nat} {page : Int} {entries : List K} {token : Int × K}

theorem mem_slotsFrom (h : token ∈ slotsFrom size page offset entries) :
    ∃ j, ∃ hj : j < entries.length, token = (page * size + (offset + j : Nat), entries[j]) := by
  induction entries generalizing offset with
  | nil => cases h
  | cons key rest ih =>
    rcases List.mem_cons.mp h with rfl | h
    · exact ⟨0, Nat.zero_lt_succ _, rfl⟩
    · obtain ⟨j, hj, rfl⟩ := ih h
      refine ⟨j + 1, Nat.succ_lt_succ hj, ?_⟩
      rw [List.getElem_cons_succ, Nat.add_right_comm, Nat.add_assoc]

theorem length_slotsFrom (size : Nat) (page : Int) (offset : Nat) (entries : List K) :
    (slotsFrom size page offset entries).length = entries.length := by
  induction entries generalizing offset with
  | nil => rfl
  | cons key rest ih => exact congrArg Nat.succ (ih (offset + 1))

theorem map_fst_slotsFrom (size : Nat) (page : Int) (offset : Nat) (entries : List K) :
    (slotsFrom size page offset entries).map Prod.fst =
      (List.range' offset entries.length).map fun i : Nat => page * size + i := by
  induction entries generalizing offset with
  | nil => rfl
  | cons key rest ih => exact congrArg (_ :: ·) (ih (offset + 1))

theorem map_snd_slotsFrom (size : Nat) (page : Int) (offset : Nat) (entries : List K) :
    (slotsFrom size page offset entries).map Prod.snd = entries := by
  induction entries generalizing offset with
  | nil => rfl
  | cons key rest ih => exact congrArg (key :: ·) (ih (offset + 1))

/-- A slot lies in its page. -/
theorem slot_div {i : Nat} (h : i < size) : (page * size + i) / (size : Int) = page := by
  rw [Int.add_comm, Int.add_mul_ediv_right _ _ (by omega),
    Int.ediv_eq_zero_of_lt (by omega) (by omega), Int.zero_add]

theorem slot_mod {i : Nat} (h : i < size) : (page * size + i) % (size : Int) = i := by
  rw [Int.add_comm, Int.add_mul_emod_self_right, Int.emod_eq_of_lt (by omega) (by omega)]

theorem slot_inj {page' : Int} {i j : Nat} (hi : i < size) (hj : j < size)
    (h : page * size + (i : Int) = page' * size + (j : Int)) : page = page' ∧ i = j := by
  have hpage : page = page' := by
    have hdiv : (page * size + (i : Int)) / (size : Int) = page := slot_div hi
    rw [← hdiv, h, slot_div hj]
  refine ⟨hpage, ?_⟩
  subst hpage
  omega

end Slots

namespace PagedStore

variable {m m' : PagedStore K} {tokens tokens' : List (Int × K)} {size : Nat}

theorem store_keys_congr (h : m.keys = m'.keys) : (m.store tokens).keys = (m'.store tokens).keys := by
  unfold store
  rw [h]

theorem store_append : m.store (tokens ++ tokens') = (m.store tokens).store tokens' := by
  unfold store
  rw [List.foldl_append]

theorem store_keys_of_notMem {slot : Int} (h : ∀ token ∈ tokens, token.1 ≠ slot) :
    (m.store tokens).keys slot = m.keys slot := by
  induction tokens generalizing m with
  | nil => rfl
  | cons token rest ih =>
    have hrest := ih (m := m.store [token]) fun t ht => h t (List.mem_cons_of_mem _ ht)
    exact hrest.trans (Function.update_of_ne (h token List.mem_cons_self).symm ..)

/-- Entries stored in different slots are there. -/
theorem map_store_zip {slots : List Int} {entries : List K} (hnd : slots.Nodup)
    (hlen : slots.length = entries.length) :
    slots.map (m.store (slots.zip entries)).keys = entries := by
  induction slots generalizing m entries with
  | nil => exact (List.length_eq_zero_iff.mp hlen.symm).symm
  | cons slot slots ih =>
    cases entries with
    | nil => cases hlen
    | cons key entries =>
      obtain ⟨hout, hnd⟩ := List.nodup_cons.mp hnd
      have hfirst : (m.store ((slot :: slots).zip (key :: entries))).keys slot = key := by
        refine (store_keys_of_notMem (m := m.store [(slot, key)]) fun token htoken heq => ?_).trans
          (Function.update_self ..)
        exact hout (heq ▸ (List.of_mem_zip htoken).1)
      rw [List.map_cons, hfirst]
      exact congrArg _ (ih (m := m.store [(slot, key)]) hnd (Nat.succ.inj hlen))

theorem store_slotsFrom {page : Int} {offset : Nat} {entries : List K} {j : Nat}
    (hj : j < entries.length) :
    (m.store (slotsFrom size page offset entries)).keys (page * size + (offset + j : Nat)) =
      entries[j] := by
  induction entries generalizing m offset j with
  | nil => cases hj
  | cons key rest ih =>
    cases j with
    | zero =>
      refine (store_keys_of_notMem (m := m.store [(page * size + offset, key)]) ?_).trans
        (Function.update_self ..)
      intro token htoken heq
      obtain ⟨k, hk, rfl⟩ := mem_slotsFrom htoken
      simp only at heq
      omega
    | succ j =>
      have hlt : j < rest.length := Nat.lt_of_succ_lt_succ hj
      have hrest : ((m.store [(page * size + offset, key)]).store
          (slotsFrom size page (offset + 1) rest)).keys (page * size + (offset + 1 + j : Nat)) =
            rest[j] := ih hlt
      rw [List.getElem_cons_succ, ← hrest, Nat.add_right_comm, Nat.add_assoc]
      rfl

end PagedStore

/-! ## Pieces -/

section Bounds

variable [Lattice K] [BoundedOrder K]

theorem listMax_le_iff {entries : List K} {c : K} : listMax entries ≤ c ↔ ∀ key ∈ entries, key ≤ c := by
  unfold listMax
  induction entries with
  | nil => simp
  | cons key rest ih => simp [ih]

theorem le_listMin_iff {entries : List K} {c : K} : c ≤ listMin entries ↔ ∀ key ∈ entries, c ≤ key := by
  unfold listMin
  induction entries with
  | nil => simp
  | cons key rest ih => simp [ih]

theorem listMax_range (f : Nat → K) (n : Nat) :
    listMax ((List.range n).map f) = (Finset.range n).sup f :=
  eq_of_forall_ge_iff fun c => by
    simp [listMax_le_iff]

theorem listMin_range (f : Nat → K) (n : Nat) :
    listMin ((List.range n).map f) = (Finset.range n).inf f :=
  eq_of_forall_le_iff fun c => by
    simp [le_listMin_iff]

namespace PagedStore

variable {m : PagedStore K} {size : Nat} {p : PagePiece K} {page : Int} {filled : Nat}

/-- What a piece leaves in another page. -/
theorem writePiece_keys_of_ne (hfits : p.Fits size) {i : Nat} (hi : i < size)
    (h : page ≠ p.page) : (m.writePiece size p).keys (page * size + i) = m.keys (page * size + i) := by
  refine store_keys_of_notMem fun token htoken heq => ?_
  obtain ⟨j, hj, rfl⟩ := mem_slotsFrom htoken
  have hstop := hfits.inside
  unfold PagePiece.stop at hstop
  exact h (slot_inj hi (by omega) heq.symm).1

/-- What a piece leaves before its offset. -/
theorem writePiece_keys_of_lt {i : Nat} (h : i < p.offset) :
    (m.writePiece size p).keys (p.page * size + i) = m.keys (p.page * size + i) := by
  refine store_keys_of_notMem fun token htoken heq => ?_
  obtain ⟨j, hj, rfl⟩ := mem_slotsFrom htoken
  simp only at heq
  omega

theorem writePiece_keys_entry {j : Nat} (hj : j < p.entries.length) :
    (m.writePiece size p).keys (p.page * size + (p.offset + j : Nat)) = p.entries[j] :=
  store_slotsFrom hj

/-- The bounds of the other pages stay. -/
theorem Exact.of_ne (h : m.Exact size page filled) (hfilled : filled ≤ size) (hfits : p.Fits size)
    (hne : page ≠ p.page) : (m.writePiece size p).Exact size page filled := by
  have hkeys : ∀ i ∈ Finset.range filled,
      (m.writePiece size p).keys (page * size + i) = m.keys (page * size + i) := fun i hi =>
    writePiece_keys_of_ne hfits ((Finset.mem_range.mp hi).trans_le hfilled) hne
  constructor
  · rw [Finset.sup_congr rfl hkeys, ← h.max]
    exact Function.update_of_ne hne ..
  · rw [Finset.inf_congr rfl hkeys, ← h.min]
    exact Function.update_of_ne hne ..

/-- The entries up to the end of a piece: those before it, and its own. -/
theorem forall_writePiece_iff {P : K → Prop} :
    (∀ i ∈ Finset.range p.stop, P ((m.writePiece size p).keys (p.page * size + i))) ↔
      (∀ i ∈ Finset.range p.offset, P (m.keys (p.page * size + i))) ∧ ∀ key ∈ p.entries, P key := by
  constructor
  · intro h
    refine ⟨fun i hi => ?_, fun key hkey => ?_⟩
    · have hlt := Finset.mem_range.mp hi
      rw [← writePiece_keys_of_lt hlt]
      exact h i (Finset.mem_range.mpr (hlt.trans_le (Nat.le_add_right _ _)))
    · obtain ⟨j, hj, rfl⟩ := List.getElem_of_mem hkey
      rw [← writePiece_keys_entry hj]
      exact h _ (Finset.mem_range.mpr (Nat.add_lt_add_left hj _))
  · rintro ⟨hold, hnew⟩ i hi
    by_cases hlt : i < p.offset
    · rw [writePiece_keys_of_lt hlt]
      exact hold i (Finset.mem_range.mpr hlt)
    · obtain ⟨j, rfl⟩ := Nat.exists_eq_add_of_le (not_lt.mp hlt)
      have hj : j < p.entries.length := by
        have := Finset.mem_range.mp hi
        unfold PagePiece.stop at this
        omega
      rw [writePiece_keys_entry hj]
      exact hnew _ (List.getElem_mem hj)

/-- A piece extends what is exact in its page. -/
theorem Exact.writePiece (h : p.offset ≠ 0 → m.Exact size p.page p.offset) :
    (m.writePiece size p).Exact size p.page p.stop := by
  have hmax : (if p.offset = 0 then ⊥ else m.pageMax p.page) =
      (Finset.range p.offset).sup fun i => m.keys (p.page * size + i) := by
    split
    · rename_i hzero
      rw [hzero, Finset.range_zero, Finset.sup_empty]
    · rename_i hpos
      exact (h hpos).max
  have hmin : (if p.offset = 0 then ⊤ else m.pageMin p.page) =
      (Finset.range p.offset).inf fun i => m.keys (p.page * size + i) := by
    split
    · rename_i hzero
      rw [hzero, Finset.range_zero, Finset.inf_empty]
    · rename_i hpos
      exact (h hpos).min
  constructor
  · refine (Function.update_self ..).trans (eq_of_forall_ge_iff fun c => ?_)
    rw [hmax, sup_le_iff, Finset.sup_le_iff, listMax_le_iff, Finset.sup_le_iff]
    exact (forall_writePiece_iff (P := (· ≤ c))).symm
  · refine (Function.update_self ..).trans (eq_of_forall_le_iff fun c => ?_)
    rw [hmin, le_inf_iff, Finset.le_inf_iff, le_listMin_iff, Finset.le_inf_iff]
    exact (forall_writePiece_iff (P := (c ≤ ·))).symm

/-! ## Many pieces -/

variable {pieces : List (PagePiece K)} {pages : List (Int × Nat)}

theorem writePieces_cons :
    m.writePieces size (p :: pieces) = (m.writePiece size p).writePieces size pieces := rfl

theorem writePieces_keys :
    (m.writePieces size pieces).keys =
      (m.store (pieces.flatMap fun p => p.tokens size)).keys := by
  induction pieces generalizing m with
  | nil => rfl
  | cons p pieces ih =>
    rw [writePieces_cons, ih, List.flatMap_cons, store_append]
    exact store_keys_congr rfl

theorem writePieces_of_notMem (h : ∀ p ∈ pieces, p.page ≠ page) :
    (m.writePieces size pieces).pageMax page = m.pageMax page ∧
      (m.writePieces size pieces).pageMin page = m.pageMin page := by
  induction pieces generalizing m with
  | nil => exact ⟨rfl, rfl⟩
  | cons p pieces ih =>
    obtain ⟨hmax, hmin⟩ := ih (m := m.writePiece size p) fun q hq => h q (List.mem_cons_of_mem _ hq)
    have hne := (h p List.mem_cons_self).symm
    exact ⟨hmax.trans (Function.update_of_ne hne ..), hmin.trans (Function.update_of_ne hne ..)⟩

theorem Exact.writePieces_of_notMem (h : m.Exact size page filled) (hfilled : filled ≤ size)
    (hfits : ∀ p ∈ pieces, p.Fits size) (hne : ∀ p ∈ pieces, p.page ≠ page) :
    (m.writePieces size pieces).Exact size page filled := by
  induction pieces generalizing m with
  | nil => exact h
  | cons p pieces ih =>
    exact ih (h.of_ne hfilled (hfits p List.mem_cons_self) (hne p List.mem_cons_self).symm)
      (fun q hq => hfits q (List.mem_cons_of_mem _ hq)) fun q hq => hne q (List.mem_cons_of_mem _ hq)

/-- Pieces of distinct pages leave the bounds of their pages exact. -/
theorem exact_writePieces (hfits : ∀ p ∈ pieces, p.Fits size)
    (hnd : (pieces.map PagePiece.page).Nodup)
    (hexact : ∀ p ∈ pieces, p.offset ≠ 0 → m.Exact size p.page p.offset) :
    ∀ p ∈ pieces, (m.writePieces size pieces).Exact size p.page p.stop := by
  induction pieces generalizing m with
  | nil => exact fun p hp => absurd hp List.not_mem_nil
  | cons q pieces ih =>
    obtain ⟨hout, hnd⟩ := List.nodup_cons.mp hnd
    have hrest : ∀ p ∈ pieces, p.Fits size := fun p hp => hfits p (List.mem_cons_of_mem _ hp)
    have hne : ∀ p ∈ pieces, p.page ≠ q.page := fun p hp heq => hout (heq ▸ List.mem_map_of_mem hp)
    have hq := hfits q List.mem_cons_self
    intro p hp
    rcases List.mem_cons.mp hp with rfl | hp
    · exact (Exact.writePiece (hexact p List.mem_cons_self)).writePieces_of_notMem hq.inside hrest hne
    · refine ih hrest hnd (fun p hp hpos => ?_) p hp
      have hoffset : p.offset ≤ size := (Nat.le_add_right _ _).trans (hrest p hp).inside
      exact (hexact p (List.mem_cons_of_mem _ hp) hpos).of_ne hoffset hq (hne p hp)

theorem reboundAll_keys : (m.reboundAll size pages).keys = m.keys := by
  induction pages generalizing m with
  | nil => rfl
  | cons page pages ih => exact ih (m := m.rebound size page.1 page.2)

theorem reboundAll_of_notMem (h : ∀ e ∈ pages, e.1 ≠ page) :
    (m.reboundAll size pages).pageMax page = m.pageMax page ∧
      (m.reboundAll size pages).pageMin page = m.pageMin page := by
  induction pages generalizing m with
  | nil => exact ⟨rfl, rfl⟩
  | cons e pages ih =>
    obtain ⟨hmax, hmin⟩ :=
      ih (m := m.rebound size e.1 e.2) fun q hq => h q (List.mem_cons_of_mem _ hq)
    have hne := (h e List.mem_cons_self).symm
    exact ⟨hmax.trans (Function.update_of_ne hne ..), hmin.trans (Function.update_of_ne hne ..)⟩

/-- Pages that are distinct are bounded exactly. -/
theorem exact_reboundAll (hnd : (pages.map Prod.fst).Nodup) :
    ∀ e ∈ pages, (m.reboundAll size pages).Exact size e.1 e.2 := by
  induction pages generalizing m with
  | nil => exact fun e he => absurd he List.not_mem_nil
  | cons e pages ih =>
    obtain ⟨hout, hnd⟩ := List.nodup_cons.mp hnd
    intro e' he'
    rcases List.mem_cons.mp he' with rfl | he'
    · have hne : ∀ q ∈ pages, q.1 ≠ e'.1 := fun q hq heq => hout (heq ▸ List.mem_map_of_mem hq)
      have hkeys : ((m.rebound size e'.1 e'.2).reboundAll size pages).keys = m.keys := reboundAll_keys
      obtain ⟨hmax, hmin⟩ :
          ((m.rebound size e'.1 e'.2).reboundAll size pages).pageMax e'.1 =
            (m.rebound size e'.1 e'.2).pageMax e'.1 ∧
          ((m.rebound size e'.1 e'.2).reboundAll size pages).pageMin e'.1 =
            (m.rebound size e'.1 e'.2).pageMin e'.1 := reboundAll_of_notMem hne
      constructor
      · refine hmax.trans ((Function.update_self ..).trans ?_)
        exact Finset.sup_congr rfl fun i _ => (congrFun hkeys _).symm
      · refine hmin.trans ((Function.update_self ..).trans ?_)
        exact Finset.inf_congr rfl fun i _ => (congrFun hkeys _).symm
    · exact ih (m := m.rebound size e.1 e.2) hnd e' he'

/-- Pieces of distinct pages may be stored first, and their pages bounded afterwards. -/
theorem reboundAll_eq (hfits : ∀ p ∈ pieces, p.Fits size)
    (hnd : (pieces.map PagePiece.page).Nodup)
    (hexact : ∀ p ∈ pieces, p.offset ≠ 0 → m.Exact size p.page p.offset) :
    (m.store (pieces.flatMap fun p => p.tokens size)).reboundAll size
      (pieces.map fun p => (p.page, p.stop)) = m.writePieces size pieces := by
  generalize hstored : m.store (pieces.flatMap fun p => p.tokens size) = stored
  generalize hends : (pieces.map fun p => (p.page, p.stop)) = ends
  have hkeys : (stored.reboundAll size ends).keys = (m.writePieces size pieces).keys := by
    rw [reboundAll_keys, writePieces_keys, hstored]
  have hpages : (ends.map Prod.fst).Nodup := by
    rw [← hends, List.map_map]
    exact hnd
  have hbounds : ∀ page,
      (stored.reboundAll size ends).pageMax page = (m.writePieces size pieces).pageMax page ∧
      (stored.reboundAll size ends).pageMin page = (m.writePieces size pieces).pageMin page := by
    intro page
    by_cases hin : ∃ p ∈ pieces, p.page = page
    · obtain ⟨p, hp, rfl⟩ := hin
      have hleft : (stored.reboundAll size ends).Exact size p.page p.stop :=
        exact_reboundAll hpages (p.page, p.stop) (hends ▸ List.mem_map_of_mem hp)
      have hright := exact_writePieces hfits hnd hexact p hp
      rw [hleft.max, hleft.min, hright.max, hright.min, hkeys]
      exact ⟨rfl, rfl⟩
    · have hne : ∀ p ∈ pieces, p.page ≠ page := fun p hp heq => hin ⟨p, hp, heq⟩
      have hends' : ∀ e ∈ ends, e.1 ≠ page := by
        intro e he
        obtain ⟨p, hp, rfl⟩ := List.mem_map.mp (hends ▸ he)
        exact hne p hp
      obtain ⟨hmax, hmin⟩ : (stored.reboundAll size ends).pageMax page = stored.pageMax page ∧
          (stored.reboundAll size ends).pageMin page = stored.pageMin page :=
        reboundAll_of_notMem hends'
      obtain ⟨hmax', hmin'⟩ : (m.writePieces size pieces).pageMax page = m.pageMax page ∧
          (m.writePieces size pieces).pageMin page = m.pageMin page := writePieces_of_notMem hne
      rw [hmax, hmin, hmax', hmin', ← hstored]
      exact ⟨rfl, rfl⟩
  exact PagedStore.ext hkeys (funext fun page => (hbounds page).1)
    (funext fun page => (hbounds page).2)

/-! ## Copies of pages -/

variable {copy : PageCopy K}

theorem Exact.copyPage (h : m.Exact size page size) : (m.copyPage size page).Exact size where
  max := h.max
  min := h.min

/-- A page is restored with its bounds. -/
theorem exact_restorePage (h : copy.Exact size) : (m.restorePage size page copy).Exact size page size := by
  have hkeys : ∀ i ∈ Finset.range size,
      (m.restorePage size page copy).keys (page * size + i) = copy.keys i := by
    intro i hi
    have hlt := Finset.mem_range.mp hi
    unfold restorePage
    simp only [slot_div hlt, slot_mod hlt, if_true, Int.toNat_natCast]
  constructor
  · rw [Finset.sup_congr rfl hkeys]
    exact (Function.update_self ..).trans h.max
  · rw [Finset.inf_congr rfl hkeys]
    exact (Function.update_self ..).trans h.min

/-- The bounds of the other pages stay. -/
theorem Exact.restorePage_of_ne {page' : Int} (h : m.Exact size page' filled) (hfilled : filled ≤ size)
    (hne : page' ≠ page) : (m.restorePage size page copy).Exact size page' filled := by
  have hkeys : ∀ i ∈ Finset.range filled,
      (m.restorePage size page copy).keys (page' * size + i) = m.keys (page' * size + i) := by
    intro i hi
    have hlt := (Finset.mem_range.mp hi).trans_le hfilled
    unfold restorePage
    simp only [slot_div hlt, if_neg hne]
  constructor
  · rw [Finset.sup_congr rfl hkeys]
    exact (Function.update_of_ne hne ..).trans h.max
  · rw [Finset.inf_congr rfl hkeys]
    exact (Function.update_of_ne hne ..).trans h.min

end PagedStore

end Bounds

/-! ## Vectors of keys -/

section Vectors

variable {ι S : Type} [LinearOrder S] [BoundedOrder S] {m : PagedStore (ι → S)} {size filled : Nat}
  {page : Int}

/-- Element by element, the upper bound is the greatest of the entries. -/
theorem PagedStore.Exact.isGreatest (h : m.Exact size page filled) (hpos : 0 < filled) (i : ι) :
    IsGreatest {key | ∃ j < filled, m.keys (page * size + (j : Nat)) i = key} (m.pageMax page i) := by
  have hmax : m.pageMax page i = (Finset.range filled).sup fun j => m.keys (page * size + (j : Nat)) i := by
    rw [h.max, Finset.sup_apply]
  obtain ⟨j, hj, heq⟩ := Finset.exists_mem_eq_sup (Finset.range filled)
    (Finset.nonempty_range_iff.mpr hpos.ne') fun j => m.keys (page * size + (j : Nat)) i
  rw [hmax]
  refine ⟨⟨j, Finset.mem_range.mp hj, heq.symm⟩, ?_⟩
  rintro key ⟨k, hk, rfl⟩
  exact Finset.le_sup (f := fun j : Nat => m.keys (page * size + j) i) (Finset.mem_range.mpr hk)

/-- Element by element, the lower bound is the least of the entries. -/
theorem PagedStore.Exact.isLeast (h : m.Exact size page filled) (hpos : 0 < filled) (i : ι) :
    IsLeast {key | ∃ j < filled, m.keys (page * size + (j : Nat)) i = key} (m.pageMin page i) := by
  have hmin : m.pageMin page i = (Finset.range filled).inf fun j => m.keys (page * size + (j : Nat)) i := by
    rw [h.min, Finset.inf_apply]
  obtain ⟨j, hj, heq⟩ := Finset.exists_mem_eq_inf (Finset.range filled)
    (Finset.nonempty_range_iff.mpr hpos.ne') fun j => m.keys (page * size + (j : Nat)) i
  rw [hmin]
  refine ⟨⟨j, Finset.mem_range.mp hj, heq.symm⟩, ?_⟩
  rintro key ⟨k, hk, rfl⟩
  exact Finset.inf_le (f := fun j : Nat => m.keys (page * size + j) i) (Finset.mem_range.mpr hk)

end Vectors

end SparseVllm.Lib
