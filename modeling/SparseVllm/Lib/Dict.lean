import Mathlib

/-!
# Dictionaries

A dictionary is an association list without duplicate keys (`AList`), newest entry first. The
lemmas here give a lookup after each update in one equation, so that a map reads as a function of
its key, and relate the list of values to lookups, so that a sum or a count over the values changes
by one term at an update.
-/

namespace SparseVllm.Lib

/-- Keys with an order: their equality test is the one the order decides. -/
instance lawfulBEq_of_linearOrder {K : Type} [LinearOrder K] : LawfulBEq K := inferInstance

/-- `dict[K, V]`. -/
abbrev Dict (K V : Type) := AList fun _ : K => V

namespace Dict

variable {K V : Type}

/-- `d.values()`, newest first. -/
def values (d : Dict K V) : List V :=
  d.entries.map Sigma.snd

@[simp] theorem values_empty : values (∅ : Dict K V) = [] := rfl

variable [DecidableEq K]

/-- `d.get(k)`. -/
def get? (d : Dict K V) (k : K) : Option V := AList.lookup k d

/-- `d[k] = v`; the entry becomes the newest. -/
def set (d : Dict K V) (k : K) (v : V) : Dict K V := AList.insert k v d

/-- `d.pop(k, None)`. -/
def pop (d : Dict K V) (k : K) : Dict K V := AList.erase k d

/-- `{k: f(k) for k in l}`. -/
def ofKeys (l : List K) (f : K → V) : Dict K V := l.foldl (fun d k => d.set k (f k)) ∅

/-- Update the value at `k`, if there is one. -/
def modify (d : Dict K V) (k : K) (f : V → V) : Dict K V :=
  match d.get? k with
  | some v => d.set k (f v)
  | none => d

@[simp] theorem get?_empty (k : K) : get? (∅ : Dict K V) k = none := AList.lookup_empty k

theorem get?_set (d : Dict K V) (k : K) (v : V) (q : K) :
    (d.set k v).get? q = if q = k then some v else d.get? q := by
  unfold get? set
  split
  · subst q
    exact AList.lookup_insert d
  · exact AList.lookup_insert_ne ‹_›

@[simp] theorem get?_set_self (d : Dict K V) (k : K) (v : V) : (d.set k v).get? k = some v :=
  AList.lookup_insert d

@[simp] theorem set_set (d : Dict K V) (k : K) (v w : V) : (d.set k v).set k w = d.set k w :=
  AList.insert_insert ..

theorem get?_pop (d : Dict K V) (k q : K) :
    (d.pop k).get? q = if q = k then none else d.get? q := by
  unfold get? pop
  split
  · subst q
    exact AList.lookup_erase k d
  · exact AList.lookup_erase_ne ‹_›

theorem get?_of_pop {d : Dict K V} {k q : K} {v : V} (h : (d.pop k).get? q = some v) :
    d.get? q = some v := by
  rw [get?_pop] at h
  split at h
  · cases h
  · exact h

theorem get?_ofKeys (l : List K) (f : K → V) (q : K) :
    (ofKeys l f).get? q = if q ∈ l then some (f q) else none := by
  have hfold : ∀ (l : List K) (d : Dict K V), (l.foldl (fun d k => d.set k (f k)) d).get? q =
      if q ∈ l then some (f q) else d.get? q := by
    intro l
    induction l with
    | nil => simp
    | cons k l ih =>
      intro d
      rw [List.foldl_cons, ih, get?_set]
      by_cases hl : q ∈ l
      · simp [hl]
      · by_cases hk : q = k
        · subst k
          simp
        · simp [hl, hk]
  unfold ofKeys
  rw [hfold, get?_empty]

theorem get?_modify (d : Dict K V) (k : K) (f : V → V) (q : K) :
    (d.modify k f).get? q = if q = k then (d.get? q).map f else d.get? q := by
  unfold modify
  cases hk : d.get? k with
  | none =>
    show d.get? q = _
    split
    · subst q; simp [hk]
    · rfl
  | some v =>
    show (d.set k (f v)).get? q = _
    rw [get?_set]
    split
    · subst q; simp [hk]
    · rfl

theorem modify_of_get? {d : Dict K V} {k : K} {v : V} (h : d.get? k = some v) (f : V → V) :
    d.modify k f = d.set k (f v) := by
  unfold modify
  rw [h]

theorem mem_entries {d : Dict K V} {k : K} {v : V} :
    (⟨k, v⟩ : Sigma fun _ : K => V) ∈ d.entries ↔ d.get? k = some v :=
  AList.mem_lookup_iff.symm

theorem mem_values {d : Dict K V} {v : V} : v ∈ d.values ↔ ∃ k, d.get? k = some v := by
  unfold values
  rw [List.mem_map]
  constructor
  · rintro ⟨⟨k, w⟩, hmem, rfl⟩
    exact ⟨k, mem_entries.mp hmem⟩
  · rintro ⟨k, hk⟩
    exact ⟨⟨k, v⟩, mem_entries.mpr hk, rfl⟩

/-- No value occurs twice when no two keys share one. -/
theorem nodup_values {d : Dict K V}
    (inj : ∀ k q v, d.get? k = some v → d.get? q = some v → k = q) : d.values.Nodup := by
  have hentries : d.entries.Nodup := List.Nodup.of_map Sigma.fst d.nodupKeys
  refine hentries.map_on ?_
  rintro ⟨k, v⟩ hk ⟨q, w⟩ hq hvw
  obtain rfl : v = w := hvw
  obtain rfl := inj k q v (mem_entries.mp hk) (mem_entries.mp hq)
  rfl

theorem values_set (d : Dict K V) (k : K) (v : V) : (d.set k v).values = v :: (d.pop k).values :=
  rfl

theorem pop_of_get?_none {d : Dict K V} {k : K} (h : d.get? k = none) : d.pop k = d :=
  AList.ext (List.kerase_of_notMem_keys (AList.lookup_eq_none.mp h))

/-- An entry is one of the values; the others are the values without its key. -/
theorem values_perm {d : Dict K V} {k : K} {v : V} (h : d.get? k = some v) :
    d.values.Perm (v :: (d.pop k).values) := by
  obtain ⟨w, l₁, l₂, hl₁, hl, hkerase⟩ :=
    List.exists_of_kerase (List.mem_keys_of_mem (mem_entries.mpr h))
  have hw : d.get? k = some w := mem_entries.mp (hl ▸ List.mem_append_right _ List.mem_cons_self)
  obtain rfl : v = w := Option.some.inj (h.symm.trans hw)
  unfold values
  rw [show (d.pop k).entries = d.entries.kerase k from rfl, hkerase, hl]
  simp only [List.map_append, List.map_cons]
  exact List.perm_middle

/-- No two keys share a value that occurs once. -/
theorem eq_of_nodup_values {d : Dict K V} (h : d.values.Nodup) {k q : K} {v : V}
    (hk : d.get? k = some v) (hq : d.get? q = some v) : q = k := by
  by_contra hne
  have hnodup := (values_perm hk).nodup_iff.mp h
  refine (List.nodup_cons.mp hnodup).1 (mem_values.mpr ⟨q, ?_⟩)
  rw [get?_pop, if_neg hne, hq]

/-- The items of all lists of a dictionary, those at one key first. -/
theorem flatten_values_perm (d : Dict K (List V)) (k : K) :
    d.values.flatten.Perm ((d.get? k).getD [] ++ (d.pop k).values.flatten) := by
  cases hk : d.get? k with
  | none =>
    rw [pop_of_get?_none hk]
    exact List.Perm.refl _
  | some l => exact (values_perm hk).flatten

/-- Over a dictionary that lost entries, a sum of non-negative terms is no greater. -/
theorem sum_values_le {d d' : Dict K V} {f : V → Int} (hf : ∀ k v, d.get? k = some v → 0 ≤ f v)
    (hsub : ∀ k v', d'.get? k = some v' → ∃ v, d.get? k = some v ∧ f v' = f v) :
    (d'.values.map f).sum ≤ (d.values.map f).sum := by
  have hentries : ∀ (l : List (Sigma fun _ : K => V)) (d : Dict K V), l.NodupKeys →
      (∀ k v, d.get? k = some v → 0 ≤ f v) →
      (∀ e ∈ l, ∃ v, d.get? e.1 = some v ∧ f e.2 = f v) →
      (l.map fun e => f e.2).sum ≤ (d.values.map f).sum := by
    intro l
    induction l with
    | nil =>
      intro d _ hf _
      apply List.sum_nonneg
      intro x hx
      obtain ⟨v, hv, rfl⟩ := List.mem_map.mp hx
      obtain ⟨k, hk⟩ := mem_values.mp hv
      exact hf k v hk
    | cons e l ih =>
      intro d hnodup hf hsub
      obtain ⟨v, hv, hfv⟩ := hsub e List.mem_cons_self
      obtain ⟨hnew, hnodup⟩ := List.nodupKeys_cons.mp hnodup
      have hrest := ih (d.pop e.1) hnodup
        (fun k w hk => hf k w (get?_of_pop hk))
        fun e' he' => by
          have hne : e'.1 ≠ e.1 := fun h => hnew (h ▸ List.mem_keys_of_mem he')
          rw [get?_pop, if_neg hne]
          exact hsub e' (List.mem_cons_of_mem e he')
      rw [List.map_cons, List.sum_cons, ((values_perm hv).map f).sum_eq, List.map_cons,
        List.sum_cons, hfv]
      exact Int.add_le_add_left hrest _
  have h := hentries d'.entries d d'.nodupKeys hf fun e he => hsub e.1 e.2 (mem_entries.mp he)
  simpa only [values, List.map_map, Function.comp_def] using h

end Dict

end SparseVllm.Lib
