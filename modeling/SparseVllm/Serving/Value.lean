import Mathlib.Tactic.Common

/-!
# Parsed values

What the response parser hands over is a Python value of the JSON kind. A mapping keeps its entries
in insertion order; a float is kept as the text Python writes for it.
-/

namespace SparseVllm.Serving

/-- A string, by its code points. -/
abbrev Text := List Char

/-- A value the response parser returns. -/
inductive Value where
  | none
  | bool (b : Bool)
  | int (i : Int)
  | float (literal : Text)
  | str (text : Text)
  | list (items : List Value)
  | dict (items : List (String × Value))

namespace Value

/-- `bool(value)`. -/
def truthy : Value → Bool
  | none => false
  | bool b => b
  | int i => i != 0
  | float literal => literal != "0.0".toList && literal != "-0.0".toList
  | str text => !text.isEmpty
  | list items => !items.isEmpty
  | dict items => !items.isEmpty

/-- `value in (None, "", [], {})`. -/
def isBlank : Value → Bool
  | none => true
  | str text => text.isEmpty
  | list items => items.isEmpty
  | dict items => items.isEmpty
  | bool _ | int _ | float _ => false

/-- `value == text` for a string. -/
def isText (text : Text) : Value → Bool
  | str s => s == text
  | _ => false

/-- The string a value is, empty when it is no string. -/
def text : Value → Text
  | str s => s
  | _ => []

end Value

/-! ## Mappings -/

/-- `parsed.pop(key, None)`: the mapping without the key. -/
def popKey (key : String) (items : List (String × Value)) : List (String × Value) :=
  items.filter fun item => item.1 != key

theorem lookup_popKey (key other : String) (items : List (String × Value)) :
    (popKey key items).lookup other = if other = key then none else items.lookup other := by
  induction items with
  | nil => simp [popKey]
  | cons item items ih =>
    obtain ⟨k, v⟩ := item
    by_cases hk : k = key
    · subst hk
      rw [show popKey k ((k, v) :: items) = popKey k items by simp [popKey], ih]
      split
      · rfl
      · rename_i hne
        rw [List.lookup_cons, beq_false_of_ne hne]
    · rw [show popKey key ((k, v) :: items) = (k, v) :: popKey key items by simp [popKey, hk],
        List.lookup_cons, List.lookup_cons, ih]
      by_cases ho : other = k
      · subst ho
        simp [hk]
      · rw [beq_false_of_ne ho]

/-! ## `json.dumps` -/

/-- One character of a JSON string, with `ensure_ascii=False`. -/
def escape (c : Char) : Text :=
  if c = '"' then ['\\', '"']
  else if c = '\\' then ['\\', '\\']
  else if c = '\n' then ['\\', 'n']
  else if c = '\r' then ['\\', 'r']
  else if c = '\t' then ['\\', 't']
  else if c.toNat = 12 then ['\\', 'f']
  else if c.toNat = 8 then ['\\', 'b']
  else if c.toNat < 32 then
    ['\\', 'u', '0', '0', Nat.digitChar (c.toNat / 16), Nat.digitChar (c.toNat % 16)]
  else [c]

/-- A JSON string. -/
def quoted (text : Text) : Text :=
  ['"'] ++ text.flatMap escape ++ ['"']

mutual

/-- `json.dumps(value, ensure_ascii=False, separators=(",", ":"))`. -/
def dumps : Value → Text
  | .none => "null".toList
  | .bool b => if b then "true".toList else "false".toList
  | .int i => (toString i).toList
  | .float literal => literal
  | .str text => quoted text
  | .list items => ['['] ++ dumpsItems items ++ [']']
  | .dict items => ['\x7b'] ++ dumpsEntries items ++ ['\x7d']

/-- The items of an array. -/
def dumpsItems : List Value → Text
  | [] => []
  | [value] => dumps value
  | value :: rest => dumps value ++ [','] ++ dumpsItems rest

/-- The entries of an object. -/
def dumpsEntries : List (String × Value) → Text
  | [] => []
  | [(key, value)] => quoted key.toList ++ [':'] ++ dumps value
  | (key, value) :: rest =>
    quoted key.toList ++ [':'] ++ dumps value ++ [','] ++ dumpsEntries rest

end

example : dumps (.dict [("q", .str ['a', '"']), ("n", .list [.int 1, .none])]) =
    "\x7b\"q\":\"a\\\"\",\"n\":[1,null]\x7d".toList := by
  decide +kernel

end SparseVllm.Serving
