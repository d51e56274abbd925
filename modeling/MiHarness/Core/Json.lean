import Mathlib.Data.List.Sort

/-!
# Canonical JSON

`canonical_json` is `json.dumps` without ASCII escapes, with sorted keys and without spaces.  It
escapes every control character of a string, and it writes none of its own: `canonicalJson_printed`
says that no character of the text is below the space.
-/

namespace MiHarness

/-- The text of a finite float, as `float.__repr__` writes it. -/
structure FloatText where
  text : String
  plain : ∀ c ∈ text.toList, c.isDigit = true ∨ c ∈ ['.', 'e', '+', '-']

/-- A value that `json.dumps` takes. -/
inductive JsonData where
  | null
  | bool (b : Bool)
  | int (n : Int)
  | float (x : FloatText)
  | string (s : String)
  | array (items : List JsonData)
  | object (fields : List (String × JsonData))

namespace JsonData

/-- A digit of a `\u00xx` escape. -/
def hexDigit (n : Nat) : Char := "0123456789abcdef".toList.getD n '0'

/-- The table `ESCAPE_DCT`. -/
def escape (c : Char) : List Char :=
  if c = '\\' then ['\\', '\\']
  else if c = '"' then ['\\', '"']
  else if c = '\x08' then ['\\', 'b']
  else if c = '\x0c' then ['\\', 'f']
  else if c = '\n' then ['\\', 'n']
  else if c = '\r' then ['\\', 'r']
  else if c = '\t' then ['\\', 't']
  else if c.toNat < 0x20 then
    ['\\', 'u', '0', '0', hexDigit (c.toNat / 16), hexDigit (c.toNat % 16)]
  else [c]

def encodeString (s : String) : List Char := '"' :: s.toList.flatMap escape ++ ['"']

mutual

def dumps : JsonData → List Char
  | .null => "null".toList
  | .bool true => "true".toList
  | .bool false => "false".toList
  | .int n => (toString n).toList
  | .float x => x.text.toList
  | .string s => encodeString s
  | .array items => '[' :: [','].intercalate (dumpItems items) ++ [']']
  | .object fields =>
      '\x7b' :: [','].intercalate (((dumpFields fields).insertionSort fun a b => a.1 ≤ b.1).map
        fun field => encodeString field.1 ++ ':' :: field.2) ++ ['\x7d']

def dumpItems : List JsonData → List (List Char)
  | [] => []
  | item :: items => dumps item :: dumpItems items

def dumpFields : List (String × JsonData) → List (String × List Char)
  | [] => []
  | (key, value) :: fields => (key, dumps value) :: dumpFields fields

end

end JsonData

def canonicalJson (value : JsonData) : String := String.ofList value.dumps

/-! ## Control characters -/

/-- No control character. -/
def Printed (text : List Char) : Prop := ∀ c ∈ text, 0x20 ≤ c.toNat

instance : DecidablePred Printed := fun text =>
  List.decidableBAll (fun c : Char => 0x20 ≤ c.toNat) text

namespace Printed

theorem append {s t : List Char} (hs : Printed s) (ht : Printed t) : Printed (s ++ t) := by
  intro c hc
  rcases List.mem_append.mp hc with hc | hc
  · exact hs c hc
  · exact ht c hc

theorem cons {a : Char} {t : List Char} (ha : 0x20 ≤ a.toNat) (ht : Printed t) :
    Printed (a :: t) := by
  intro c hc
  rcases List.mem_cons.mp hc with rfl | hc
  · exact ha
  · exact ht c hc

theorem of_digits {text : List Char}
    (h : ∀ c ∈ text, c.isDigit = true ∨ c ∈ ['.', 'e', '+', '-']) : Printed text := by
  intro c hc
  rcases h c hc with digit | sign
  · simp only [Char.isDigit, Bool.and_eq_true, decide_eq_true_eq] at digit
    exact Nat.le_trans (by decide) digit.1
  · have signs : Printed ['.', 'e', '+', '-'] := by decide
    exact signs c sign

theorem intercalate : ∀ {texts : List (List Char)}, (∀ t ∈ texts, Printed t) →
    Printed ([','].intercalate texts)
  | [], _ => fun _ h => by cases h
  | [text], h => by
      rw [List.intercalate, List.intersperse_singleton, List.flatten_singleton]
      exact h text (List.mem_singleton_self _)
  | text :: next :: texts, h => by
      rw [List.intercalate, List.intersperse_cons_cons, List.flatten_cons, List.flatten_cons]
      exact append (h text (List.mem_cons_self ..)) (cons (by decide)
        (intercalate fun t ht => h t (List.mem_cons_of_mem _ ht)))

theorem nat (n : Nat) : Printed n.repr.toList := by
  rw [Nat.toList_repr]
  exact of_digits fun c hc => .inl (Nat.isDigit_of_mem_toDigits (by decide) (by decide) hc)

theorem int (n : Int) : Printed (toString n).toList := by
  rw [Int.toString_eq_repr, Int.repr_eq_if]
  split
  · exact nat _
  · rw [String.toList_append]
    exact append (cons (by decide) fun _ h => by cases h) (nat _)

theorem escape (c : Char) : Printed (JsonData.escape c) := by
  have hex : ∀ n < 16, 0x20 ≤ (JsonData.hexDigit n).toNat := by decide
  have pair : ∀ b : Char, 0x20 ≤ b.toNat → Printed ['\\', b] := fun b hb =>
    cons (by decide) (cons hb fun _ h => by cases h)
  unfold JsonData.escape
  iterate 7
    split
    · exact pair _ (by decide)
  split
  · rename_i control
    have high := hex (c.toNat / 16) (by omega)
    have low := hex (c.toNat % 16) (Nat.mod_lt _ (by decide))
    have start : Printed ['\\', 'u', '0', '0'] := by decide
    exact start.append (cons high (cons low fun _ h => by cases h))
  · rename_i printed
    exact cons (Nat.le_of_not_lt printed) fun _ h => by cases h

theorem encodeString (s : String) : Printed (JsonData.encodeString s) := by
  refine cons (by decide) (append (fun c hc => ?_) (cons (by decide) fun _ h => by cases h))
  obtain ⟨a, -, ha⟩ := List.mem_flatMap.mp hc
  exact escape a c ha

end Printed

namespace JsonData

mutual

theorem dumps_printed : ∀ value : JsonData, Printed value.dumps
  | .null => by rw [dumps]; decide
  | .bool true => by decide
  | .bool false => by decide
  | .int n => .int n
  | .float x => .of_digits x.plain
  | .string s => .encodeString s
  | .array items => by
      rw [dumps]
      exact .cons (by decide) (.append (.intercalate (dumpItems_printed items))
        (.cons (by decide) fun _ h => by cases h))
  | .object fields => by
      rw [dumps]
      refine .cons (by decide) (.append (.intercalate fun t ht => ?_)
        (.cons (by decide) fun _ h => by cases h))
      obtain ⟨field, hfield, rfl⟩ := List.mem_map.mp ht
      exact .append (.encodeString _)
        (.cons (by decide) (dumpFields_printed fields field ((List.mem_insertionSort _).mp hfield)))

theorem dumpItems_printed : ∀ items : List JsonData, ∀ t ∈ dumpItems items, Printed t
  | [], t, ht => by cases ht
  | item :: items, t, ht => by
      rcases List.mem_cons.mp ht with rfl | ht
      · exact dumps_printed item
      · exact dumpItems_printed items t ht

theorem dumpFields_printed : ∀ fields : List (String × JsonData), ∀ field ∈ dumpFields fields,
    Printed field.2
  | [], field, h => by cases h
  | (key, value) :: fields, field, h => by
      rcases List.mem_cons.mp h with rfl | h
      · exact dumps_printed value
      · exact dumpFields_printed fields field h

end

end JsonData

theorem canonicalJson_printed (value : JsonData) : Printed (canonicalJson value).toList := by
  rw [canonicalJson, String.toList_ofList]
  exact value.dumps_printed

end MiHarness
