import DiceNotation.Value

/-!
The context of an expression: data from outside, under keys.

Keys keep the order in which they were first set.
-/

namespace DiceNotation

/-! ### Data -/

/-- A piece of data from outside. Lists, records and the null are held but are no values. -/
inductive Datum where
  | null
  | bool (b : Bool)
  | int (n : Int)
  | number (x : Number)
  | string (s : String)
  | list (items : List Datum)
  | record (fields : List (String × Datum))
  | value (v : Value)

instance : Inhabited Datum := ⟨.null⟩

namespace Datum

/-- Why a piece of data is no value. -/
inductive Refusal where
  | kind (name : String)
  | overflow
  deriving DecidableEq

/-- The value of a piece of data. -/
def toValue : Datum → Except Refusal Value
  | .value v => .ok v
  | .bool b => .ok (.bool b)
  | .int n =>
    match Number.ofInt? n with
    | some x => .ok (.number x)
    | none => .error .overflow
  | .number x => .ok (.number x)
  | .string s => .ok (.string s)
  | .null => .error (.kind "NoneType")
  | .list _ => .error (.kind "list")
  | .record _ => .error (.kind "dict")

/-- The data is a value already. -/
def isValue : Datum → Bool
  | .value _ => true
  | _ => false

mutual
/-- The text of a piece of data. -/
def toText : Datum → String
  | .null => "None"
  | .bool b => Value.toDataText (.bool b)
  | .int n => toString n
  | .number x => x.toPointText
  | .string s => Text.quoted s
  | .list items => "[" ++ ", ".intercalate (itemTexts items) ++ "]"
  | .record fields => "\x7b" ++ ", ".intercalate (fieldTexts fields) ++ "\x7d"
  | .value v => v.toText

def itemTexts : List Datum → List String
  | [] => []
  | d :: ds => d.toText :: itemTexts ds

def fieldTexts : List (String × Datum) → List String
  | [] => []
  | (key, d) :: fields => (Text.quoted key ++ ": " ++ d.toText) :: fieldTexts fields
end

end Datum

/-! ### Contexts -/

abbrev Context := List (String × Datum)

namespace Context

def get? (c : Context) (key : String) : Option Datum := List.lookup key c

/-- Sets a key, in its old place if it has one. -/
def set (c : Context) (key : String) (d : Datum) : Context :=
  match c with
  | [] => [(key, d)]
  | (k, e) :: rest => if k = key then (key, d) :: rest else (k, e) :: set rest key d

def erase (c : Context) (key : String) : Context := c.filter (·.1 ≠ key)

def keys (c : Context) : List String := c.map (·.1)

@[simp] theorem get?_set_self (c : Context) (key : String) (d : Datum) : (c.set key d).get? key = some d := by
  induction c with
  | nil => simp [set, get?]
  | cons entry c ih =>
    obtain ⟨k, e⟩ := entry
    by_cases h : k = key
    · simp [set, get?, h]
    · have : (key == k) = false := by simpa using fun hk => h hk.symm
      simpa [set, get?, List.lookup_cons, h, this] using ih

theorem get?_set_of_ne (c : Context) {key other : String} (d : Datum) (hne : other ≠ key) :
    (c.set key d).get? other = c.get? other := by
  have hkey : (other == key) = false := by simpa using hne
  induction c with
  | nil => simp [set, get?, List.lookup_cons, hkey]
  | cons entry c ih =>
    obtain ⟨k, e⟩ := entry
    by_cases h : k = key
    · subst h; simp [set, get?, List.lookup_cons, hkey]
    · simp only [get?] at ih
      simp [set, get?, List.lookup_cons, h, ih]

/-- A new key comes last. -/
theorem keys_set (c : Context) (key : String) (d : Datum) :
    (c.set key d).keys = if key ∈ c.keys then c.keys else c.keys ++ [key] := by
  induction c with
  | nil => simp [set, keys]
  | cons entry c ih =>
    obtain ⟨k, e⟩ := entry
    by_cases h : k = key
    · subst h; simp [set, keys]
    · simp only [keys] at ih
      by_cases hm : key ∈ c.map (·.1) <;> simp_all [set, keys, Ne.symm h]

end Context

end DiceNotation
