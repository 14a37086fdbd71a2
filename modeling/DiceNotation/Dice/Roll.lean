/-!
Rolling dice.

The faces come as a list, in the order in which the dice show them. Each way of rolling says how many faces it uses,
what it takes from them, and whether there were enough.
-/

namespace DiceNotation

/-- What a way of rolling has taken from a list of faces. -/
structure Taken (α : Type) where
  values : List α
  /-- How many faces were used. -/
  used : Nat
  /-- The faces sufficed. -/
  complete : Bool

namespace Taken

variable {α : Type}

def nothing (complete : Bool) : Taken α := ⟨[], 0, complete⟩

/-- One face more was used and nothing taken. -/
def skip (t : Taken α) : Taken α := { t with used := t.used + 1 }

/-- One face more was used and `a` was taken before the rest. -/
def push (a : α) (t : Taken α) : Taken α := { t with values := a :: t.values, used := t.used + 1 }

def map {β : Type} (f : α → β) (t : Taken α) : Taken β := ⟨t.values.map f, t.used, t.complete⟩

end Taken

/-- The face that a die with `faces` faces shows for an entry of a script; one is the lowest, and the entries go
round. -/
def faceOf (faces : Nat) (entry : Int) : Nat := ((entry - 1) % faces).toNat + 1

theorem faceOf_pos (faces : Nat) (entry : Int) : 0 < faceOf faces entry := Nat.succ_pos _

theorem faceOf_le {faces : Nat} (h : 0 < faces) (entry : Int) : faceOf faces entry ≤ faces := by
  have := Int.emod_lt_of_pos (entry - 1) (Int.natCast_pos.2 h)
  simp only [faceOf]
  omega

/-! ### Ways of rolling -/

variable (hit : Nat → Bool)

/-- Rolls a die again while its face hits, for each of `count` dice; takes the faces that stay. -/
def reroll : (count : Nat) → List Nat → Taken Nat
  | 0, _ => .nothing true
  | _ + 1, [] => .nothing false
  | count + 1, face :: faces =>
    if hit face then (reroll (count + 1) faces).skip else (reroll count faces).push face

/-- Rolls one die more for every face that hits; takes all faces. -/
def explode : (count : Nat) → List Nat → Taken Nat
  | 0, _ => .nothing true
  | _ + 1, [] => .nothing false
  | count + 1, face :: faces => (explode (if hit face then count + 1 else count) faces).push face

/-- Adds to a die that hits another roll of it, for each of `count` dice; takes the sums, each starting from
`start?`, as `add` makes them. -/
def compound {α : Type} (first : Nat → α) (add : α → Nat → α) :
    (start? : Option α) → (count : Nat) → List Nat → Taken α
  | _, 0, _ => .nothing true
  | _, _ + 1, [] => .nothing false
  | start?, count + 1, face :: faces =>
    let sum := match start? with
      | none => first face
      | some sum => add sum face
    if hit face then (compound first add (some sum) (count + 1) faces).skip
    else (compound first add none count faces).push sum

/-- Takes as many faces as there are dice. -/
def rollPlain (count : Nat) (faces : List Nat) : Taken Nat := reroll (fun _ => false) count faces

theorem rollPlain_eq (count : Nat) (faces : List Nat) :
    rollPlain count faces = ⟨faces.take count, min count faces.length, count ≤ faces.length⟩ := by
  unfold rollPlain
  induction faces generalizing count with
  | nil => cases count <;> simp [reroll, Taken.nothing]
  | cons face faces ih =>
    cases count with
    | zero => simp [reroll, Taken.nothing]
    | succ count => simp [reroll, Taken.push, ih]

end DiceNotation
