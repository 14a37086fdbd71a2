import DiceNotation.Builtin
import DiceNotation.Dice.Roll
import DiceNotation.Dice.Score
import DiceNotation.Expr

/-!
The value of an expression.

An evaluation plays at a table: it takes its rolls from a script, calls out the faces of each die and fills in a
sheet. What stands on the sheet is never rolled or looked up again. A failure ends the evaluation and leaves the
table as it is.
-/

namespace DiceNotation

/-! ### The table -/

structure Table where
  sheet : Sheet
  /-- The entries from which the next rolls are made. -/
  script : List Int
  /-- The faces of the dice rolled so far. -/
  calls : List Nat

/-- What an evaluation finds and does not change. -/
structure Setting where
  context : Context
  builtins : Builtins

/-- A step at the table; what it did stays done if it fails. -/
abbrev Play (α : Type) := ExceptT Failure (StateM Table) α

namespace Play

def sheet : Play Sheet := return (← get).sheet

def writing (write : Sheet → Sheet) : Play Unit := modify fun t => { t with sheet := write t.sheet }

/-- The result of a step that touches nothing. -/
def lift {α : Type} : Except Fault α → Play α
  | .ok a => pure a
  | .error cause => throw (.fault cause none)

/-- The result of a step that touches nothing and may fail in any way. -/
def ofOutcome {α : Type} : Except Failure α → Play α
  | .ok a => pure a
  | .error failure => throw failure

/-- A part that has to be there. -/
def present {α : Type} (r : Except Lack α) : Play α := ofOutcome (r.mapError .lacking)

/-- A step whose faults happen at an operator, unless they already have a place. -/
def at? {α : Type} (op : Option Token) (step : Play α) : Play α :=
  match op with
  | none => step
  | some op => tryCatch step fun failure => throw (failure.locate op)

/-! ### Substitutions -/

/-- The value that the context gives to a key. -/
def lookUp (context : Context) (key : String) : Except Failure Value :=
  match context.get? key with
  | none => .error (.fault (.missingKey key) none)
  | some d => requireValue d

/-- The value of a substitution: the one on the sheet, or else the one that the context gives, which is put there. -/
def substitute (context : Context) (slot : Slot) (key : Option Value) : Play Value := do
  match (← sheet).resolved slot with
  | some v => return v
  | none =>
    let key ← present (keyText key)
    let v ← ofOutcome (lookUp context key)
    writing (·.resolve slot v)
    return v

/-! ### Rolls -/

/-- One roll of dice: how many faces it uses, what it records and what it comes to. -/
structure Roll where
  used : Nat
  recorded : List Number
  outcome : Except Failure Number

/-- The result of a roll that is recorded only as a whole. -/
def Roll.whole (faces : Nat) (taken : Taken Nat) (score : List Nat → Except Failure Number) : Roll :=
  if taken.complete then ⟨taken.used, taken.values.map Number.ofNat, score taken.values⟩
  else ⟨taken.used, [], .error (.outOfRolls faces)⟩

/-- The result of a roll that is recorded as it goes and comes to the sum of what it records. -/
def Roll.running (faces : Nat) (taken : Taken Number) : Roll :=
  ⟨taken.used, taken.values,
    if taken.complete then .ok (.sum taken.values) else .error (.outOfRolls faces)⟩

/-- The exact sum of faces, as a number. -/
def total (faces : List Nat) : Except Failure Number :=
  (Number.ofInt? (faces.foldl (· + ·) 0 : Nat)).elim (.error .overflow) .ok

/-- Rolls `count` dice with `faces` faces under a modifier; `shown` is what the dice will show. -/
def roll (modifier : Modifier) (c : Comparison) (target : Number) (count faces : Nat) (shown : List Nat) : Roll :=
  let hit := fun face => c.testFace face target
  match modifier with
  | .plain => .whole faces (rollPlain count shown) total
  | .countSuccesses =>
    .whole faces (rollPlain count shown) fun fs => .ok (.ofNat (countFaces c target fs))
  | .marginOfSuccess =>
    .whole faces (rollPlain count shown) fun fs => (total fs).map (margin c · target)
  | .select s =>
    .whole faces (rollPlain count shown) fun fs =>
      match s.score (fs.map Number.ofNat) target with
      | .ok x => .ok x
      | .error cause => .error (.fault cause none)
  | .reroll => .running faces ((reroll hit count shown).map Number.ofNat)
  | .explode => .running faces ((explode hit count shown).map Number.ofNat)
  | .compoundExplode =>
    .running faces (compound hit Number.ofNat (fun x face => x.add (.ofNat face)) none count shown)

/-- Makes a roll: takes the faces from the script, calls them out and puts the roll on the sheet. -/
def make (slot : Slot) (faces : Nat) (rule : List Nat → Roll) : Play Number := do
  let table ← get
  let r := rule (table.script.map (faceOf faces))
  set { table with
    script := table.script.drop r.used
    calls := table.calls ++ List.replicate r.used faces
    sheet := table.sheet.record slot r.recorded }
  let x ← ofOutcome r.outcome
  writing (·.settle slot x)
  return x

/-- The result of a slot: the one on the sheet, or else the one that a step gives. -/
def once (slot : Slot) (step : Play Number) : Play Number := do
  match (← sheet).result slot with
  | some x => return x
  | none => step

/-! ### Operands of dice -/

/-- What the operands of dice come to: how many dice with how many faces, and the number that the modifier compares
with. -/
structure Operands where
  count : Int
  faces : Int
  target : Number

/-- The whole number that an operand comes to. -/
def wholeOperand (role : Role) (what : String) (operand : Play (Option Value)) : Play Int := do
  let v ← operand
  let x ← lift (requireRole role v)
  lift (requireFinite what x)

/-- Dice that are rolled at all need a face. -/
def requireFaces (count faces : Int) : Except Fault Unit :=
  if count > 0 ∧ faces < 1 then .error (.noFaces faces) else .ok ()

/-- The number that a modifier compares with; without a modifier none is asked for. -/
def targetNumber (modifier : Modifier) (target : Play (Option Value)) : Play Number :=
  if modifier = .plain then pure .zero
  else do
    let v ← target
    lift (requireRole .target v)

/-- Evaluates the operands of dice in their order. -/
def operands (modifier : Modifier) (count faces target : Play (Option Value)) : Play Operands := do
  let n ← wholeOperand .count "Dice number" count
  let f ← wholeOperand .faces "Dice faces" faces
  lift (requireFaces n f)
  let x ← targetNumber modifier target
  return ⟨n, f, x⟩

/-! ### Operators -/

def applyUnary (op : Token) (v : Option Value) : Except Fault Value :=
  match op.kind with
  | .minus => do
    let x ← requireNumber op.lexeme v
    return .number x.neg
  | .bang => .ok (.bool (!Value.isTruthy v))
  | _ => .error (.unknownUnary op.lexeme)

/-- The operators on two numbers. -/
def arithmetic? (kind : Token.Kind) (x y : Number) : Option Value :=
  match kind with
  | .plus => some (.number (x.add y))
  | .minus => some (.number (x.sub y))
  | .star => some (.number (x.mul y))
  | .slash => some (.number (x.div y))
  | .percent => some (.number (x.mod y))
  | .greater => some (.bool (y.lt x))
  | .greaterEqual => some (.bool (y.le x))
  | .less => some (.bool (x.lt y))
  | .lessEqual => some (.bool (x.le y))
  | _ => none

/-- Applies the operator of a kind; `what` names it in faults. -/
def applyBinary (kind : Token.Kind) (what : String) (v w : Option Value) : Except Fault Value :=
  match kind with
  | .equal => .ok (.bool (Value.same v w))
  | .unequal => .ok (.bool (!Value.same v w))
  | _ => do
    let x ← requireNumber what v
    let y ← requireNumber what w
    match arithmetic? kind x y with
    | some r => .ok r
    | none => .error (.unknownBinary what)

/-! ### Calls and pools -/

/-- The function of a call, if the number of arguments suits it. -/
def callee (builtins : Builtins) (name? : Option String) (arguments : Nat) : Except Fault Builtin :=
  match name? with
  | none => .error .namelessCall
  | some name => do
    let f ← builtins.find name
    match f.arity with
    | some n => if arguments ≠ n then throw (.wrongArity f.name n arguments)
    | none => pure ()
    if arguments < f.leastArity then throw (.fewArguments f.name f.leastArity arguments)
    return f

/-- The function that the callee of a call names now. -/
def named (builtins : Builtins) (target : Expr) (arguments : Nat) : Play Builtin := do
  let name ← present (target.name? (← sheet))
  lift (callee builtins name arguments)

/-- What the values of a pool come to. -/
def scorePool (modifier : Modifier) (c : Comparison) (xs : List Number) (target : Number) : Except Fault Number :=
  match modifier with
  | .countSuccesses => .ok (.ofNat (countSuccesses c target xs))
  | .select s => s.score xs target
  | _ => .error (.unknownPoolModifier modifier)

end Play

/-! ### Expressions -/

namespace Expr

open Play

mutual
/-- Evaluates an expression. -/
def evaluate (setting : Setting) : Expr → Play (Option Value)
  | .literal v _ => pure v
  | .substitution slot key _ => do
    let v ← substitute setting.context slot key
    return some v
  | .group inner => inner.evaluate setting
  | .unary op operand => at? op do
    let v ← operand.evaluate setting
    let op ← present (require .operator op)
    let r ← lift (applyUnary op v)
    return some r
  | .binary op left right => at? op do
    let v ← left.evaluate setting
    let w ← right.evaluate setting
    let op ← present (require .operator op)
    let r ← lift (applyBinary op.kind op.lexeme v w)
    return some r
  | .choice condition consequent alternative => do
    let v ← condition.evaluate setting
    if Value.isTruthy v then consequent.evaluate setting else alternative.evaluate setting
  | .call target token arguments => at? token do
    let f ← named setting.builtins target arguments.length
    let vs ← evaluateAll setting arguments
    let r ← ofOutcome (f.apply vs)
    return some r
  | .dice slot count faces _ modifier c target => do
    let x ← once slot do
      let o ← operands modifier (count.evaluate setting) (faces.evaluate setting) <| match target with
        | .absent => throw (.fault (.noTarget modifier) none)
        | .faces => faces.evaluate setting
        | .value target => target.evaluate setting
      make slot o.faces.toNat (roll modifier c o.target o.count.toNat o.faces.toNat)
    return some (.number x)
  | .pool entries modifier c target => do
    let xs ← evaluateEntries setting entries
    match target with
    | none => throw (.fault (.noPoolTarget modifier) none)
    | some target =>
      let v ← target.evaluate setting
      let x ← lift (requireRole .poolTarget v)
      let r ← lift (scorePool modifier c xs x)
      return some (.number r)
  | .foreign _ => throw (.fault .notExpression none)
  termination_by structural e => e

/-- Evaluates arguments from left to right. -/
def evaluateAll (setting : Setting) : List Expr → Play (List (Option Value))
  | [] => pure []
  | e :: es => do
    let v ← e.evaluate setting
    let vs ← evaluateAll setting es
    return v :: vs
  termination_by structural es => es

/-- Evaluates the entries of a pool from left to right; each has to be a number before the next one is looked at. -/
def evaluateEntries (setting : Setting) : List Expr → Play (List Number)
  | [] => pure []
  | e :: es => do
    let v ← e.evaluate setting
    let x ← lift (requireRole .poolEntry v)
    let xs ← evaluateEntries setting es
    return x :: xs
  termination_by structural es => es
end

end Expr

end DiceNotation
