import DiceNotation.Form
import DiceNotation.Text.Json

/-!
Reports: the outcome of a text as one JSON object.

Trouble with the text or its evaluation goes into the report; other trouble leaves no report.
-/

namespace DiceNotation

/-- The result of a text with its two printed forms, or an error. -/
structure Report where
  result : Option String
  prefixed : Option String
  rolled : Option String
  error : Option String

namespace Report

def ofError (message : String) : Report := ⟨none, none, none, some message⟩

/-- The report on a text, and the table afterwards. Both forms show the values that substitutions were given. -/
def ofText (setting : Setting) (source : String) (script : List Int) : Except Trouble Report × Table :=
  let trouble (t : Trouble) : Except Trouble Report := if t.isReported then .ok (ofError t.message) else .error t
  match Form.ofText source with
  | .error e => (trouble (.read e), .fresh script)
  | .ok form =>
    match form.evaluate setting script with
    | (.error failure, table) => (trouble (.play failure), table)
    | (.ok v, table) =>
      let form := { form with sheet := table.sheet }
      match form.prefixText setting.context with
      | .error e => (.error (.print e), table)
      | .ok prefixed =>
        match form.rolledText with
        | .error e => (.error (.print e), table)
        | .ok rolled => (.ok ⟨some (Value.resultText v), some prefixed, some rolled, none⟩, table)

/-- A string or the null of JSON. -/
def jsonOption : Option String → String
  | some s => Text.jsonString s
  | none => "null"

def toJson (r : Report) : String :=
  "\x7b" ++ ", ".intercalate
    ["\"result\": " ++ jsonOption r.result, "\"ast\": " ++ jsonOption r.prefixed,
      "\"pretty\": " ++ jsonOption r.rolled, "\"error\": " ++ jsonOption r.error] ++ "\x7d"

end Report

end DiceNotation
