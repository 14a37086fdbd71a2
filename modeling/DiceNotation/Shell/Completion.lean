import DiceNotation.Shell

/-!
Completion of commands.
-/

namespace DiceNotation.Shell

/-- A command that may complete a line, the number of characters it replaces, and what to say about it. -/
structure Completion where
  text : String
  replaced : Nat
  note : String

/-- The commands that begin with the line, if it begins with a slash. -/
def completions (line : String) : List Completion :=
  if line.toList.head? = some '/' then
    (commands.filter fun (name, _) => line.toList.isPrefixOf name.toList).map fun (name, purpose, hint) =>
      ⟨name, line.length, Text.trim (purpose ++ " " ++ hint)⟩
  else []

end DiceNotation.Shell
