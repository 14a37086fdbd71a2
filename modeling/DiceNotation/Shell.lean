import DiceNotation.Context.Entry
import DiceNotation.Environment
import DiceNotation.Form

/-!
The shell: one line in, one reply out.

A line is a command behind a slash, a word to leave the shell, or an expression. The state is the context, the rolls
still to come, the seed of the source they come from, and the environment.
-/

namespace DiceNotation

/-- The state between two lines. -/
structure Shell where
  context : Context
  /-- The seed of the source of rolls, if it has one. -/
  seed : Option Int
  script : List Int
  environment : Environment

namespace Shell

/-! ### Replies -/

inductive Ending where
  /-- The shell reads on. -/
  | goOn
  | quit
  /-- The program ends with a message. -/
  | exit (message : String)
  /-- Trouble that nobody was told of. -/
  | trouble (t : Trouble)

/-- What a line prints and how it ends. -/
structure Reply where
  out : String := ""
  err : String := ""
  ending : Ending := .goOn
  /-- A new source of rolls is made, with or without a seed. -/
  reseeded : Option (Option Int) := none

def say (out : String) : Reply := { out := out ++ "\n" }

def warn (err : String) : Reply := { err := err ++ "\n" }

/-! ### State -/

/-- A shell with an empty context and a new source of rolls. -/
def start (seed : Option Int) (script : List Int) (env : Environment) : Except String Shell := do
  let seed ← env.chooseSeed seed
  return ⟨[], seed, script, env⟩

/-- The environment with traces on or off. -/
def traced (s : Shell) (on : Bool) : Shell :=
  { s with environment := { s.environment with trace := if on then some "1" else none } }

/-! ### Commands -/

/-- The commands with their purpose and the hint at their argument. -/
def commands : List (String × String × String) :=
  [("/clear", "Clear the terminal screen", ""),
    ("/py-traceback", "Toggle Python traceback on errors", "[on|off]"),
    ("/set", "Set a substitution context entry", "key=value"),
    ("/unset", "Remove a substitution context entry", "key"),
    ("/context", "Show the substitution context", ""),
    ("/seed", "Reseed the random source", "N"),
    ("/reset", "Clear the context and reseed", "")]

/-- Whether traces are to be on; without an argument they change. -/
def traceSwitch? (s : Shell) (argument : String) : Option Bool :=
  let word := Text.lowercase argument
  if ["on", "1", "true", "yes"].contains word then some true
  else if ["off", "0", "false", "no"].contains word then some false
  else if argument = "" then some (!s.environment.traces)
  else none

def switchTrace (s : Shell) (argument : String) : Reply × Shell :=
  match s.traceSwitch? argument with
  | none => (warn "Usage: /py-traceback [on|off]", s)
  | some on => (say ("Python traceback: " ++ if on then "on" else "off"), s.traced on)

def entryText (key : String) (d : Datum) : String := s!"@{key} = {d.toText}"

def setEntry (s : Shell) (argument : String) : Reply × Shell :=
  match Context.readEntry argument with
  | .error _ => (warn "Usage: /set key=value", s)
  | .ok (key, d) => (say (entryText key d), { s with context := s.context.set key d })

def unsetEntry (s : Shell) (key : String) : Reply × Shell :=
  if key = "" then (warn "Usage: /unset key", s)
  else if (s.context.get? key).isNone then (warn s!"No context entry '{key}'", s)
  else ({}, { s with context := s.context.erase key })

def showContext (s : Shell) : Reply :=
  if s.context.isEmpty then say "(empty)"
  else { out := String.join (s.context.map fun (key, d) => entryText key d ++ "\n") }

def reseed (s : Shell) (argument : String) : Reply × Shell :=
  match Numeral.readInt? argument with
  | none => (warn "Usage: /seed N", s)
  | some n => ({ say s!"Seeded with {n}." with reseeded := some (some n) }, { s with seed := some n })

def reset (s : Shell) : Reply × Shell :=
  match start none s.script s.environment with
  | .error message => ({ ending := .exit message }, s)
  | .ok fresh => ({ say "Environment reset." with reseeded := some fresh.seed }, fresh)

/-- Obeys a line that begins with a slash. -/
def command (s : Shell) (line : String) : Reply × Shell :=
  let (name, argument) := Text.splitWord line
  match name with
  | "/clear" => (say "<clear>", s)
  | "/py-traceback" => s.switchTrace argument
  | "/set" => s.setEntry argument
  | "/unset" => s.unsetEntry argument
  | "/context" => (s.showContext, s)
  | "/seed" => s.reseed argument
  | "/reset" => s.reset
  | _ => (warn s!"Unknown command: {name}", s)

/-! ### Expressions -/

/-- Evaluates a line and echoes it; the rolls it takes are gone even if it fails. -/
def expression (s : Shell) (line : String) : Reply × Shell :=
  let (outcome, table) := Echo.ofText ⟨s.context, .standard⟩ line s.script
  let reply : Reply := match outcome with
    | .ok e =>
      { out := s!"TKN: {Token.echoAll e.tokens}\nAST: {e.prefixed}\nRES: {Value.resultText e.value}\nROLLED: " ++
          e.rolled ++ "\n" }
    | .error t =>
      if t.isReported then { err := s.environment.errorText t.message } else { ending := .trouble t }
  (reply, { s with script := table.script })

/-! ### Lines -/

/-- Characters that take no room on a line, the hard space and the carriage return. -/
def isInvisible (c : Char) : Bool :=
  ['\u200b', '\u200c', '\u200d', '\ufeff', '\u00a0', '\r'].contains c

/-- A line without invisible characters and without the blanks around it. -/
def clean (line : String) : String := Text.trim (String.ofList (line.toList.filter (!isInvisible ·)))

/-- Handles a line. -/
def handle (s : Shell) (line : String) : Reply × Shell :=
  let line := clean line
  if line = "" then ({}, s)
  else if ["quit", "exit"].contains (Text.lowercase line) then ({ ending := .quit }, s)
  else if line.toList.head? = some '/' then s.command line
  else s.expression line

end Shell

end DiceNotation
