import DiceNotation.CommandLine.Options
import DiceNotation.Context.Entry
import DiceNotation.Environment
import DiceNotation.Report

/-!
The command line: from its words to what it prints.

It works in two steps, since the seed has to be known before there are rolls: `Job.ofOptions` settles the context,
the text and the seed, and `Job.run` does the rest on a script of rolls.
-/

namespace DiceNotation.CommandLine

/-! ### Jobs -/

/-- What a run has to do. -/
structure Job where
  options : Options
  context : Context
  source : String
  seed : Option Int
  environment : Environment

/-- The context of the entries, a later one in the place of an earlier one under its key. -/
def contextOf (entries : List String) : Except String Context :=
  entries.foldlM (fun context entry =>
    match Context.readEntry entry with
    | .ok (key, d) => .ok (context.set key d)
    | .error message => .error ("--ctx: " ++ message)) []

/-- The text is read from the input if none is given or a dash. -/
def Options.readsInput (o : Options) : Bool := o.expression.isNone || o.expression = some "-"

def Options.source (o : Options) (input : String) : Except String String :=
  if o.readsInput then
    let text := Text.trim input
    if text = "" then .error "No input provided on stdin" else .ok text
  else .ok (o.expression.getD "")

/-- The job that the options ask for; the error is the message with which the program ends. -/
def Job.ofOptions (o : Options) (input : String) (env : Environment) : Except String Job := do
  let context ← contextOf o.entries
  let source ← o.source input
  let seed ← env.chooseSeed o.seed
  return ⟨o, context, source, seed, env⟩

/-! ### Runs -/

/-- What a run has printed and how it ended: with an exit code, or with trouble that nobody was told of. -/
structure Run where
  out : String
  err : String
  ending : Except Trouble Nat
  table : Table

/-- Ends a run with trouble, told if it is to be reported. -/
def Run.trouble (env : Environment) (out err : String) (t : Trouble) (table : Table) : Run :=
  if t.isReported then ⟨out, err ++ env.errorText t.message, .ok 1, table⟩ else ⟨out, err, .error t, table⟩

namespace Job

/-- The line that tells of the seed. -/
def seedLog (job : Job) : String :=
  match job.seed with
  | some n => if job.options.verbose then s!"DEBUG rollexpr.runner: seeding random source with {n}\n" else ""
  | none => ""

/-- The line that tells why a report holds an error. -/
def reportLog (job : Job) (r : Report) : String :=
  match r.error with
  | some message =>
    if job.options.verbose then
      s!"DEBUG rollexpr.interop: interpret failed for {Text.quoted job.source}: {message}\n"
    else ""
  | none => ""

def setting (job : Job) : Setting := ⟨job.context, .standard⟩

/-- Prints the report. -/
def runReport (job : Job) (script : List Int) : Run :=
  match Report.ofText job.setting job.source script with
  | (.error t, table) => ⟨"", job.seedLog, .error t, table⟩
  | (.ok r, table) => ⟨r.toJson ++ "\n", job.seedLog ++ job.reportLog r, .ok 0, table⟩

/-- Prints the tokens and the debug form, where asked for, and the result. -/
def runPlain (job : Job) (script : List Int) : Run :=
  let trouble := Run.trouble job.environment
  match Token.scan job.source with
  | .error e => trouble "" job.seedLog (.read (.scan e)) (.fresh script)
  | .ok tokens =>
    let out := if job.options.tokens then s!"TKN: {Token.echoAll tokens}\n" else ""
    match Expr.ofTokens tokens with
    | .error e => trouble out job.seedLog (.read (.parse e)) (.fresh script)
    | .ok expr =>
      let form : Form := { expr }
      match if job.options.ast then (form.prefixText job.context).map (s!"AST: {·}\n") else .ok "" with
      | .error e => trouble out job.seedLog (.print e) (.fresh script)
      | .ok ast =>
        match form.evaluate job.setting script with
        | (.error failure, table) => trouble (out ++ ast) job.seedLog (.play failure) table
        | (.ok v, table) => ⟨out ++ ast ++ Value.resultText v ++ "\n", job.seedLog, .ok 0, table⟩

def run (job : Job) (script : List Int) : Run := if job.options.json then job.runReport script else job.runPlain script

end Job

end DiceNotation.CommandLine
