import DiceNotation.Number.Numeral

/-!
The options of the command line.

A long option may be cut short as long as one option alone begins that way, and takes its value as the next word or
behind `=`. Short options may stand together behind one dash, the first of them apart from the others by `=` or not.
A word in the form of a negative number or with a space in it is no option, and neither is any word behind `--`.
-/

namespace DiceNotation.CommandLine

/-! ### Words -/

inductive Flag where
  | help | json | seed | ctx | tokens | ast | verbose
  deriving DecidableEq

def spellings : List (String × Flag) :=
  [("-h", .help), ("--help", .help), ("--json", .json), ("--seed", .seed), ("--ctx", .ctx), ("--tokens", .tokens),
    ("--ast", .ast), ("-v", .verbose), ("--verbose", .verbose)]

def Flag.takesValue (f : Flag) : Bool := f = .seed || f = .ctx

/-- A word of the command line. -/
inductive Word where
  | operand (text : String)
  /-- Behind this one all words are operands. -/
  | divider
  /-- A flag with the text that stands in one word with it. -/
  | option (flag : Flag) (short : Bool) (attached : Option (List Char))
  | unknown

/-- Why the options are not taken: the help is asked for, or they are wrong. -/
inductive Stop where
  | help
  | usage
  deriving DecidableEq

/-- A minus sign before digits, a point among them or not. -/
def looksNegative (cs : List Char) : Bool :=
  match cs with
  | '-' :: rest =>
    let rest := if rest.getLast? = some '\n' then rest.dropLast else rest
    let digit := fun c => (Text.digitValue? c).isSome
    let whole := rest.takeWhile digit
    match rest.dropWhile digit with
    | [] => !whole.isEmpty
    | '.' :: fraction => !fraction.isEmpty && fraction.all digit
    | _ => false
  | _ => false

/-- The options that a word with two dashes may mean, by the text before `=`. -/
def longMatches (head : String) : List Flag :=
  (spellings.filter fun (s, _) => head.toList.isPrefixOf s.toList).map (·.2)

/-- The class of a word that stands before any divider. -/
def classify (text : String) : Except Stop Word :=
  let cs := text.toList
  let unmatched : Word :=
    if looksNegative cs || cs.contains ' ' then .operand text else .unknown
  let head := String.ofList (cs.takeWhile (· ≠ '='))
  let tail? := if cs.contains '=' then some ((cs.dropWhile (· ≠ '=')).drop 1) else none
  match cs with
  | '-' :: second :: rest =>
    let short := second ≠ '-'
    match spellings.lookup text with
    | some flag => .ok (.option flag short none)
    | none =>
      match if tail?.isSome then spellings.lookup head else none with
      | some flag => .ok (.option flag short tail?)
      | none =>
        if short then
          match spellings.lookup (String.ofList ['-', second]) with
          | some flag => .ok (.option flag true (some rest))
          | none => .ok unmatched
        else
          match longMatches head with
          | [] => .ok unmatched
          | [flag] => .ok (.option flag false tail?)
          | _ => .error .usage
  | _ => .ok (.operand text)

/-- The classes of all words. -/
def classifyAll : List String → Except Stop (List Word)
  | [] => .ok []
  | text :: rest =>
    if text = "--" then .ok (.divider :: rest.map .operand)
    else do
      let word ← classify text
      let words ← classifyAll rest
      return word :: words

/-! ### Options -/

structure Options where
  expression : Option String := none
  json : Bool := false
  seed : Option Int := none
  entries : List String := []
  tokens : Bool := false
  ast : Bool := false
  verbose : Bool := false

/-- The options read so far. -/
structure Reading where
  options : Options := {}
  /-- The place of the expression is taken. -/
  placed : Bool := false
  /-- There were words that have no place. -/
  surplus : Bool := false

/-- Takes a flag with its value, if it has one. -/
def take (o : Options) (flag : Flag) (value : String) : Except Stop Options :=
  match flag with
  | .help => .error .help
  | .json => .ok { o with json := true }
  | .seed =>
    match Numeral.readInt? value with
    | some n => .ok { o with seed := some n }
    | none => .error .usage
  | .ctx => .ok { o with entries := o.entries ++ [value] }
  | .tokens => .ok { o with tokens := true }
  | .ast => .ok { o with ast := true }
  | .verbose => .ok { o with verbose := true }

/-- The flags of a short option with letters attached, each of which has to be a short option too. -/
def cluster (flag : Flag) : List Char → Except Stop (List Flag)
  | [] => .ok [flag]
  | c :: rest =>
    match spellings.lookup (String.ofList ['-', c]) with
    | none => .error .usage
    | some next => do
      let flags ← cluster next rest
      return flag :: flags

/-- Reads the words from left to right. -/
def readWords (r : Reading) : List Word → Except Stop Reading
  | [] => .ok r
  | .unknown :: rest => readWords { r with surplus := true } rest
  | .divider :: rest =>
    if r.placed then .ok { r with surplus := true }
    else
      match rest with
      | .operand text :: more =>
        .ok { r with
          options := { r.options with expression := some text }, placed := true, surplus := r.surplus || !more.isEmpty }
      | _ => .ok { r with placed := true }
  | .operand text :: rest =>
    if r.placed then readWords { r with surplus := true } rest
    else
      let r := { r with options := { r.options with expression := some text }, placed := true }
      match rest with
      | .divider :: more => .ok { r with surplus := r.surplus || !more.isEmpty }
      | _ => readWords r rest
  | .option flag short attached :: rest =>
    match attached with
    | some text =>
      if flag.takesValue then do
        let options ← take r.options flag (String.ofList text)
        readWords { r with options } rest
      else if short && !text.isEmpty then do
        let flags ← cluster flag text
        let options ← flags.foldlM (take · · "") r.options
        readWords { r with options } rest
      else .error .usage
    | none =>
      if flag.takesValue then
        match rest with
        | .operand text :: rest => do
          let options ← take r.options flag text
          readWords { r with options } rest
        | _ => .error .usage
      else do
        let options ← take r.options flag ""
        readWords { r with options } rest

/-- The options that the words of a command line give. -/
def Options.ofArgs (args : List String) : Except Stop Options := do
  let words ← classifyAll args
  let r ← readWords {} words
  if r.surplus then throw .usage else return r.options

/-- The help text. -/
def helpText : String := "usage: rollexpr [-h] [--json] [--seed SEED] [--ctx KEY=VALUE] [--tokens]
                [--ast] [-v]
                [expression]

Evaluate a dice expression.

positional arguments:
  expression       expression to evaluate, or - for stdin

options:
  -h, --help       show this help message and exit
  --json           print \x7bresult, ast, pretty, error\x7d as JSON
  --seed SEED      seed the random source (default: $ROLLEXPR_SEED)
  --ctx KEY=VALUE  substitution context entry (repeatable)
  --tokens         echo the token stream
  --ast            echo the parsed tree
  -v, --verbose    debug logging
"

end DiceNotation.CommandLine
