import DiceNotation.CommandLine.Options

/-!
Switches of the command line.

A switch is a flag without a value that only sets a field of its own. Such a flag may come before all other words: they
are read as before, and the field is set at the end. The invariant of the reading is that it does the same to options
with the field set.

Main statement: `Options.ofArgs_switch`.
-/

namespace DiceNotation.CommandLine

/-- A change of options that goes with the setting of every field. -/
structure Switch (change : Options → Options) : Prop where
  expression : ∀ o text, change { o with expression := some text } = { change o with expression := some text }
  seed : ∀ o n, change { o with seed := some n } = { change o with seed := some n }
  entry : ∀ o value, change { o with entries := o.entries ++ [value] } =
    { change o with entries := (change o).entries ++ [value] }
  json : ∀ o, change { o with json := true } = { change o with json := true }
  tokens : ∀ o, change { o with tokens := true } = { change o with tokens := true }
  ast : ∀ o, change { o with ast := true } = { change o with ast := true }
  verbose : ∀ o, change { o with verbose := true } = { change o with verbose := true }

theorem switch_json : Switch ({ · with json := true }) := by constructor <;> intros <;> rfl

theorem switch_tokens : Switch ({ · with tokens := true }) := by constructor <;> intros <;> rfl

theorem switch_ast : Switch ({ · with ast := true }) := by constructor <;> intros <;> rfl

/-- The change of the options read so far. -/
def Reading.change (change : Options → Options) (r : Reading) : Reading := { r with options := change r.options }

namespace Switch

variable {change : Options → Options}

/-- Options that come before other words. -/
theorem behind {x x' : Except Stop Options} (hx : x' = x.map change) (r : Reading) {rest : List Word}
    (ih : ∀ options, CommandLine.readWords (Reading.change change { r with options }) rest =
      (CommandLine.readWords { r with options } rest).map (Reading.change change)) :
    (x' >>= fun options => CommandLine.readWords { r with options } rest) =
      (x >>= fun options => CommandLine.readWords { r with options } rest).map (Reading.change change) := by
  subst hx
  cases x with
  | error stop => rfl
  | ok options => exact ih options

variable (h : Switch change)

include h

theorem take (o : Options) (flag : Flag) (value : String) :
    take (change o) flag value = (take o flag value).map change := by
  cases flag with
  | help => rfl
  | json => exact congrArg Except.ok (h.json o).symm
  | seed =>
    unfold CommandLine.take
    dsimp only
    cases Numeral.readInt? value with
    | none => rfl
    | some n => exact congrArg Except.ok (h.seed o n).symm
  | ctx => exact congrArg Except.ok (h.entry o value).symm
  | tokens => exact congrArg Except.ok (h.tokens o).symm
  | ast => exact congrArg Except.ok (h.ast o).symm
  | verbose => exact congrArg Except.ok (h.verbose o).symm

theorem foldlM (flags : List Flag) (o : Options) :
    flags.foldlM (CommandLine.take · · "") (change o) = (flags.foldlM (CommandLine.take · · "") o).map change := by
  induction flags generalizing o with
  | nil => rfl
  | cons flag flags ih =>
    rw [List.foldlM_cons, List.foldlM_cons, h.take]
    cases CommandLine.take o flag "" with
    | error stop => rfl
    | ok o' => exact ih o'

theorem readWords (r : Reading) (words : List Word) :
    readWords (r.change change) words = (readWords r words).map (Reading.change change) := by
  induction r, words using readWords.induct with
  | case1 r => rfl
  | case2 r rest ih => simpa [CommandLine.readWords, Reading.change] using ih
  | case3 r rest hplaced => simp [CommandLine.readWords, Reading.change, hplaced, Except.map]
  | case4 r hplaced text more => simp [CommandLine.readWords, Reading.change, hplaced, Except.map, h.expression]
  | case5 r rest hplaced hrest => simp [CommandLine.readWords, Reading.change, hplaced, Except.map]
  | case6 r text rest hplaced ih => simpa [CommandLine.readWords, Reading.change, hplaced] using ih
  | case7 r text hplaced more => simp [CommandLine.readWords, Reading.change, hplaced, Except.map, h.expression]
  | case8 r text rest hplaced r' hrest ih =>
    simpa [CommandLine.readWords, Reading.change, hplaced, h.expression, r'] using ih
  | case9 r flag short rest text hvalue ih =>
    simp only [CommandLine.readWords, Reading.change, if_pos hvalue]
    exact behind (h.take _ _ _) r ih
  | case10 r flag short rest text hvalue hshort ih =>
    simp only [CommandLine.readWords, Reading.change, if_neg hvalue, if_pos hshort]
    cases cluster flag text with
    | error stop => rfl
    | ok flags => exact behind (h.foldlM flags _) r ih
  | case11 r flag short rest text hvalue hshort => simp [CommandLine.readWords, hvalue, hshort, Except.map]
  | case12 r flag short hvalue text more ih =>
    simp only [CommandLine.readWords, Reading.change, if_pos hvalue]
    exact behind (h.take _ _ _) r ih
  | case13 r flag short rest hvalue hrest => simp [CommandLine.readWords, hvalue, Except.map]
  | case14 r flag short rest hvalue ih =>
    have hstep (r : Reading) : CommandLine.readWords r (.option flag short none :: rest) =
        CommandLine.take r.options flag "" >>= fun options => CommandLine.readWords { r with options } rest := by
      rw [CommandLine.readWords.eq_def]
      simp only [if_neg hvalue]
    rw [hstep, hstep]
    exact behind (h.take _ _ _) r ih

end Switch

/-- A flag without a value is taken at once. -/
theorem readWords_flag {flag : Flag} (hvalue : flag.takesValue = false) (r : Reading) (short : Bool)
    (rest : List Word) : readWords r (.option flag short none :: rest) =
      take r.options flag "" >>= fun options => readWords { r with options } rest := by
  rw [readWords.eq_def]
  simp [hvalue]

/-- **A switch may come first**: it only changes the options that the other words give. -/
theorem Options.ofArgs_switch {change : Options → Options} (h : Switch change) {word : String} {flag : Flag}
    (hne : word ≠ "--") (hword : classify word = .ok (.option flag false none)) (hvalue : flag.takesValue = false)
    (htake : ∀ o, take o flag "" = .ok (change o)) (args : List String) :
    Options.ofArgs (word :: args) = (Options.ofArgs args).map change := by
  simp only [ofArgs, classifyAll, if_neg hne, hword]
  cases classifyAll args with
  | error stop => rfl
  | ok words =>
    have hread := h.readWords {} words
    change (readWords {} (.option flag false none :: words) >>= _) =
      (readWords {} words >>= _ : Except Stop Options).map _
    rw [readWords_flag hvalue, htake]
    change (readWords (Reading.change change {}) words >>= _) = _
    rw [hread]
    cases readWords {} words with
    | error stop => rfl
    | ok r =>
      change (if r.surplus then _ else _) = (if r.surplus then _ else _ : Except Stop Options).map _
      by_cases hsurplus : r.surplus
      · rw [if_pos hsurplus, if_pos hsurplus]
        rfl
      · rw [if_neg hsurplus, if_neg hsurplus]
        rfl

end DiceNotation.CommandLine
