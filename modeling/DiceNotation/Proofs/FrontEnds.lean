import DiceNotation.CommandLine
import DiceNotation.Proofs.Reports
import DiceNotation.Proofs.Switches

/-!
The front ends agree.

The command line, its report and the echo of the shell each read, print and evaluate a text in steps of their own.
They all tell the outcome that the evaluation of the text has, and they leave the same table, so the same dice were
called. The one thing that could set them apart, a context that the debug form cannot show, does not come from entries
that people type.

Main statement: `CommandLine.front_ends_agree`.
-/

namespace DiceNotation

/-! ### Contexts that people type -/

namespace Context

theorem simple_readDatum (text : String) : (readDatum text).Simple := by
  unfold readDatum
  dsimp only
  split
  · trivial
  · split
    · trivial
    · split <;> trivial

theorem simple_of_readEntry {text key : String} {d : Datum} (h : readEntry text = .ok (key, d)) : d.Simple := by
  have hread : ∃ value, readDatum value = d := by
    unfold readEntry at h
    dsimp only at h
    split at h
    · simp only [Except.ok.injEq, Prod.mk.injEq] at h
      exact ⟨_, h.2⟩
    · cases h
  obtain ⟨value, rfl⟩ := hread
  exact simple_readDatum value

theorem Simple.set {context : Context} (h : context.Simple) {d : Datum} (hd : d.Simple) (key : String) :
    (context.set key d).Simple := by
  induction context with
  | nil => exact List.forall_mem_singleton.2 hd
  | cons entry rest ih =>
    obtain ⟨hentry, hrest⟩ := List.forall_mem_cons.1 h
    unfold Context.set
    split
    · exact List.forall_mem_cons.2 ⟨hd, hrest⟩
    · exact List.forall_mem_cons.2 ⟨hentry, ih hrest⟩

end Context

namespace CommandLine

/-- Steps that succeed and keep a property do so in a row. -/
theorem exists_foldlM {α β ε : Type} {P : β → Prop} {f : β → α → Except ε β} {xs : List α}
    (h : ∀ x ∈ xs, ∀ b, P b → ∃ b', f b x = .ok b' ∧ P b') {b : β} (hb : P b) :
    ∃ b', xs.foldlM f b = .ok b' ∧ P b' := by
  induction xs generalizing b with
  | nil => exact ⟨b, rfl, hb⟩
  | cons x xs ih =>
    obtain ⟨hx, hxs⟩ := List.forall_mem_cons.1 h
    obtain ⟨b₁, hb₁, hP⟩ := hx b hb
    rw [List.foldlM_cons, hb₁]
    exact ih hxs hP

/-- Entries that can be read make a context. -/
theorem exists_contextOf {entries : List String} (h : ∀ entry ∈ entries, ∃ p, Context.readEntry entry = .ok p) :
    ∃ context, contextOf entries = .ok context ∧ context.Simple := by
  refine exists_foldlM (fun entry hentry context hcontext => ?_) (List.forall_mem_nil _)
  obtain ⟨⟨key, d⟩, hread⟩ := h entry hentry
  rw [hread]
  exact ⟨context.set key d, rfl, hcontext.set (Context.simple_of_readEntry hread) key⟩

end CommandLine

/-! ### Stages of reading -/

section Stages

variable {source : String} {tokens : List Token} {e : Expr} {setting : Setting} {script : List Int}

theorem evaluateText_of_scan {err : ScanError} (h : Token.scan source = .error err) :
    evaluateText setting source script = (.error (.read (.scan err)), .fresh script) := by
  apply evaluateText_of_error
  rw [Form.ofText, Expr.ofText, h]
  rfl

theorem evaluateText_of_parse {err : ParseError} (hs : Token.scan source = .ok tokens)
    (hp : Expr.ofTokens tokens = .error err) :
    evaluateText setting source script = (.error (.read (.parse err)), .fresh script) := by
  apply evaluateText_of_error
  rw [Form.ofText, Expr.ofText, hs]
  dsimp only
  rw [hp]
  rfl

theorem ofText_of_tokens (hs : Token.scan source = .ok tokens) (hp : Expr.ofTokens tokens = .ok e) :
    Expr.ofText source = .ok e := by
  rw [Expr.ofText, hs]
  dsimp only
  rw [hp]

theorem evaluateText_of_tokens (hs : Token.scan source = .ok tokens) (hp : Expr.ofTokens tokens = .ok e) :
    evaluateText setting source script =
      ((Form.evaluate { expr := e } setting script).1.mapError .play,
        (Form.evaluate { expr := e } setting script).2) := by
  apply evaluateText_of_ok
  rw [Form.ofText, ofText_of_tokens hs hp]
  rfl

end Stages

/-! ### The echo of the shell -/

/-- What becomes of the outcome of a text in an echo: it holds the value, or there is none for the same trouble. -/
inductive Echo.Tells : Except Trouble (Option Value) → Except Trouble Echo → Prop where
  | value (echo : Echo) : Tells (.ok echo.value) (.ok echo)
  | trouble (t : Trouble) : Tells (.error t) (.error t)

/-- **An echo tells the outcome of its text**, and its evaluation leaves the same table. -/
theorem Echo.tells {setting : Setting} (hcontext : ¬ setting.context.TooLarge) (source : String) (script : List Int) :
    Tells (evaluateText setting source script).1 (ofText setting source script).1 ∧
      (ofText setting source script).2 = (evaluateText setting source script).2 := by
  unfold ofText
  cases hs : Token.scan source with
  | error err =>
    rw [evaluateText_of_scan hs]
    exact ⟨.trouble _, rfl⟩
  | ok tokens =>
    cases hp : Expr.ofTokens tokens with
    | error err =>
      rw [evaluateText_of_parse hs hp]
      simp only [hp]
      exact ⟨.trouble _, trivial⟩
    | ok e =>
      have hfits := Expr.fits_of_ofText (ofText_of_tokens hs hp)
      obtain ⟨prefixed, hprefixed⟩ := Expr.exists_prefixText hfits .blank hcontext
      rw [evaluateText_of_tokens hs hp]
      simp only [hp, Form.prefixText, hprefixed]
      generalize Form.evaluate { expr := e } setting script = played
      rcases played with ⟨failure | v, table⟩
      · exact ⟨.trouble _, rfl⟩
      · obtain ⟨rolled, hrolled⟩ := Expr.exists_rolledText hfits table.sheet
        simp only [Form.rolledText, hrolled]
        exact ⟨.value ⟨tokens, prefixed, v, rolled⟩, trivial⟩

namespace CommandLine

/-! ### Plain runs -/

/-- The lines of tokens and of the debug form that are asked for, as far as the text can be read. -/
def Job.lines (job : Job) : String :=
  match Token.scan job.source with
  | .error _ => ""
  | .ok tokens =>
    (if job.options.tokens then s!"TKN: {Token.echoAll tokens}\n" else "") ++
      match Expr.ofTokens tokens with
      | .error _ => ""
      | .ok e =>
        if job.options.ast then
          match e.prefixText .blank job.context with
          | .ok text => s!"AST: {text}\n"
          | .error _ => ""
        else ""

/-- No line is printed that is not asked for. -/
theorem Job.lines_eq_empty (job : Job) (htokens : job.options.tokens = false) (hast : job.options.ast = false) :
    job.lines = "" := by
  unfold lines
  cases Token.scan job.source with
  | error err => rfl
  | ok tokens =>
    dsimp only
    rw [if_neg (by simp [htokens])]
    cases Expr.ofTokens tokens with
    | error err => rfl
    | ok e =>
      dsimp only
      rw [if_neg (by simp [hast])]
      rfl

/-- A run that prints some lines and then the outcome of its text. -/
def Run.told (env : Environment) (lines log : String) (outcome : Except Trouble (Option Value)) (table : Table) : Run :=
  match outcome with
  | .ok v => ⟨lines ++ Value.resultText v ++ "\n", log, .ok 0, table⟩
  | .error t => .trouble env lines log t table

theorem Job.runPlain_eq (job : Job) (hcontext : ¬ job.context.TooLarge) (script : List Int) :
    job.runPlain script = .told job.environment job.lines job.seedLog
      (evaluateText job.setting job.source script).1 (evaluateText job.setting job.source script).2 := by
  unfold runPlain lines
  cases hs : Token.scan job.source with
  | error err =>
    rw [evaluateText_of_scan hs]
    rfl
  | ok tokens =>
    cases hp : Expr.ofTokens tokens with
    | error err =>
      rw [evaluateText_of_parse hs hp]
      simp only [hp, String.append_empty]
      rfl
    | ok e =>
      have hfits := Expr.fits_of_ofText (ofText_of_tokens hs hp)
      obtain ⟨prefixed, hprefixed⟩ := Expr.exists_prefixText hfits .blank hcontext
      rw [evaluateText_of_tokens hs hp]
      simp only [hp, Form.prefixText, hprefixed]
      generalize Form.evaluate { expr := e } job.setting script = played
      by_cases hast : job.options.ast
      · simp only [if_pos hast, Except.map]
        rcases played with ⟨failure | v, table⟩ <;> rfl
      · simp only [if_neg hast]
        rcases played with ⟨failure | v, table⟩ <;> rfl

theorem Run.table_told (env : Environment) (lines log : String) (outcome : Except Trouble (Option Value))
    (table : Table) : (Run.told env lines log outcome table).table = table := by
  cases outcome with
  | ok v => rfl
  | error t =>
    unfold told trouble
    dsimp only
    split <;> rfl

/-- The lines only come before the rest. -/
theorem Run.told_lines (env : Environment) (lines log : String) (outcome : Except Trouble (Option Value))
    (table : Table) : Run.told env lines log outcome table =
      { Run.told env "" log outcome table with out := lines ++ (Run.told env "" log outcome table).out } := by
  cases outcome with
  | ok v => simp [told, String.append_assoc]
  | error t =>
    by_cases ht : t.isReported
    · simp [told, trouble, ht]
    · simp [told, trouble, ht]

/-! ### Runs with a report -/

section RunReport

variable (job : Job) (script : List Int)

theorem Job.runReport_ok {r : Report} (h : (Report.ofText job.setting job.source script).1 = .ok r) :
    (job.runReport script).out = r.toJson ++ "\n" ∧ (job.runReport script).ending = .ok 0 := by
  unfold runReport
  generalize Report.ofText job.setting job.source script = made at h ⊢
  rcases made with ⟨t | r', table⟩
  · cases h
  · cases h
    exact ⟨rfl, rfl⟩

theorem Job.runReport_error {t : Trouble} (h : (Report.ofText job.setting job.source script).1 = .error t) :
    (job.runReport script).ending = .error t := by
  unfold runReport
  generalize Report.ofText job.setting job.source script = made at h ⊢
  rcases made with ⟨t' | r, table⟩
  · cases h
    rfl
  · cases h

theorem Job.table_runReport : (job.runReport script).table = (Report.ofText job.setting job.source script).2 := by
  unfold runReport
  generalize Report.ofText job.setting job.source script = made
  rcases made with ⟨t | r, table⟩ <;> rfl

end RunReport

/-! ### Agreement -/

theorem errorText_untraced (message : String) :
    Environment.errorText ⟨none, none⟩ message = s!"Error: {message}\n" := by
  have htraces : Environment.traces ⟨none, none⟩ = false := by decide +kernel
  simp [Environment.errorText, htraces]

/-- The outcome of a text as a plain run, a run with a report and an echo tell it. Before its result a plain run prints
`lines`, and it logs `log`. -/
inductive Agree (lines log : String) : Except Trouble (Option Value) → Run → Run → Except Trouble Echo → Prop where
  | value {echo : Echo} {prefixed rolled : String} {plain report : Run}
      (hout : plain.out = lines ++ Value.resultText echo.value ++ "\n") (herr : plain.err = log)
      (hending : plain.ending = .ok 0)
      (hreport : report.out =
        Report.toJson ⟨some (Value.resultText echo.value), some prefixed, some rolled, none⟩ ++ "\n")
      (hdone : report.ending = .ok 0) : Agree lines log (.ok echo.value) plain report (.ok echo)
  | reported {t : Trouble} {plain report : Run} (ht : t.isReported = true) (hout : plain.out = lines)
      (herr : plain.err = log ++ s!"Error: {t.message}\n") (hending : plain.ending = .ok 1)
      (hreport : report.out = Report.toJson ⟨none, none, none, some t.message⟩ ++ "\n")
      (hdone : report.ending = .ok 0) : Agree lines log (.error t) plain report (.error t)
  | other {t : Trouble} {plain report : Run} (ht : t.isReported = false) (hout : plain.out = lines)
      (hending : plain.ending = .error t) (hdone : report.ending = .error t) :
      Agree lines log (.error t) plain report (.error t)

theorem agree_of_tells {outcome : Except Trouble (Option Value)} {r : Except Trouble Report}
    {echo : Except Trouble Echo} {lines log : String} {table : Table} {report : Run}
    (hr : Report.Tells outcome r) (hecho : Echo.Tells outcome echo)
    (hreport : ∀ made, r = .ok made → report.out = made.toJson ++ "\n" ∧ report.ending = .ok 0)
    (hother : ∀ t, r = .error t → report.ending = .error t) :
    Agree lines log outcome (.told ⟨none, none⟩ lines log outcome table) report echo := by
  cases hecho with
  | value echo =>
    cases hr with
    | value v prefixed rolled =>
      obtain ⟨hout, hdone⟩ := hreport _ rfl
      exact .value rfl rfl rfl hout hdone
  | trouble t =>
    cases hr with
    | reported ht =>
      obtain ⟨hout, hdone⟩ := hreport _ rfl
      have htold : Run.told ⟨none, none⟩ lines log (.error t) table =
          ⟨lines, log ++ s!"Error: {t.message}\n", .ok 1, table⟩ := by
        rw [Run.told, Run.trouble, if_pos ht, errorText_untraced]
      rw [htold]
      exact .reported ht rfl rfl rfl hout hdone
    | other ht =>
      have htold : Run.told ⟨none, none⟩ lines log (.error t) table = ⟨lines, log, .error t, table⟩ := by
        rw [Run.told, Run.trouble, if_neg (by simp [ht])]
      rw [htold]
      exact .other ht rfl rfl (hother t rfl)

/-- The job of some options on a context and a text, with some of their switches set anew. -/
def Options.job (o : Options) (context : Context) (text : String) (json tokens ast : Bool) : Job :=
  ⟨{ o with json, tokens, ast }, context, text, o.seed, ⟨none, none⟩⟩

theorem ofOptions_eq {o : Options} {context : Context} {text : String} (htext : o.expression = some text)
    (hdash : text ≠ "-") (hcontext : contextOf o.entries = .ok context) (input : String) (json tokens ast : Bool) :
    Job.ofOptions { o with json, tokens, ast } input ⟨none, none⟩ = .ok (o.job context text json tokens ast) := by
  have hsource : Options.source { o with json, tokens, ast } input = .ok text := by
    simp [Options.source, Options.readsInput, htext, hdash]
  have hseed : Environment.chooseSeed ⟨none, none⟩ o.seed = .ok o.seed := by
    cases o.seed <;> rfl
  simp only [Job.ofOptions, hcontext, hsource, hseed]
  rfl

/-- How the front ends stand to the evaluation of a text on a context and a script, with the lines of tokens and of the
debug form asked for or not. -/
structure Accord (o : Options) (context : Context) (text : String) (script : List Int) (tokens ast : Bool) : Prop where
  outcome : Agree (o.job context text false tokens ast).lines (o.job context text false tokens ast).seedLog
    (evaluateText ⟨context, .standard⟩ text script).1 ((o.job context text false tokens ast).run script)
    ((o.job context text true tokens ast).run script) (Echo.ofText ⟨context, .standard⟩ text script).1
  /-- All leave the table of the evaluation, with the dice called on it. -/
  plain : ((o.job context text false tokens ast).run script).table = (evaluateText ⟨context, .standard⟩ text script).2
  report : ((o.job context text true tokens ast).run script).table = (evaluateText ⟨context, .standard⟩ text script).2
  echo : (Echo.ofText ⟨context, .standard⟩ text script).2 = (evaluateText ⟨context, .standard⟩ text script).2
  /-- The lines that are asked for come before what is printed without them, and nothing else changes. -/
  lines : (o.job context text false tokens ast).run script =
    { (o.job context text false false false).run script with
      out := (o.job context text false tokens ast).lines ++ ((o.job context text false false false).run script).out }
  reportLines : (o.job context text true tokens ast).run script = (o.job context text true false false).run script

theorem accord {context : Context} (hcontext : ¬ context.TooLarge) (o : Options) (text : String) (script : List Int)
    (tokens ast : Bool) : Accord o context text script tokens ast := by
  obtain ⟨htells, htable⟩ := @Report.tells ⟨context, .standard⟩ hcontext text script
  obtain ⟨hecho, hechoed⟩ := @Echo.tells ⟨context, .standard⟩ hcontext text script
  have hplain (tokens ast : Bool) : (o.job context text false tokens ast).run script = .told ⟨none, none⟩
      (o.job context text false tokens ast).lines (o.job context text false tokens ast).seedLog
      (evaluateText ⟨context, .standard⟩ text script).1 (evaluateText ⟨context, .standard⟩ text script).2 :=
    Job.runPlain_eq (o.job context text false tokens ast) hcontext script
  have hreport : (o.job context text true tokens ast).run script =
      (o.job context text true tokens ast).runReport script := rfl
  have hbare : (o.job context text false false false).lines = "" := Job.lines_eq_empty _ rfl rfl
  constructor
  · rw [hplain]
    refine agree_of_tells htells hecho (fun made hmade => ?_) fun t ht => ?_
    · exact Job.runReport_ok (o.job context text true tokens ast) script hmade
    · exact Job.runReport_error (o.job context text true tokens ast) script ht
  · rw [hplain, Run.table_told]
  · rw [hreport, Job.table_runReport]
    exact htable
  · exact hechoed
  · rw [hplain, hplain, hbare, Run.told_lines]
    rfl
  · rfl

/-- **The front ends agree.** Whatever words of a command line give a text and entries for its context, the plain run,
the run with a report and the echo of the shell tell the outcome that the evaluation of the text on this context has,
with the same dice called; a switch for the report, the tokens or the debug form sets only its own field. -/
theorem front_ends_agree {args : List String} {o : Options} {text : String} (hargs : Options.ofArgs args = .ok o)
    (htext : o.expression = some text) (hdash : text ≠ "-")
    (hentries : ∀ entry ∈ o.entries, ∃ p, Context.readEntry entry = .ok p) (input : String) (script : List Int) :
    Options.ofArgs ("--json" :: args) = .ok { o with json := true } ∧
      Options.ofArgs ("--tokens" :: args) = .ok { o with tokens := true } ∧
      Options.ofArgs ("--ast" :: args) = .ok { o with ast := true } ∧
      ∃ context, contextOf o.entries = .ok context ∧ ∀ tokens ast,
        (∀ json, Job.ofOptions { o with json, tokens, ast } input ⟨none, none⟩ =
          .ok (o.job context text json tokens ast)) ∧
        Accord o context text script tokens ast := by
  obtain ⟨context, hcontext, hsimple⟩ := exists_contextOf hentries
  refine ⟨?_, ?_, ?_, context, hcontext, fun tokens ast => ⟨fun json => ?_, ?_⟩⟩
  · rw [Options.ofArgs_switch switch_json (by decide) rfl rfl (fun _ => rfl), hargs]
    rfl
  · rw [Options.ofArgs_switch switch_tokens (by decide) rfl rfl (fun _ => rfl), hargs]
    rfl
  · rw [Options.ofArgs_switch switch_ast (by decide) rfl rfl (fun _ => rfl), hargs]
    rfl
  · exact ofOptions_eq htext hdash hcontext input json tokens ast
  · exact accord hsimple.not_tooLarge o text script tokens ast

theorem front_ends_agree_options :
    let args := ["--ctx", " sides = 6", "-v", "--ctx=name=Ann", "--seed", "7", "2d@sides cs>=(2) + @name"]
    let o : Options :=
      { expression := some "2d@sides cs>=(2) + @name", seed := some 7, entries := [" sides = 6", "name=Ann"],
        verbose := true }
    (Options.ofArgs args = .ok o ∧ ∀ entry ∈ o.entries, ∃ p, Context.readEntry entry = .ok p) ∧
      Options.ofArgs ("--json" :: args) = .ok { o with json := true } ∧
      Options.ofArgs ("--tokens" :: args) = .ok { o with tokens := true } ∧
      Options.ofArgs ("--ast" :: args) = .ok { o with ast := true } ∧
      ∃ context, contextOf o.entries = .ok context ∧ ∀ tokens ast,
        (∀ json, Job.ofOptions { o with json, tokens, ast } "" ⟨none, none⟩ =
          .ok (o.job context "2d@sides cs>=(2) + @name" json tokens ast)) ∧
        Accord o context "2d@sides cs>=(2) + @name" [5, 1] tokens ast := by
  intro args o
  have hargs : Options.ofArgs args = .ok o := by rfl
  have hentries : ∀ entry ∈ o.entries, ∃ p, Context.readEntry entry = .ok p := by
    have hok : ∀ entry ∈ o.entries, (Context.readEntry entry).isOk = true := by decide +kernel
    intro entry hentry
    have := hok entry hentry
    cases h : Context.readEntry entry with
    | error message => rw [h] at this; cases this
    | ok p => exact ⟨p, rfl⟩
  exact ⟨⟨hargs, hentries⟩, front_ends_agree hargs rfl (by decide) hentries "" [5, 1]⟩

end CommandLine

end DiceNotation
