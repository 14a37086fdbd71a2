import DiceNotation.Proofs.Branches
import DiceNotation.Proofs.History
import DiceNotation.Proofs.Printing

/-!
Debug forms before and after an evaluation.

A debug form is put together from texts that stay and from the substitutions between them. No evaluation comes to the
callee of a call, so calls keep their names; a form therefore changes only where a substitution was settled, and there
it shows the value without the key, which it had shown as a preview before.

Main statement: `Form.previews_settled`.
-/

namespace DiceNotation

/-! ### Templates -/

/-- A piece of a debug form: a text that stays, or a substitution. -/
inductive Piece where
  | text (s : String)
  | substitution (slot : Slot) (key : String) (label : Option String)

namespace Piece

/-- A substitution that is open: its key and, if the context has one, the value that it would get. -/
def openText (context : Context) (key : String) (label : Option String) : Except Unprintable String :=
  match context.get? key with
  | some d => do
    let preview ← d.previewText
    return withLabel (parenthesized ["@", key, preview]) label
  | none => return withLabel (parenthesized ["@", key]) label

/-- What is written for a piece. -/
def write (sheet : Sheet) (context : Context) : Piece → Except Unprintable String
  | .text s => .ok s
  | .substitution slot key label =>
    match sheet.resolved slot with
    | some v => .ok (withLabel v.toText label)
    | none => openText context key label

/-- What is written for pieces, one after the other. -/
def fill (sheet : Sheet) (context : Context) (pieces : List Piece) : Except Unprintable String :=
  return String.join (← pieces.mapM (write sheet context))

/-- Words in parentheses, each of them in pieces. -/
def inParens (words : List (List Piece)) : List Piece := .text "(" :: ([.text " "].intercalate words ++ [.text ")"])

variable {sheet : Sheet} {context : Context}

theorem fill_single (p : Piece) : fill sheet context [p] = write sheet context p := by
  simp [fill, String.join]

theorem fill_text (s : String) : fill sheet context [.text s] = pure s := fill_single _

theorem fill_append (ps qs : List Piece) : fill sheet context (ps ++ qs) = do
    let s ← fill sheet context ps
    let s' ← fill sheet context qs
    return s ++ s' := by
  simp [fill, List.mapM_append]

theorem fill_intercalate (words : List (List Piece)) : fill sheet context ([.text " "].intercalate words) =
    return " ".intercalate (← words.mapM (fill sheet context)) := by
  induction words with
  | nil => rfl
  | cons word words ih =>
    cases words with
    | nil => simp [List.intercalate]
    | cons word' words =>
      rw [List.intercalate_cons_cons, fill_append, fill_append, ih]
      simp [List.mapM_cons, fill_text]

/-- What is written for words in parentheses. -/
theorem fill_inParens (words : List (List Piece)) : fill sheet context (inParens words) =
    return parenthesized (← words.mapM (fill sheet context)) := by
  rw [inParens, ← List.singleton_append, fill_append, fill_append, fill_intercalate]
  simp [parenthesized, fill_text, String.append_assoc]

variable {slot : Slot} {key : String} {label : Option String}

theorem write_settled {v : Value} (h : sheet.resolved slot = some v) :
    write sheet context (.substitution slot key label) = .ok (withLabel v.toText label) := by
  rw [write, h]

theorem write_open (h : sheet.resolved slot = none) :
    write sheet context (.substitution slot key label) = openText context key label := by
  rw [write, h]

/-- The preview of a value is its text. -/
theorem openText_of_get? {d : Datum} {v : Value} (hd : context.get? key = some d) (hv : d.toValue = .ok v) :
    openText context key label = .ok (withLabel (parenthesized ["@", key, v.toText]) label) := by
  simp only [openText, hd, Datum.previewText, hv]
  rfl

/-- Pieces can be written if each of them can. -/
theorem exists_fill_iff {pieces : List Piece} :
    (∃ text, fill sheet context pieces = .ok text) ↔ ∀ p ∈ pieces, ∃ text, write sheet context p = .ok text := by
  induction pieces with
  | nil => exact ⟨fun _ _ hp => (by cases hp), fun _ => ⟨_, rfl⟩⟩
  | cons p pieces ih =>
    rw [List.forall_mem_cons, ← ih, ← List.singleton_append, fill_append, fill_single]
    cases write sheet context p with
    | error err => exact ⟨fun ⟨_, h⟩ => (by cases h), fun ⟨⟨_, h⟩, _⟩ => (by cases h)⟩
    | ok s =>
      cases fill sheet context pieces with
      | error err => exact ⟨fun ⟨_, h⟩ => (by cases h), fun ⟨_, _, h⟩ => (by cases h)⟩
      | ok s' => exact ⟨fun _ => ⟨⟨_, rfl⟩, _, rfl⟩, fun _ => ⟨_, rfl⟩⟩

end Piece

namespace Expr

open Piece

mutual
/-- The pieces of a debug form. -/
def template : Expr → List Piece
  | .literal v label => [.text (withLabel (Value.resultText v) label)]
  | .substitution slot key label => [.substitution slot (key.elim "" Value.toPlainText) label]
  | .group inner => inParens [[.text "group"], inner.template]
  | .unary op operand => inParens [[.text (op.elim "" Token.lexeme)], operand.template]
  | .binary op left right => inParens [[.text (op.elim "" Token.lexeme)], left.template, right.template]
  | .choice condition consequent alternative =>
    inParens [[.text "?:"], condition.template, consequent.template, alternative.template]
  | .call callee _ arguments =>
    let name := match callee.name? .blank with
      | .ok (some name) => if name = "" then callee.template else [.text name]
      | _ => callee.template
    inParens (name :: templates arguments)
  | .dice _ count faces label modifier comparison target =>
    let value := match target with
      | .absent => []
      | .faces => [faces.template]
      | .value target => [target.template]
    let tail := if modifier = .plain then [] else [.text modifier.name] :: [.text comparison.name] :: value
    inParens ([.text "d"] :: count.template :: faces.template :: tail) ++ [.text (withLabel "" label)]
  | .pool entries modifier comparison target =>
    let tail := match target with
      | none => []
      | some target => [target.template]
    inParens ([.text "pool"] :: templates entries ++ [.text modifier.name] :: [.text comparison.name] :: tail)
  | .foreign _ => []
  termination_by structural e => e

/-- The pieces of the debug forms of a list. -/
def templates : List Expr → List (List Piece)
  | [] => []
  | e :: es => e.template :: templates es
  termination_by structural es => es
end

theorem templates_eq_map (es : List Expr) : templates es = es.map template := by
  induction es with
  | nil => rfl
  | cons e es ih => rw [templates, ih, List.map_cons]

/-- The pieces of the target of dice. -/
def targetTemplates (faces : Expr) : Target Expr → List (List Piece)
  | .absent => []
  | .faces => [faces.template]
  | .value target => [target.template]

theorem template_dice (slot : Slot) (count faces : Expr) (label : Option String) (modifier : Modifier)
    (comparison : Comparison) (target : Target Expr) :
    (Expr.dice slot count faces label modifier comparison target).template =
      inParens ([.text "d"] :: count.template :: faces.template ::
        if modifier = .plain then []
        else [.text modifier.name] :: [.text comparison.name] :: targetTemplates faces target) ++
      [.text (withLabel "" label)] := by
  cases target <;> rfl

theorem withLabel_eq (text : String) (label : Option String) : withLabel text label = text ++ withLabel "" label := by
  cases label with
  | none => simp [withLabel]
  | some label => simp [withLabel, String.append_assoc]

variable {e : Expr} {es : List Expr} {sheet : Sheet} {context : Context}

theorem prefixTexts_eq (h : ∀ a ∈ es, a.prefixText sheet context = fill sheet context a.template) :
    prefixTexts sheet context es = (templates es).mapM (fill sheet context) := by
  induction es with
  | nil => rfl
  | cons e es ih =>
    obtain ⟨he, hes⟩ := List.forall_mem_cons.1 h
    rw [prefixTexts, templates, List.mapM_cons, he, ih hes]

/-- Every call has the name that it has where nothing is settled. -/
def KeepsNames (sheet : Sheet) (e : Expr) : Prop :=
  e.Everywhere fun d => ∀ callee token arguments, d = .call callee token arguments →
    callee.name? sheet = callee.name? .blank

/-- A name is a text of its own, and a callee without one stands there itself. -/
theorem fill_name {callee : Expr} (hfits : callee.Fits) (hname : callee.name? sheet = callee.name? .blank)
    (hcallee : callee.prefixText sheet context = fill sheet context callee.template) {α : Type}
    (behind : String → Except Unprintable α) :
    (Unprintable.check (callee.name? sheet) >>= fun
      | some name => if name = "" then callee.prefixText sheet context >>= behind else pure name >>= behind
      | none => callee.prefixText sheet context >>= behind) =
    fill sheet context (match callee.name? .blank with
      | .ok (some name) => if name = "" then callee.template else [.text name]
      | _ => callee.template) >>= behind := by
  obtain ⟨name, hblank⟩ := exists_name? hfits .blank
  rw [hname, hblank, hcallee]
  cases name with
  | none => rfl
  | some name =>
    show (if name = "" then _ else _) = _
    dsimp only
    split
    · rfl
    · rw [fill_text]

/-- **The debug form fills in the template** of an expression of the grammar whose calls keep their names. -/
theorem prefixText_eq_fill (hfits : e.Everywhere Fits) (hnames : e.KeepsNames sheet) :
    e.prefixText sheet context = fill sheet context e.template := by
  have hop : ∀ t : Token, operatorText (some t) = pure t.lexeme := fun _ => rfl
  induction e using Expr.ind with
  | literal v label => exact (fill_text _).symm
  | substitution slot key label =>
    obtain ⟨name, rfl⟩ := everywhere_substitution.1 hfits
    rw [prefixText, template, fill_single]
    rfl
  | group inner ih =>
    have hi := ih (everywhere_group.1 hfits).2 (everywhere_group.1 hnames).2
    simp [prefixText, template, fill_inParens, fill_text, hi]
  | unary op operand ih =>
    obtain ⟨⟨⟨t, rfl, -⟩, -⟩, ho⟩ := everywhere_unary.1 hfits
    have ho := ih ho (everywhere_unary.1 hnames).2
    simp [prefixText, template, fill_inParens, fill_text, ho, hop]
  | binary op left right ihl ihr =>
    obtain ⟨⟨t, -, rfl, -⟩, hl, hr⟩ := everywhere_binary.1 hfits
    obtain ⟨-, hnl, hnr⟩ := everywhere_binary.1 hnames
    simp [prefixText, template, fill_inParens, fill_text, ihl hl hnl, ihr hr hnr, hop]
  | choice c t e ihc iht ihe =>
    obtain ⟨-, hc, ht, he⟩ := everywhere_choice.1 hfits
    obtain ⟨-, hnc, hnt, hne⟩ := everywhere_choice.1 hnames
    simp [prefixText, template, fill_inParens, fill_text, ihc hc hnc, iht ht hnt, ihe he hne]
  | call callee token arguments ihc iha =>
    obtain ⟨-, hc, ha⟩ := everywhere_call.1 hfits
    obtain ⟨hname, hnc, hna⟩ := everywhere_call.1 hnames
    have harguments := prefixTexts_eq fun a hm => iha a hm (ha a hm) (hna a hm)
    rw [prefixText, harguments]
    simp only [template, fill_inParens, List.mapM_cons, bind_assoc, pure_bind]
    rw [← fill_name hc.self (hname _ _ _ rfl) (ihc hc hnc)]
    rfl
  | dice slot count faces label modifier comparison target ihc ihf iht =>
    obtain ⟨-, hc, hf, ht⟩ := everywhere_dice.1 hfits
    obtain ⟨-, hnc, hnf, hnt⟩ := everywhere_dice.1 hnames
    rw [prefixText, template_dice, fill_append, fill_inParens, ihc hc hnc, ihf hf hnf]
    by_cases hplain : modifier = .plain
    · simp [fill_text, hplain, ← withLabel_eq]
    · cases target with
      | absent => simp [fill_text, hplain, targetTemplates, ← withLabel_eq]
      | faces =>
        -- what is written for the faces is written twice
        simp [fill_text, hplain, targetTemplates, ← withLabel_eq]
        cases fill sheet context count.template <;> cases fill sheet context faces.template <;> rfl
      | value target =>
        have htarget := iht target rfl (ht target rfl) (hnt target rfl)
        simp [fill_text, hplain, targetTemplates, ← withLabel_eq, htarget]
  | pool entries modifier comparison target ihe iht =>
    obtain ⟨-, hes, ht⟩ := everywhere_pool.1 hfits
    obtain ⟨-, hnes, hnt⟩ := everywhere_pool.1 hnames
    have hentries := prefixTexts_eq fun a hm => ihe a hm (hes a hm) (hnes a hm)
    rw [prefixText, hentries]
    cases target with
    | none => simp [template, fill_inParens, fill_text]
    | some target =>
      have htarget := iht target rfl (ht target rfl) (hnt target rfl)
      simp [template, fill_inParens, fill_text, htarget]
  | foreign text => exact absurd hfits.self id

/-! ### The substitutions of a template -/

section Substitutions

variable {slot : Slot} {key : String} {label : Option String}

theorem mem_intercalate {words : List (List Piece)} :
    Piece.substitution slot key label ∈ [Piece.text " "].intercalate words ↔
      ∃ word ∈ words, Piece.substitution slot key label ∈ word := by
  induction words with
  | nil => simp [List.intercalate]
  | cons word words ih =>
    cases words with
    | nil => simp [List.intercalate]
    | cons word' words =>
      rw [List.intercalate_cons_cons, List.mem_append, List.mem_append, ih]
      simp

theorem mem_inParens {words : List (List Piece)} :
    Piece.substitution slot key label ∈ inParens words ↔ ∃ word ∈ words, Piece.substitution slot key label ∈ word := by
  simp [inParens, mem_intercalate]

theorem exists_mem_templates :
    (∃ word, word ∈ templates es ∧ Piece.substitution slot key label ∈ word) ↔
      ∃ a, a ∈ es ∧ Piece.substitution slot key label ∈ a.template := by
  rw [templates_eq_map]
  constructor
  · rintro ⟨word, hword, h⟩
    obtain ⟨a, ha, rfl⟩ := List.mem_map.1 hword
    exact ⟨a, ha, h⟩
  · rintro ⟨a, ha, h⟩
    exact ⟨a.template, List.mem_map.2 ⟨a, ha, rfl⟩, h⟩

/-- A callee with a name is no substitution, and the others stand there themselves. -/
theorem mem_name {callee : Expr} :
    (Piece.substitution slot key label ∈ match callee.name? .blank with
      | .ok (some name) => if name = "" then callee.template else [.text name]
      | _ => callee.template) ↔ Piece.substitution slot key label ∈ callee.template := by
  split
  next name hname =>
    split
    · rfl
    · cases callee with
      | literal v l => simp [template]
      | _ => cases hname
  next => rfl

/-- The substitutions of a template are the expression itself or those of its direct parts. -/
theorem mem_template_of_children (hfits : e.Fits) (he : e.children = .ok es) :
    Piece.substitution slot key label ∈ e.template ↔
      Expr.substitution slot (some (.string key)) label = e ∨
        ∃ c ∈ es, Piece.substitution slot key label ∈ c.template := by
  cases e with
  | substitution slot' key' label' =>
    obtain ⟨name, rfl⟩ := hfits
    cases he
    simp [template, Value.toPlainText]
  | call callee token arguments =>
    cases he
    simp [template, mem_inParens, mem_name, exists_mem_templates]
  | dice slot' count faces label' modifier comparison target =>
    obtain ⟨-, -, -, -, hplain, -⟩ := hfits
    rw [template_dice]
    by_cases hm : modifier = .plain
    · have htarget := hplain.1 hm
      cases target with
      | absent =>
        cases he
        simp [mem_inParens, hm]
      | _ => cases htarget
    · cases target <;> cases he <;> simp [mem_inParens, hm, targetTemplates]
  | pool entries modifier comparison target =>
    cases target <;> cases he <;> simp [template, mem_inParens, exists_mem_templates, or_and_right, exists_or]
  | foreign text => exact absurd hfits id
  | _ =>
    cases he
    simp [template, mem_inParens]

/-- The substitutions of a template are those of the expression. -/
theorem mem_template_iff (hfits : e.Everywhere Fits) :
    Piece.substitution slot key label ∈ e.template ↔
      (Expr.substitution slot (some (.string key)) label).PartOf e := by
  induction hn : e.size using Nat.strongRecOn generalizing e with
  | ind n ih =>
    subst hn
    obtain ⟨es, he⟩ := exists_children hfits.self
    rw [mem_template_of_children hfits.self he, partOf_iff he]
    refine or_congr_right (exists_congr fun c => and_congr_right fun hc => ?_)
    exact ih _ (size_lt_of_children he hc) (hfits.of_partOf (.child he hc (.self c))) rfl

end Substitutions

end Expr

/-! ### Before and after an evaluation -/

variable {setting : Setting} {e callee : Expr} {token : Option Token} {arguments : List Expr} {t t' : Table}
  {slot : Slot} {key : String} {label : Option String} {v : Option Value}

/-- No evaluation comes to the callee of a call. -/
theorem Visits.not_callee {d : Expr} {u : Table} (hn : e.slots.Nodup)
    (hcall : (Expr.call callee token arguments).PartOf e) (h : Visits setting e t d u) (hd : d.slot? = some slot) :
    slot ∉ callee.slots := by
  intro hslot
  have hnodup := hcall.slots_sublist.nodup hn
  rw [Expr.slots, List.nodup_append] at hnodup
  obtain ⟨-, -, hdisjoint⟩ := hnodup
  obtain ⟨w, -, h⟩ := h.through hn hd hcall (List.mem_append_left _ hslot)
  cases h with
  | self => cases hd
  | part hc hd' =>
    cases hc with
    | argument hf hs hbefore =>
      refine hdisjoint slot hslot slot (Expr.mem_slotsOf_iff.2 ⟨_, ?_, hd'.partOf.mem_slots hd⟩) rfl
      rw [hs]
      simp

/-- An evaluation on which nothing is settled leaves calls their names. -/
theorem Expr.keepsNames_evaluate (setting : Setting) (hn : e.slots.Nodup) (hblank : t.sheet = .blank) :
    e.KeepsNames ((e.evaluate setting).on t).2.sheet := by
  rintro _ hcall callee token arguments rfl
  cases callee with
  | substitution slot key label =>
    have hopen : ((e.evaluate setting).on t).2.sheet.resolved slot = none := by
      rcases e.evaluate_confined setting t slot with ⟨d, u, hd, hds, -⟩ | hsame
      · exact absurd (by simp [slots]) (hd.not_callee hn hcall hds)
      · rw [hsame.1, hblank]
        rfl
    rw [name?, name?, hopen]
    rfl
  | _ => rfl

/-- A substitution is settled by a success exactly where the evaluation comes to it. -/
theorem Expr.isSome_resolved_iff (hn : e.slots.Nodup) (hblank : t.sheet = .blank)
    (hok : (e.evaluate setting).on t = (.ok v, t')) {d : Expr} (hd : d = .substitution slot (some (.string key)) label)
    (hpart : d.PartOf e) : (t'.sheet.resolved slot).isSome ↔ ∃ u, Visits setting e t d u := by
  have hslot : d.slot? = some slot := by rw [hd]; rfl
  constructor
  · intro hsome
    rcases e.evaluate_confined setting t slot with ⟨d', u, hd', hds, -⟩ | hsame
    · cases coherent_of_nodup hn d' d slot hd'.partOf hpart hds hslot
      exact ⟨u, hd'⟩
    · rw [hok] at hsame
      rw [hsame.1, hblank] at hsome
      cases hsome
  · rintro ⟨u, hvisit⟩
    obtain ⟨w, u', hw⟩ := (hvisit.leads hn).ok hok
    have hkept := (hvisit.leads hn).kept
    rw [hok, hw] at hkept
    have hshown := (shows_of_ok hslot hw).kept hkept
    rw [hd] at hshown
    exact hshown

/-- The value of a settled substitution is the one that the context gives to its key. -/
theorem Expr.gives_of_resolved (hn : e.slots.Nodup) (hblank : t.sheet = .blank)
    (hok : (e.evaluate setting).on t = (.ok v, t'))
    (hpart : (Expr.substitution slot (some (.string key)) label).PartOf e) {w : Value}
    (hw : t'.sheet.resolved slot = some w) : ∃ d, setting.context.get? key = some d ∧ d.toValue = .ok w := by
  have hsettles := e.evaluate_settles setting t slot
  rw [hok] at hsettles
  rcases hsettles with hsame | ⟨-, key', label', w', hpart', ⟨k, d, hk, hd, hv⟩, hw'⟩
  · rw [hsame, hblank] at hw
    cases hw
  · cases coherent_of_nodup hn _ _ slot hpart' hpart rfl rfl
    cases hk
    rw [hw] at hw'
    cases hw'
    exact ⟨d, hd, hv⟩

namespace Form

/-- The debug forms of an expression before an evaluation and after it, by the table that it left. -/
structure PreviewsSettled (e : Expr) (setting : Setting) (script : List Int) (table : Table) : Prop where
  before : prefixText { expr := e } setting.context = Piece.fill .blank setting.context e.template
  after : prefixText { expr := e, sheet := table.sheet } setting.context =
    Piece.fill table.sheet setting.context e.template
  /-- Between the texts that stay, the template has the substitutions of the expression. -/
  complete : ∀ {slot key label}, .substitution slot key label ∈ e.template ↔
    (Expr.substitution slot (some (.string key)) label).PartOf e
  reached : ∀ {slot key label}, .substitution slot key label ∈ e.template →
    ((table.sheet.resolved slot).isSome ↔
      ∃ u, Visits setting e (.fresh script) (.substitution slot (some (.string key)) label) u)
  /-- What was shown with the key as a preview is the text of the value. -/
  settled : ∀ {slot key label v}, .substitution slot key label ∈ e.template → table.sheet.resolved slot = some v →
    Piece.write .blank setting.context (.substitution slot key label) =
        .ok (withLabel (parenthesized ["@", key, v.toText]) label) ∧
      Piece.write table.sheet setting.context (.substitution slot key label) = .ok (withLabel v.toText label)
  stays : ∀ {slot key label}, table.sheet.resolved slot = none →
    Piece.write table.sheet setting.context (.substitution slot key label) =
      Piece.write .blank setting.context (.substitution slot key label)
  printed : ¬ setting.context.TooLarge → ∃ text, prefixText { expr := e } setting.context = .ok text
  again : (∃ text, prefixText { expr := e } setting.context = .ok text) ↔
    ∃ text, prefixText { expr := e, sheet := table.sheet } setting.context = .ok text

/-- **The debug form previews the values that an evaluation settles**, in every expression that is read from tokens. -/
theorem previews_settled {tokens : List Token} {e : Expr} (hread : Expr.ofTokens tokens = .ok e) {setting : Setting}
    {script : List Int} {v : Option Value} {table : Table}
    (hok : evaluate { expr := e } setting script = (.ok v, table)) : PreviewsSettled e setting script table := by
  obtain ⟨hfits, hn, -⟩ := Expr.ofTokens_sound hread
  have hrun : (e.evaluate setting).on (.fresh script) = (.ok v, table) := hok
  have hnames : e.KeepsNames table.sheet := by
    have hkeeps := Expr.keepsNames_evaluate (t := .fresh script) setting hn rfl
    rwa [hrun] at hkeeps
  have hbefore : prefixText { expr := e } setting.context = Piece.fill .blank setting.context e.template :=
    Expr.prefixText_eq_fill hfits fun _ _ _ _ _ _ => rfl
  have hafter : prefixText { expr := e, sheet := table.sheet } setting.context =
      Piece.fill table.sheet setting.context e.template := Expr.prefixText_eq_fill hfits hnames
  have hblank : ∀ {slot key label}, Piece.write .blank setting.context (.substitution slot key label) =
      Piece.openText setting.context key label := Piece.write_open rfl
  have hpreview : ∀ {slot key label w}, .substitution slot key label ∈ e.template →
      table.sheet.resolved slot = some w →
      Piece.openText setting.context key label = .ok (withLabel (parenthesized ["@", key, w.toText]) label) := by
    intro slot key label w hmem hw
    obtain ⟨d, hd, hvalue⟩ := Expr.gives_of_resolved hn rfl hrun ((Expr.mem_template_iff hfits).1 hmem) hw
    exact Piece.openText_of_get? hd hvalue
  refine ⟨hbefore, hafter, Expr.mem_template_iff hfits, fun hmem => ?_, fun hmem hw => ?_, fun hopen => ?_,
    fun hcontext => ?_, ?_⟩
  · exact Expr.isSome_resolved_iff hn rfl hrun rfl ((Expr.mem_template_iff hfits).1 hmem)
  · exact ⟨hblank.trans (hpreview hmem hw), Piece.write_settled hw⟩
  · exact (Piece.write_open hopen).trans hblank.symm
  · exact Expr.exists_prefixText hfits .blank hcontext
  · rw [hbefore, hafter, Piece.exists_fill_iff, Piece.exists_fill_iff]
    refine forall_congr' fun p => forall_congr' fun hp => ?_
    cases p with
    | text s => rfl
    | substitution slot key label =>
      rw [hblank]
      cases hw : table.sheet.resolved slot with
      | none => rw [Piece.write_open hw]
      | some w =>
        -- a preview of a value that was settled had not failed
        rw [hpreview hp hw, Piece.write_settled hw]
        exact ⟨fun _ => ⟨_, rfl⟩, fun _ => ⟨_, rfl⟩⟩

/-- Strings, numbers and a truth value, of which `f` gives faces that are also compared with. -/
def hand : Context := [("a", .int 3), ("f", .int 6), ("s", .string "yes"), ("g", .string "max"), ("b", .bool true)]

/-- A label in a nested call, faces that are also compared with, and a branch that is not taken and calls what the
context would name. -/
theorem previews_settled_nested : ∃ (tokens : List Token) (e : Expr) (v : Option Value) (table : Table),
    Token.scan "max(min(@a[w], 2), 1d@f cs) + (@s == yes ? 4 : @g(@c, @b))" = .ok tokens ∧
      Expr.ofTokens tokens = .ok e ∧ evaluate { expr := e } ⟨hand, .standard⟩ [6] = (.ok v, table) ∧
        (prefixText { expr := e } hand).toOption =
          some ("(+ (max (min (@ a 3)[w] 2) (d 1 (@ f 6) CountSuccesses Equal (@ f 6))) " ++
            "(group (?: (== (@ s yes) yes) 4 ((@ g max) (@ c) (@ b true)))))") ∧
        (prefixText { expr := e, sheet := table.sheet } hand).toOption =
          some ("(+ (max (min 3[w] 2) (d 1 6 CountSuccesses Equal 6)) " ++
            "(group (?: (== yes yes) 4 ((@ g max) (@ c) (@ b true)))))") ∧
        PreviewsSettled e ⟨hand, .standard⟩ [6] table := by
  obtain ⟨e, hread, hrun⟩ := Expr.exists_of_any "max(min(@a[w], 2), 1d@f cs) + (@s == yes ? 4 : @g(@c, @b))"
    (fun e =>
      let run := evaluate { expr := e } ⟨hand, .standard⟩ [6]
      decide (run.1.toOption = some (some (.number (.ofNat 6))) ∧
        (prefixText { expr := e } hand).toOption =
          some ("(+ (max (min (@ a 3)[w] 2) (d 1 (@ f 6) CountSuccesses Equal (@ f 6))) " ++
            "(group (?: (== (@ s yes) yes) 4 ((@ g max) (@ c) (@ b true)))))") ∧
        (prefixText { expr := e, sheet := run.2.sheet } hand).toOption =
          some ("(+ (max (min 3[w] 2) (d 1 6 CountSuccesses Equal 6)) " ++
            "(group (?: (== yes yes) 4 ((@ g max) (@ c) (@ b true)))))")))
    (by decide +kernel)
  obtain ⟨hvalue, hbefore, hafter⟩ := of_decide_eq_true hrun
  obtain ⟨tokens, hscan, hparse⟩ := Expr.ofText_eq_ok hread
  have hok : evaluate { expr := e } ⟨hand, .standard⟩ [6] = (.ok _, _) := Prod.ext (eq_ok_of_toOption hvalue) rfl
  exact ⟨tokens, e, _, _, hscan, hparse, hok, hbefore, hafter, previews_settled hparse hok⟩

end Form

end DiceNotation
