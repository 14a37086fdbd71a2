import DiceNotation.Proofs.Failures
import DiceNotation.Proofs.Reading
import DiceNotation.Proofs.Slots
import DiceNotation.Proofs.Tiling

/-!
Expressions that were read stay within what evaluations and printers know.

A part of an expression is spelled by some of its tokens. So the operators of an expression are tokens of its text, and
a token of an operator's class is written as the table of operators has it. With that, every node that is read is one
that evaluations know, and the messages of the faults that are left begin with none of the texts of internal errors.

Main statements: `Expr.spelledIn_of_partOf`, `Expr.known_of_ofText` and `Form.stays_known`.
-/

namespace DiceNotation

open Play Token

/-! ### Parts of a spelling -/

namespace Expr

/-- An expression is spelled by tokens that stand together among others, or it is a number, which may go without
saying. -/
def SpelledIn (style : Style) (ts : List Token) (e : Expr) : Prop :=
  (∃ x, e = .literal (some (.number x)) none) ∨ ∃ us, Spelled style e us ∧ us <:+: ts

variable {d e c : Expr} {es : List Expr} {ts us : List Token} {style : Style}

theorem SpelledIn.mono (h : e.SpelledIn style us) (hs : us <:+: ts) : e.SpelledIn style ts := by
  rcases h with h | ⟨vs, hvs, hwithin⟩
  · exact .inl h
  · exact .inr ⟨vs, hvs, hwithin.trans hs⟩

theorem SpelledIn.of_spelled (h : Spelled style e us) (hs : us <:+: ts) : e.SpelledIn style ts := .inr ⟨us, h, hs⟩

theorem spelledIn_of_rest (h : SpelledRest style es ts) (hc : c ∈ es) : c.SpelledIn style ts := by
  induction es generalizing ts with
  | nil => cases hc
  | cons e es ih =>
    cases h with
    | @cons comma _ _ ts us _ he hs =>
      rcases List.mem_cons.1 hc with rfl | hc
      · exact .of_spelled he ⟨[comma], us, by simp⟩
      · exact (ih hs hc).mono ⟨comma :: ts, [], by simp⟩

theorem spelledIn_of_all (h : SpelledAll style es ts) (hc : c ∈ es) : c.SpelledIn style ts := by
  cases h with
  | nil => cases hc
  | @cons _ _ ts us he hs =>
    rcases List.mem_cons.1 hc with rfl | hc
    · exact .of_spelled he ⟨[], us, by simp⟩
    · exact (spelledIn_of_rest hs hc).mono ⟨ts, [], by simp⟩

theorem spelledIn_of_compared {comparison : Comparison} (h : Compared style comparison (some e) ts) :
    e.SpelledIn style ts := by
  cases h with
  | number ht => exact .inl ⟨_, rfl⟩
  | @operator op _ _ ts _ _ he => exact .of_spelled he ⟨[op], [], by simp⟩

/-- A direct part of an expression is spelled within its tokens. -/
theorem spelledIn_of_children (h : Spelled style e ts) (he : e.children = .ok es) (hc : c ∈ es) :
    c.SpelledIn style ts := by
  cases h with
  | @group opener closer _ ts _ hi _ =>
    cases he
    obtain rfl := List.mem_singleton.1 hc
    exact .of_spelled hi ⟨[opener], [closer], by simp⟩
  | @unary op _ ts ho =>
    cases he
    obtain rfl := List.mem_singleton.1 hc
    exact .of_spelled ho ⟨[op], [], by simp⟩
  | @binary op _ _ ls rs hl hr =>
    cases he
    simp only [List.mem_cons, List.not_mem_nil, or_false] at hc
    rcases hc with rfl | rfl
    · exact .of_spelled hl ⟨[], op :: rs, by simp⟩
    · exact .of_spelled hr ⟨ls ++ [op], [], by simp⟩
  | @choice mark colon _ _ _ cs ts es hcond _ ht _ hlast =>
    cases he
    simp only [List.mem_cons, List.not_mem_nil, or_false] at hc
    rcases hc with rfl | rfl | rfl
    · exact .of_spelled hcond ⟨[], mark :: (ts ++ colon :: es), by simp⟩
    · exact .of_spelled ht ⟨cs ++ [mark], colon :: es, by simp⟩
    · exact .of_spelled hlast ⟨cs ++ mark :: (ts ++ [colon]), [], by simp⟩
  | @call opener closer token _ _ cs ts hcallee _ ha _ =>
    cases he
    rcases List.mem_cons.1 hc with rfl | hc
    · exact .of_spelled hcallee ⟨[], opener :: (ts ++ [closer]), by simp⟩
    · exact (spelledIn_of_all ha hc).mono ⟨cs ++ [token, opener], [closer], by simp⟩
  | @plainDice die _ _ _ _ cs fs ls hcount _ _ hf _ =>
    cases he
    simp only [List.mem_cons, List.not_mem_nil, or_false] at hc
    rcases hc with rfl | rfl
    · exact .of_spelled hcount ⟨[], die :: (fs ++ ls), by simp⟩
    · exact .of_spelled hf ⟨cs ++ [die], ls, by simp⟩
  | @dice die keyword slot count faces label modifier comparison target written cs fs ms ls hcount _ _ hf _ _ hm ht _ =>
    obtain ⟨es', he', hes⟩ := children_dice slot count faces label modifier comparison target
    cases he.symm.trans he'
    rcases (hes c).1 hc with rfl | rfl | hc
    · exact .of_spelled hcount ⟨[], die :: (fs ++ keyword :: (ms ++ ls)), by simp⟩
    · exact .of_spelled hf ⟨cs ++ [die], keyword :: (ms ++ ls), by simp⟩
    · rcases Rule.eq_of_targetOf (ht.symm.trans hc) with rfl | rfl
      · exact (spelledIn_of_compared hm).mono ⟨cs ++ die :: (fs ++ [keyword]), ls, by simp⟩
      · exact .inl ⟨_, rfl⟩
  | @pool opener closer keyword entries _ _ target written ts ms _ hentries _ _ _ hm ht =>
    cases he
    rcases List.mem_append.1 hc with hc | hc
    · exact (spelledIn_of_all hentries hc).mono ⟨[opener], closer :: keyword :: ms, by simp⟩
    · obtain rfl := List.mem_singleton.1 hc
      cases written with
      | none => exact .inl ⟨_, ht⟩
      | some written =>
        obtain rfl : c = written := ht
        exact (spelledIn_of_compared hm).mono ⟨opener :: (ts ++ [closer, keyword]), [], by simp⟩
  | _ =>
    cases he
    cases hc

/-- **Every part of an expression is spelled within its tokens.** -/
theorem spelledIn_of_partOf (hd : d.PartOf e) (h : Spelled style e ts) : d.SpelledIn style ts := by
  replace h : e.SpelledIn style ts := .of_spelled h List.infix_rfl
  induction hd with
  | self => exact h
  | child he hc hd ih =>
    rcases h with ⟨x, rfl⟩ | ⟨us, hus, hwithin⟩
    · cases he
      cases hc
    · exact ih ((spelledIn_of_children hus he hc).mono hwithin)

/-! ### Operators of a text -/

/-- The operator of a node is one of the tokens. -/
def OperatorAmong (ts : List Token) (e : Expr) : Prop := ∀ op, e.operator? = some op → op ∈ ts

/-- The operators of an expression are among the tokens that spell it. -/
theorem operators_of_spelled (h : Spelled style e ts) : e.Everywhere (OperatorAmong ts) := by
  intro d hd op hop
  rcases spelledIn_of_partOf hd h with ⟨x, rfl⟩ | ⟨us, hus, hwithin⟩
  · cases hop
  · refine hwithin.subset ?_
    cases hus <;> cases hop <;> simp

end Expr

namespace Token

/-- A kind of the operators before and between operands. -/
def Kind.Operates (kind : Kind) : Prop := kind = .bang ∨ kind = .minus ∨ ∃ l, kind.level? = some l

theorem Kind.Operates.ne_endOfInput {kind : Kind} (h : kind.Operates) : kind ≠ .endOfInput := by
  rintro rfl
  rcases h with h | h | ⟨l, h⟩ <;> cases h

/-- A text of such a kind is one of the table. -/
theorem Lexeme.mem_operators {text : List Char} {kind : Kind} {v : Option Value} (h : Lexeme text kind v)
    (hkind : kind.Operates) : (text, kind) ∈ operators := by
  cases h with
  | operator h => exact h
  | _ => rcases hkind with h | h | ⟨l, h⟩ <;> cases h

theorem mem_operators_of_scan {source : String} {tokens : List Token} (h : scan source = .ok tokens) {op : Token}
    (hop : op ∈ tokens) (hkind : op.kind.Operates) : (op.lexeme.toList, op.kind) ∈ operators := by
  obtain ⟨ts, rfl, -, htiles⟩ := (cut_of_scan h).tiles
  rcases List.mem_append.1 hop with hop | hop
  · exact (htiles.lexeme op hop).mem_operators hkind
  · obtain rfl := List.mem_singleton.1 hop
    exact absurd rfl hkind.ne_endOfInput

end Token

namespace Expr

theorem operates_of_fits {e : Expr} (h : e.Fits) {op : Token} (hop : e.operator? = some op) : op.kind.Operates := by
  cases e with
  | unary op' operand =>
    obtain ⟨⟨t, rfl, hkind⟩, -⟩ := h
    cases hop
    exact hkind.imp_right .inl
  | binary op' left right =>
    obtain ⟨t, l, rfl, hkind, -⟩ := h
    cases hop
    exact .inr (.inr ⟨l, hkind⟩)
  | _ => cases hop

/-- **What is read is known** to evaluations: every node is one of the grammar, with an operator of the table. -/
theorem known_of_ofText {source : String} {e : Expr} (h : ofText source = .ok e) : e.Everywhere Known := by
  obtain ⟨tokens, hscan, hparse⟩ := ofText_eq_ok h
  obtain ⟨hfits, -, hspelled⟩ := ofTokens_sound hparse
  intro d hd
  refine ⟨hfits d hd, fun op hop => ?_⟩
  have hmem : op ∈ tokens := List.takeWhile_subset _ (operators_of_spelled hspelled d hd op hop)
  exact Fault.mem_subjects_of_operator (mem_operators_of_scan hscan hmem (operates_of_fits (hfits d hd) hop))

theorem fits_of_ofText {source : String} {e : Expr} (h : ofText source = .ok e) : e.Everywhere Fits :=
  fun d hd => (known_of_ofText h d hd).fits

end Expr

/-! ### Messages -/

/-- A text begins with another. -/
def StartsWith (lead text : String) : Prop := lead.toList <+: text.toList

namespace StartsWith

variable {lead lead' text : String}

theorem refl (text : String) : StartsWith text text := List.prefix_refl _

theorem append (h : StartsWith lead text) (rest : String) : StartsWith lead (text ++ rest) := by
  unfold StartsWith
  rw [String.toList_append]
  exact List.IsPrefix.trans h (List.prefix_append _ _)

/-- Of two texts that a third begins with, one begins with the other. -/
theorem total (h : StartsWith lead text) (h' : StartsWith lead' text) : StartsWith lead lead' ∨ StartsWith lead' lead :=
  List.prefix_or_prefix_of_prefix h h'

end StartsWith

instance (lead text : String) : Decidable (StartsWith lead text) :=
  inferInstanceAs (Decidable (lead.toList <+: text.toList))

namespace Fault

/-- What the messages of ordinary faults begin with. -/
def leads : List String :=
  subjects ++ [Role.count, .faces, .target, .poolEntry, .poolTarget].map ("Dice " ++ ·.text) ++
    ["Dice must have at least one face, got ", "Context does not contain key '", "Unsupported context value of type ",
      "Function call without a name", "Unknown function '"]

theorem exists_lead {cause : Fault} (h : cause.Ordinary) : ∃ lead ∈ leads, StartsWith lead cause.message := by
  have hsubject {what : String} (hwhat : what ∈ subjects) : what ∈ leads :=
    List.mem_append_left _ (List.mem_append_left _ hwhat)
  cases cause with
  | notNumber what got => exact ⟨what, hsubject h, ((StartsWith.refl what).append _).append _⟩
  | notFinite what x => exact ⟨what, hsubject h, ((StartsWith.refl what).append _).append _⟩
  | wrongArity what expected got =>
    exact ⟨what, hsubject h, (((((StartsWith.refl what).append _).append _).append _).append _).append _⟩
  | fewArguments what least got =>
    exact ⟨what, hsubject h, ((((StartsWith.refl what).append _).append _).append _).append _⟩
  | roleNotNumber role got =>
    refine ⟨"Dice " ++ role.text, ?_, ((StartsWith.refl _).append _).append _⟩
    refine List.mem_append_left _ (List.mem_append_right _ (List.mem_map_of_mem ?_))
    cases role <;> decide
  | noFaces faces => exact ⟨_, by decide, (StartsWith.refl "Dice must have at least one face, got ").append _⟩
  | missingKey key => exact ⟨_, by decide, ((StartsWith.refl "Context does not contain key '").append _).append _⟩
  | unsupportedData kind => exact ⟨_, by decide, (StartsWith.refl "Unsupported context value of type ").append _⟩
  | namelessCall => exact ⟨_, by decide, StartsWith.refl "Function call without a name"⟩
  | unknownFunction key => exact ⟨_, by decide, ((StartsWith.refl "Unknown function '").append _).append _⟩
  | _ => cases h

end Fault

namespace Failure

/-- What the messages of internal errors begin with. -/
def internalLeads : List String :=
  ["Unsupported node type ", "Unsupported unary operator '", "Unknown operator ", "Dice modifier '",
    "Unknown dice modifier '", "Dice pool modifier '", "Unknown dice pool modifier '"]

/-- The failure says that an evaluation met a node it does not know. -/
def Internal (failure : Failure) : Prop := ∃ lead ∈ internalLeads, StartsWith lead failure.message

/-- What the messages of failures begin with that are not internal. -/
def leads : List String := Fault.leads ++ ["int too large to convert to float", "no roll left for d"]

theorem not_internal_of_lead {failure : Failure} {lead : String} (hmem : lead ∈ leads)
    (h : StartsWith lead failure.message) : ¬ failure.Internal := by
  have hapart : ∀ internal ∈ internalLeads, ∀ lead ∈ leads,
      ¬ StartsWith internal lead ∧ ¬ StartsWith lead internal := by decide +kernel
  rintro ⟨internal, hinternal, h'⟩
  obtain ⟨hnot, hnot'⟩ := hapart internal hinternal lead hmem
  rcases h'.total h with h | h
  · exact hnot h
  · exact hnot' h

theorem not_internal_of_arises {e : Expr} {context : Context} {failure : Failure} {t : Table}
    (h : Arises e context failure t) : ¬ failure.Internal := by
  have hoverflow : ¬ Internal .overflow :=
    @not_internal_of_lead .overflow "int too large to convert to float" (by decide) (.refl _)
  cases h with
  | @fault cause place t h =>
    obtain ⟨lead, hmem, hlead⟩ := Fault.exists_lead h
    refine not_internal_of_lead (List.mem_append_left _ hmem) ?_
    cases place with
    | none => exact hlead
    | some place => exact ((hlead.append _).append _).append _
  | datum h => exact hoverflow
  | total h => exact hoverflow
  | outOfRolls => exact not_internal_of_lead (by decide) ((StartsWith.refl "no roll left for d").append _)

end Failure

/-! ### Forms -/

namespace Form

/-- Every part of a form can be walked and printed; for the debug form alone a number of the context may be too
large. -/
structure Presentable (form : Form) : Prop where
  children : ∀ d : Expr, d.PartOf form.expr → ∃ es, d.children = .ok es
  walk : ∀ d : Expr, d.PartOf form.expr → ∃ ds, d.walk = .ok ds
  rolled : ∀ d : Expr, d.PartOf form.expr → ∃ s, d.rolledText form.sheet = .ok s
  prefixed : ∀ d : Expr, d.PartOf form.expr → ∀ context : Context,
    FailsOnly context.Unprinted (d.prefixText form.sheet context)

theorem presentable {e : Expr} (h : e.Everywhere Expr.Fits) (sheet : Sheet) : Presentable ⟨e, sheet⟩ where
  children _ hd := Expr.exists_children (h _ hd)
  walk _ hd := Expr.exists_walk (h.of_partOf hd)
  rolled _ hd := Expr.exists_rolledText (h.of_partOf hd) sheet
  prefixed _ hd context := Expr.prints_prefixText (h.of_partOf hd) sheet context

/-- What an evaluation of a form that was read fails for. -/
theorem arises_of_evaluate {source : String} {form : Form} (hread : Expr.ofText source = .ok form.expr)
    {context : Context} {script : List Int} {failure : Failure} {table : Table}
    (h : form.evaluate ⟨context, .standard⟩ script = (.error failure, table)) :
    Arises form.expr context failure table :=
  Expr.evaluate_arises (Expr.known_of_ofText hread) context _ failure table h

/-- **What is read stays within what evaluations and printers know.** However often a form has been evaluated, on
whatever contexts and scripts and with whatever outcome, the next evaluation does not fail with an internal error, and
before and after it every part of the form can be walked and printed. -/
theorem stays_known {source : String} {form : Form} (h : ofText source = .ok form)
    (history : List (Context × List Int)) (context : Context) (script : List Int) :
    let later := form.afterAll .standard history
    let played := later.evaluate ⟨context, .standard⟩ script
    later.Presentable ∧ (∀ failure, played.1 = .error failure → ¬ failure.Internal) ∧
      Presentable { later with sheet := played.2.sheet } := by
  intro later played
  have hread : Expr.ofText source = .ok later.expr := by
    rw [expr_afterAll]
    exact expr_of_ofText h
  have hfits := Expr.fits_of_ofText hread
  refine ⟨presentable hfits later.sheet, fun failure hfailure => ?_, presentable hfits played.2.sheet⟩
  exact Failure.not_internal_of_arises (arises_of_evaluate hread (Prod.ext hfailure rfl))

theorem stays_known_nested :
    let source := "!(@hero.level >= 5) ? -{2d6!>=5, floor(@bonus)}kh2 : 4d@sides cs / 2 % min(1, 1.5)"
    ∃ form, ofText source = .ok form ∧
      let later := form.afterAll .standard [([], []), ([("hero.level", .int 4), ("bonus", .null)], [6, 2, 3])]
      let played := later.evaluate ⟨[("hero.level", .bool true)], .standard⟩ [1]
      later.Presentable ∧ (∀ failure, played.1 = .error failure → ¬ failure.Internal) ∧
        Presentable { later with sheet := played.2.sheet } := by
  intro source
  have hok : (ofText source).isOk = true := by decide +kernel
  cases h : ofText source with
  | error e => rw [h] at hok; cases hok
  | ok form => exact ⟨form, rfl, stays_known h _ _ _⟩

end Form

end DiceNotation
