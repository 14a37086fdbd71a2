import DiceNotation.Form
import DiceNotation.Proofs.Rules

/-!
What a whole text reads to.

The scanner closes its tokens with one end of input and puts none before, and the parser passes everything up to that
end. So the tokens of a text, but for the last, are a spelling of the expression that it reads to.

Main statements: `Expr.ofTokens_sound` and `Expr.ofText_sound`.
-/

namespace DiceNotation

open Token

/-! ### Tokens of a text -/

namespace Token

/-- Tokens closed by an end of input, with none before it. -/
def Closed (tokens : List Token) : Prop :=
  ∃ ts last, tokens = ts ++ [last] ∧ last.kind = .endOfInput ∧ ∀ t ∈ ts, t.kind ≠ .endOfInput

theorem Closed.cons {t : Token} {tokens : List Token} (ht : t.kind ≠ .endOfInput) (h : Closed tokens) :
    Closed (t :: tokens) := by
  obtain ⟨ts, last, rfl, hl, hts⟩ := h
  exact ⟨t :: ts, last, rfl, hl, List.forall_mem_cons.2 ⟨ht, hts⟩⟩

theorem kind_of_leading {c : Char} {rest : List Char} {kind : Kind} {n : Nat}
    (h : leading? c rest = some (kind, n)) : kind ≠ .endOfInput := by
  have hoperators : ∀ p ∈ operators, p.2 ≠ .endOfInput := by decide
  unfold leading? at h
  split at h
  · cases h; decide
  split at h
  · cases h; decide
  split at h
  · cases h
    unfold wordKind
    split
    · decide
    · split <;> decide
  · obtain ⟨p, hp, hpk⟩ := Option.map_eq_some_iff.1 h
    cases hpk
    exact hoperators p (List.mem_of_find?_eq_some hp)

theorem closed_of_scanFrom {column : Nat} {cs : List Char} {tokens : List Token}
    (h : scanFrom column cs = .ok tokens) : Closed tokens := by
  induction hn : cs.length using Nat.strongRecOn generalizing column cs tokens with
  | ind n ih =>
    cases cs with
    | nil =>
      rw [scanFrom] at h
      cases h
      exact ⟨[], endAt column, rfl, rfl, fun _ h => by cases h⟩
    | cons c rest =>
      rw [scanFrom] at h
      by_cases hs : isSpace c = true
      · rw [if_pos hs] at h
        exact ih rest.length (by simp [← hn]) h rfl
      · rw [if_neg hs] at h
        cases hl : leading? c rest with
        | none => rw [hl] at h; cases h
        | some found =>
          obtain ⟨kind, m⟩ := found
          rw [hl] at h
          dsimp only at h
          cases hlater : scanFrom (column + 1 + m) (rest.drop m) with
          | error e => rw [hlater] at h; cases h
          | ok later =>
            rw [hlater] at h
            cases h
            refine .cons (kind_of_leading hl) (ih (rest.drop m).length ?_ hlater rfl)
            simp only [List.length_drop, List.length_cons] at hn ⊢
            omega

/-- The tokens of a text end with the only end of input among them. -/
theorem closed_of_scan {source : String} {tokens : List Token} (h : scan source = .ok tokens) : Closed tokens :=
  closed_of_scanFrom h

end Token

/-! ### Whole inputs -/

namespace Expr

/-- An expression is read from the tokens before the first end of input: they spell it, every node is one of the
grammar, and the slots are all different. -/
theorem ofTokens_sound {tokens : List Token} {e : Expr} (h : ofTokens tokens = .ok e) :
    e.Everywhere Fits ∧ e.slots.Nodup ∧ Spelled .free e (tokens.takeWhile (·.kind ≠ .endOfInput)) := by
  have hr : ∃ cursor, Rule.expr tokens.length (.start tokens) = .ok (e, cursor) ∧
      cursor.sees [.endOfInput] = true := by
    unfold ofTokens at h
    cases hx : Rule.expr tokens.length (.start tokens) with
    | error e => rw [hx] at h; cases h
    | ok r =>
      obtain ⟨e', cursor⟩ := r
      rw [hx] at h
      change (if cursor.sees [.endOfInput] then _ else _) = _ at h
      by_cases hend : cursor.sees [.endOfInput] = true
      · rw [if_pos hend] at h
        cases h
        exact ⟨cursor, rfl, hend⟩
      · rw [if_neg hend] at h
        cases h
  obtain ⟨cursor, hx, hend⟩ := hr
  have hread := Rule.reads_expr _ hx
  obtain ⟨ts, hp, hs⟩ := hread.spelled
  have htokens : tokens = ts ++ cursor.ahead := hp.ahead
  have hrest : cursor.ahead.takeWhile (·.kind ≠ .endOfInput) = [] := by
    have hkind := Rule.sees_iff.1 hend
    unfold Cursor.current at hkind
    cases hahead : cursor.ahead with
    | nil => rfl
    | cons t rest =>
      rw [hahead] at hkind
      have ht : t.kind = .endOfInput := hkind
      simp [ht]
  have hts : tokens.takeWhile (·.kind ≠ .endOfInput) = ts := by
    rw [htokens, List.takeWhile_append_of_pos, hrest, List.append_nil]
    simpa using hp.inner
  exact ⟨hread.fits, hread.slots.nodup, hts ▸ hs⟩

theorem ofText_eq_ok {source : String} {e : Expr} (h : ofText source = .ok e) :
    ∃ tokens, Token.scan source = .ok tokens ∧ ofTokens tokens = .ok e := by
  unfold ofText at h
  cases hscan : Token.scan source with
  | error e => rw [hscan] at h; cases h
  | ok tokens =>
    rw [hscan] at h
    dsimp only at h
    cases hparse : ofTokens tokens with
    | error e => rw [hparse] at h; cases h
    | ok e' => rw [hparse] at h; cases h; exact ⟨tokens, rfl, hparse⟩

/-- **Parsing is sound.** A text that reads to an expression has been cut into tokens which, but for the end of input,
spell that expression in their order, and every node of the expression has its parts on the levels of the grammar. -/
theorem ofText_sound {source : String} {e : Expr} (h : ofText source = .ok e) :
    e.Everywhere Fits ∧ ∃ ts last, Token.scan source = .ok (ts ++ [last]) ∧ last.kind = .endOfInput ∧
      (∀ t ∈ ts, t.kind ≠ .endOfInput) ∧ Spelled .free e ts := by
  obtain ⟨tokens, hscan, hparse⟩ := ofText_eq_ok h
  obtain ⟨ts, last, rfl, hl, hts⟩ := closed_of_scan hscan
  obtain ⟨hfits, -, hs⟩ := ofTokens_sound hparse
  have htake : (ts ++ [last]).takeWhile (·.kind ≠ .endOfInput) = ts := by
    rw [List.takeWhile_append_of_pos (by simpa using hts)]
    simp [hl]
  exact ⟨hfits, ts, last, hscan, hl, hts, htake ▸ hs⟩

theorem ofText_sound_nested :
    let source := "-(1 + 2)d@f cs[hp]D6x>=(4)[a] == 2 ? !true : {1, 2d4}dl"
    ∃ e, ofText source = .ok e ∧ e.Everywhere Fits ∧ ∃ ts last, Token.scan source = .ok (ts ++ [last]) ∧
      last.kind = .endOfInput ∧ (∀ t ∈ ts, t.kind ≠ .endOfInput) ∧ Spelled .free e ts := by
  intro source
  have hok : (ofText source).isOk = true := by decide +kernel
  cases h : ofText source with
  | error failure => rw [h] at hok; cases hok
  | ok e => exact ⟨e, rfl, ofText_sound h⟩

end Expr

namespace Form

theorem expr_of_ofText {source : String} {form : Form} (h : ofText source = .ok form) :
    Expr.ofText source = .ok form.expr := by
  unfold ofText at h
  cases hread : Expr.ofText source with
  | error e =>
    rw [hread] at h
    cases h
  | ok e =>
    rw [hread] at h
    cases h
    rfl

end Form

end DiceNotation
