import DiceNotation.Proofs.Descent
import Mathlib.Data.List.TakeWhile

/-!
The rules without bounds beside those with them, step by step.

What stands from the first end of input on makes no difference but for the token that it begins with, which an error may
tell. So the comparison is made with another ending: at a cursor the rule with its bound does what the program does
where the tokens from the end of input on are replaced. What keeps the bound from mattering is how many tokens are
`left`.
-/

namespace DiceNotation

open Token

namespace Rule

/-- Behind all tokens of a kind stands another one. -/
theorem current_of_nextAll {c c' : Cursor} {kind : Kind} {ts : List Token} (hk : kind ≠ .endOfInput)
    (h : nextAll kind c = .ok (ts, c')) : c'.current.kind ≠ kind := by
  cases h
  rcases c with ⟨passed, ahead⟩
  show nextKind (ahead.drop (ahead.takeWhile (·.kind == kind)).length) ≠ kind
  induction ahead with
  | nil => exact hk.symm
  | cons t ahead ih =>
    by_cases ht : t.kind = kind
    · simpa [ht] using ih
    · simp [ht]

theorem sees_other {c : Cursor} {kinds : List Kind} (h : c.current.kind ∉ kinds) : sees kinds c = .ok (false, c) := by
  have hb : kinds.contains c.current.kind = false := by simpa using h
  show Except.ok (kinds.contains c.current.kind, c) = _
  rw [hb]

theorem seesDice_other {c : Cursor} (h : c.current.kind ≠ .name) : seesDice c = .ok (false, c) := by
  show Except.ok (decide _ && _, _) = _
  rw [decide_eq_false h]
  rfl

end Rule

/-! ### Endings -/

namespace Token

/-- The tokens from the first end of input on. -/
def ending (ts : List Token) : List Token := ts.dropWhile (·.kind ≠ .endOfInput)

/-- The tokens before the first end of input. -/
def content (ts : List Token) : List Token := ts.takeWhile (·.kind ≠ .endOfInput)

/-- An end of input in another ending is that ending's own. -/
def endedBy (t : Token) (tail : List Token) : Token := if t.kind = .endOfInput then tail.headD (endAt 0) else t

variable {t : Token} {ts us tail : List Token}

theorem content_append_ending (ts : List Token) : content ts ++ ending ts = ts := List.takeWhile_append_dropWhile

theorem kind_ne_of_mem_content (h : t ∈ content ts) : t.kind ≠ .endOfInput := by
  simpa using List.mem_takeWhile_imp h

theorem content_append (h : ∀ t ∈ ts, t.kind ≠ .endOfInput) (us : List Token) :
    content (ts ++ us) = ts ++ content us := List.takeWhile_append_of_pos (by simpa using h)

theorem ending_append (h : ∀ t ∈ ts, t.kind ≠ .endOfInput) (us : List Token) : ending (ts ++ us) = ending us :=
  List.dropWhile_append_of_pos (by simpa using h)

theorem nextKind_ending (ts : List Token) : nextKind (ending ts) = .endOfInput := by
  induction ts with
  | nil => rfl
  | cons t ts ih =>
    by_cases h : t.kind = .endOfInput
    · rw [ending, List.dropWhile_cons_of_neg (by simpa using h), nextKind_cons, h]
    · rw [ending, List.dropWhile_cons_of_pos (by simpa using h)]
      exact ih

theorem content_eq_nil (h : nextKind tail = .endOfInput) : content tail = [] := by
  cases tail with
  | nil => rfl
  | cons t ts => exact List.takeWhile_cons_of_neg (by simpa using h)

theorem kind_endedBy (ht : nextKind tail = .endOfInput) (t : Token) : (t.endedBy tail).kind = t.kind := by
  unfold endedBy
  split
  · next h => exact ht.trans h.symm
  · rfl

theorem endedBy_of_ne (h : t.kind ≠ .endOfInput) (tail : List Token) : t.endedBy tail = t := if_neg h

namespace Cursor

variable {c c' : Cursor}

/-- How many tokens are left before the first end of input. -/
def left (c : Cursor) : Nat := (content c.ahead).length

/-- The end of input that the cursor will come to. -/
def last (c : Cursor) : Token := (ending c.ahead).headD (endAt 0)

/-- All tokens before that end of input. -/
def within (c : Cursor) : List Token := c.passed.reverse ++ content c.ahead

/-- A token before that end of input, or that end itself. -/
def Tells (c : Cursor) (t : Token) : Prop := t ∈ c.within ∧ t.kind ≠ .endOfInput ∨ t = c.last

/-- The same place, with another ending. -/
def endedBy (c : Cursor) (tail : List Token) : Cursor := ⟨c.passed, content c.ahead ++ tail⟩

theorem endedBy_self (c : Cursor) : c.endedBy (ending c.ahead) = c := by
  rw [endedBy, content_append_ending]

namespace Passes

theorem ending_eq (h : Passes c ts c') : ending c'.ahead = ending c.ahead := by
  rw [h.ahead, ending_append h.inner]

theorem left_eq (h : Passes c ts c') : c.left = ts.length + c'.left := by
  rw [left, h.ahead, content_append h.inner, List.length_append]
  rfl

theorem left_le (h : Passes c ts c') : c'.left ≤ c.left := by
  rw [h.left_eq]
  exact Nat.le_add_left _ _

theorem left_le_of_ne {n : Nat} (h : Passes c ts c') (hne : ts ≠ []) (hn : c.left ≤ n + 1) : c'.left ≤ n := by
  have hleft := h.left_eq
  have hpos : 0 < ts.length := List.length_pos_iff.2 hne
  omega

theorem last_eq (h : Passes c ts c') : c'.last = c.last := by rw [last, h.ending_eq, last]

theorem within_eq (h : Passes c ts c') : c'.within = c.within := by
  rw [within, within, h.passed, h.ahead, content_append h.inner]
  simp

end Passes

theorem Passes.tells_iff (h : Passes c ts c') : c'.Tells t ↔ c.Tells t := by
  rw [Tells, Tells, h.within_eq, h.last_eq]

theorem current_eq_last (h : c.current.kind = .endOfInput) : c.current = c.last := by
  rcases c with ⟨passed, _ | ⟨t, ahead⟩⟩
  · rfl
  · have ht : t.kind = .endOfInput := h
    simp [current, last, ending, ht]

theorem tells_current (c : Cursor) : c.Tells c.current := by
  by_cases h : c.current.kind = .endOfInput
  · exact .inr (current_eq_last h)
  · have hp := passes_advance h
    refine .inl ⟨?_, h⟩
    rw [← hp.within_eq, within, hp.passed]
    simp

theorem kind_of_left (h : c.left ≤ 0) : c.current.kind = .endOfInput := by
  by_contra hkind
  have hleft := (passes_advance hkind).left_eq
  simp only [List.length_cons] at hleft
  omega

theorem advance_of_end (h : c.current.kind = .endOfInput) : c.advance = c := by
  rcases c with ⟨passed, _ | ⟨t, ahead⟩⟩
  · rfl
  · exact if_pos h

theorem endedBy_of_end (h : c.current.kind = .endOfInput) (tail : List Token) : c.endedBy tail = ⟨c.passed, tail⟩ := by
  rw [endedBy, content_eq_nil h, List.nil_append]

theorem Passes.endedBy (h : Passes c ts c') (tail : List Token) : Passes (c.endedBy tail) ts (c'.endedBy tail) where
  ahead := by rw [Cursor.endedBy, h.ahead, content_append h.inner, List.append_assoc, Cursor.endedBy]
  passed := h.passed
  inner := h.inner

variable (tail)

theorem current_endedBy (c : Cursor) : (c.endedBy tail).current = c.current.endedBy tail := by
  by_cases h : c.current.kind = .endOfInput
  · rw [endedBy_of_end h, Token.endedBy, if_pos h, current]
  · rw [endedBy_of_ne h, current, ((passes_advance h).endedBy tail).ahead]
    rfl

variable {tail} (ht : nextKind tail = .endOfInput)

include ht

theorem kind_current_endedBy (c : Cursor) : (c.endedBy tail).current.kind = c.current.kind := by
  rw [current_endedBy, kind_endedBy ht]

theorem sees_endedBy (c : Cursor) (kinds : List Kind) : (c.endedBy tail).sees kinds = c.sees kinds := by
  rw [sees, sees, kind_current_endedBy ht]

theorem advance_endedBy (c : Cursor) : (c.endedBy tail).advance = c.advance.endedBy tail := by
  by_cases h : c.current.kind = .endOfInput
  · rw [advance_of_end h, advance_of_end ((kind_current_endedBy ht c).trans h)]
  · rcases c with ⟨passed, _ | ⟨t, ahead⟩⟩
    · exact absurd rfl h
    · have hkind : t.kind ≠ .endOfInput := h
      simp [endedBy, advance, content, hkind]

end Cursor

end Token

def ParseError.endedBy (e : ParseError) (tail : List Token) : ParseError := { e with token := e.token.endedBy tail }

open Token.Cursor

namespace Descent

variable {α β γ : Type} {c c' : Cursor} {tail : List Token} {t : Token}

/-- The end of a program, in another ending. -/
def retail (tail : List Token) (r : Except ParseError (α × Cursor)) : Except ParseError (α × Cursor) :=
  (r.mapError (·.endedBy tail)).map fun r => (r.1, r.2.endedBy tail)

/-- At most so many tokens are left, and the other ending begins with an end of input of the same text. -/
structure Fits (tail : List Token) (n : Nat) (c : Cursor) : Prop where
  left : c.left ≤ n
  kind : nextKind tail = .endOfInput
  lexeme : (tail.headD (endAt 0)).lexeme = c.last.lexeme

namespace Fits

variable {n : Nat} {ts : List Token}

theorem weaken (h : Fits tail n c) : Fits tail (n + 1) c := { h with left := Nat.le_succ_of_le h.left }

theorem after (h : Fits tail n c) (hp : Passes c ts c') : Fits tail n c' :=
  ⟨Nat.le_trans hp.left_le h.left, h.kind, by rw [hp.last_eq, h.lexeme]⟩

theorem behind (h : Fits tail (n + 1) c) (hp : Passes c ts c') (hne : ts ≠ []) : Fits tail n c' :=
  { h.after hp with left := hp.left_le_of_ne hne h.left }

theorem lexeme_current (h : Fits tail n c) : (c.current.endedBy tail).lexeme = c.current.lexeme := by
  rw [Token.endedBy]
  split
  · next hkind => rw [h.lexeme, current_eq_last hkind]
  · rfl

end Fits

/-- Where an expression has been read, a token has been passed. -/
theorem Fits.of_reads {n : Nat} {l : Level} {e : Expr} (h : Fits tail (n + 1) c) (hr : Rule.Reads l c e c') :
    Fits tail n c' := by
  obtain ⟨ts, hp, hs⟩ := hr.spelled
  exact h.behind hp hs.ne_nil

/-- At the cursor the rule with its bound does what the program does in another ending. -/
structure Agrees (tail : List Token) (c : Cursor) (y : Descent α) (x : Rule α) : Prop where
  ends : Stops y (c.endedBy tail) (retail tail (x c))
  passes : ∀ ⦃a c'⦄, x c = .ok (a, c') → ∃ ts, Passes c ts c'
  tells : ∀ ⦃e⦄, x c = .error e → c.Tells e.token

theorem Stops.of_eq {x : Step α} {r : Except ParseError (α × Cursor)} (h : x.run c = r) : Stops (.step x) c r :=
  h ▸ .step x c

namespace Agrees

theorem give (tail : List Token) (c : Cursor) (a : α) : Agrees tail c (pure a) (pure a) where
  ends := .give a _
  passes _ _ h := by
    cases h
    exact ⟨[], .refl c⟩
  tells _ h := by cases h

theorem bind {y : Descent α} {x : Rule α} {g : α → Descent β} {f : α → Rule β} (h : Agrees tail c y x)
    (hk : ∀ a c' ts, x c = .ok (a, c') → Passes c ts c' → Agrees tail c' (g a) (f a)) :
    Agrees tail c (y >>= g) (x >>= f) := by
  have hends := h.ends
  cases hx : x c with
  | error e =>
    have hbind : (x >>= f) c = .error e := by
      show (x c >>= fun r => f r.1 r.2) = _
      rw [hx]
      rfl
    rw [hx] at hends
    refine ⟨?_, fun a c' h => ?_, fun e' h' => ?_⟩
    · rw [hbind]
      exact .error hends
    · rw [hbind] at h
      cases h
    · rw [hbind] at h'
      cases h'
      exact h.tells hx
  | ok r =>
    obtain ⟨a, c'⟩ := r
    obtain ⟨ts, hp⟩ := h.passes hx
    have hrest := hk a c' ts hx hp
    have hbind : (x >>= f) c = f a c' := Rule.bind_ok hx
    rw [hx] at hends
    refine ⟨?_, fun b c'' h' => ?_, fun e h' => ?_⟩
    · rw [hbind]
      exact .andThen hends hrest.ends
    · rw [hbind] at h'
      obtain ⟨us, hq⟩ := hrest.passes h'
      exact ⟨ts ++ us, hp.trans hq⟩
    · rw [hbind] at h'
      exact hp.tells_iff.1 (hrest.tells h')

theorem read {y : Nonterminal α} {x : Rule α} (h : Agrees tail c (ofNonterminal y) x) :
    Agrees tail c (.read y) x :=
  { h with ends := .read h.ends }

/-! ### Steps -/

theorem get {y : Descent α} {f : Cursor → Rule α} (h : Agrees tail c y (f c)) : Agrees tail c y (MonadState.get >>= f) :=
  { h with }

/-- The program looks at what the rule knows. -/
theorem peek {x : Step α} {g : α → Descent β} {z : Rule β} {a : α}
    (hx : x.run (c.endedBy tail) = .ok (a, c.endedBy tail)) (h : Agrees tail c (g a) z) :
    Agrees tail c (step x >>= g) z :=
  { h with ends := .andThen (.of_eq hx) h.ends }

theorem current {g : Token → Descent α} {z : Rule α} (h : Agrees tail c (g (c.current.endedBy tail)) z) :
    Agrees tail c (step .current >>= g) z :=
  peek (by rw [← current_endedBy]; rfl) h

theorem fail (cause : ParseError.Cause) {t' : Token} (ht : t' = t.endedBy tail) (h : c.Tells t) :
    Agrees tail c (.fail cause t' : Descent α) (Rule.fail cause t) where
  ends := by
    rw [ht]
    exact .fail ..
  passes _ _ h := by cases h
  tells _ h' := by
    cases h'
    exact h

/-- A step of the program that stays at the cursor and that the rule does not take. -/
theorem stay {y : Descent α} {x : Rule α} {g : α → Descent β} {z : Rule β} {a : α} (h : Agrees tail c y x)
    (hx : x c = .ok (a, c)) (hz : Agrees tail c (g a) z) : Agrees tail c (y >>= g) z := by
  have hends := h.ends
  rw [hx] at hends
  exact { hz with ends := .andThen hends hz.ends }

variable {n : Nat} (hf : Fits tail n c)

include hf

theorem sees (kinds : List Kind) : Agrees tail c (step (.sees kinds)) (Rule.sees kinds) where
  ends := by
    refine .of_eq ?_
    show Except.ok ((c.endedBy tail).sees kinds, c.endedBy tail) = _
    rw [sees_endedBy hf.kind]
    rfl
  passes _ _ h := by
    cases h
    exact ⟨[], .refl c⟩
  tells _ h := by cases h

theorem seesDice : Agrees tail c seesDice Rule.seesDice := by
  refine current ?_
  show Agrees tail c (.give (decide ((c.current.endedBy tail).kind = .name) &&
    ["d", "D"].contains (c.current.endedBy tail).lexeme)) _
  rw [kind_endedBy hf.kind, hf.lexeme_current]
  exact get (get (give ..))

theorem next (h : c.current.kind ≠ .endOfInput) : Agrees tail c (step .next) Rule.next where
  ends := by
    refine .of_eq ?_
    show Except.ok ((c.endedBy tail).current, (c.endedBy tail).advance) = _
    rw [current_endedBy, endedBy_of_ne h, advance_endedBy hf.kind]
    rfl
  passes _ _ h' := by
    cases h'
    exact ⟨_, passes_advance h⟩
  tells _ h := by cases h

section

variable {kind : Kind} (hkind : kind ≠ .endOfInput)

include hkind

theorem skip : Agrees tail c (step (.skip kind)) (Rule.skip [kind]) where
  ends := by
    refine .of_eq ?_
    show Except.ok (if (c.endedBy tail).sees [kind] then _ else _) = retail tail (.ok (if c.sees [kind] then _ else _))
    rw [sees_endedBy hf.kind, advance_endedBy hf.kind]
    split <;> rfl
  passes a c' h := by
    rcases Rule.skip_eq_ok hkind h with ⟨-, t, -, hp⟩ | ⟨-, rfl⟩
    · exact ⟨_, hp⟩
    · exact ⟨[], .refl _⟩
  tells _ h := by cases h

theorem expect (hint : String) : Agrees tail c (step (.expect kind hint)) (Rule.expect kind hint) where
  ends := by
    refine .of_eq ?_
    show (if (c.endedBy tail).sees [kind] then _ else _) = retail tail (if c.sees [kind] then _ else _)
    rw [sees_endedBy hf.kind, advance_endedBy hf.kind, kind_current_endedBy hf.kind, current_endedBy]
    split
    · next h =>
      rw [endedBy_of_ne (Rule.sees_iff.1 h ▸ hkind)]
      rfl
    · rfl
  passes a c' h := ⟨_, (Rule.expect_eq_ok hkind h).2⟩
  tells e h := by
    change (if c.sees [kind] then _ else _) = _ at h
    split at h
    · cases h
    · cases h
      exact tells_current c

end

theorem names : Agrees tail c (step .names) (Rule.nextAll .name) where
  ends := by
    obtain ⟨words, c', hx⟩ : ∃ words c', Rule.nextAll .name c = .ok (words, c') := ⟨_, _, rfl⟩
    obtain ⟨hwords, hp⟩ := Rule.nextAll_eq_ok (by decide) hx
    have hother : nextKind (c'.endedBy tail).ahead ≠ .name := by
      have hsame : nextKind (c'.endedBy tail).ahead = c'.current.kind := kind_current_endedBy hf.kind c'
      rw [hsame]
      exact Rule.current_of_nextAll (by decide) hx
    have hq := hp.endedBy tail
    refine .of_eq ?_
    rw [hx]
    show Rule.nextAll .name ⟨c.passed, (c.endedBy tail).ahead⟩ = .ok (words, c'.endedBy tail)
    rw [hq.ahead, Rule.nextAll_ok hwords hother]
    rw [← show (c'.endedBy tail).passed = words.reverse ++ c.passed from hq.passed]
  passes a c' h := ⟨_, (Rule.nextAll_eq_ok (by decide) h).2⟩
  tells _ h := by cases h

theorem label : Agrees tail c label Rule.label := by
  refine (skip hf (by decide)).bind fun b c₁ ts h₁ hp₁ => ?_
  cases b with
  | false => exact give ..
  | true =>
    have hf₁ := hf.after hp₁
    refine (names hf₁).bind fun words c₂ us h₂ hp₂ => ?_
    refine (expect (hf₁.after hp₂) (by decide) _).bind fun closer c₃ vs h₃ hp₃ => ?_
    exact give ..

theorem labelIf (labelled : Bool) : Agrees tail c (labelIf labelled) (Rule.labelIf labelled) := by
  cases labelled with
  | true => exact label hf
  | false => exact give ..

end Agrees

end Descent

end DiceNotation
