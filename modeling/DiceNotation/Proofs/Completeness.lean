import DiceNotation.Proofs.Rendering
import DiceNotation.Proofs.Rules

/-!
Parsing undoes rendering.

What is to be shown of an expression depends on what may follow it. `Ends` says which tokens end the expressions of a
level; at any of them every repetition of that level or a tighter one stops. A repetition grows its expression from
the left, so a chain is followed only to where its last operand has been read: `Opens` says that the rule has come to
its repetition with the chain so far to the left. Each node is shown to be read on its own level, and `Readable.of_own`
takes it from there to all looser levels.

Main statement: `Expr.ofTokens_rendering`.
-/

namespace DiceNotation

open Token

/-! ### What may follow -/

/-- The kind of the first one of the tokens ahead. -/
def nextKind (rest : List Token) : Kind := (rest.headD (endAt 0)).kind

@[simp] theorem nextKind_cons (t : Token) (rest : List Token) : nextKind (t :: rest) = t.kind := rfl

/-- The loosest level of which an expression ends before a token of the kind. -/
def Token.Kind.ends? : Kind → Option Level
  | .endOfInput | .rightParen | .rightBrace | .comma | .colon => some .choice
  | .question => some .equality
  | .equal | .unequal => some .ordering
  | .less | .lessEqual | .greater | .greaterEqual => some .term
  | .plus | .minus => some .factor
  | .star | .slash | .percent => some .dice
  | _ => none

/-- An expression of the level ends before these tokens. -/
def Ends (l : Level) (rest : List Token) : Prop := ∃ b, (nextKind rest).ends? = some b ∧ b ≤ l

namespace Level

/-- The next level. -/
def tighter : Level → Level
  | choice => equality
  | equality => ordering
  | ordering => term
  | term => factor
  | factor => dice
  | dice => sign
  | sign => call
  | call => call

/-- The operators that stand between operands on a level. -/
def operators : Level → List Kind
  | equality => [.equal, .unequal]
  | ordering => [.greater, .greaterEqual, .less, .lessEqual]
  | term => [.plus, .minus]
  | factor => [.star, .slash, .percent]
  | _ => []

variable {a b : Level}

theorem tighter_le (h : a < b) : a.tighter ≤ b := by
  cases a <;> cases b <;> revert h <;> decide

theorem le_tighter (a : Level) : a ≤ a.tighter := by
  cases a <;> decide

theorem not_tighter_le (h : a ≤ factor) : ¬a.tighter ≤ a := by
  cases a <;> revert h <;> decide

theorem eq_or_lt_of_le (h : a ≤ b) : b = a ∨ a < b := by
  cases a <;> cases b <;> revert h <;> decide

end Level

section Follow

variable {l l' : Level} {rest : List Token} {kind : Kind}

theorem Ends.mono (h : Ends l rest) (hl : l ≤ l') : Ends l' rest := by
  obtain ⟨b, hb, hle⟩ := h
  exact ⟨b, hb, Level.le_trans hle hl⟩

theorem Ends.not_mem {kinds : List Kind} (h : Ends l rest) (hk : ∀ k ∈ kinds, k.ends? = none) :
    nextKind rest ∉ kinds := by
  intro hm
  obtain ⟨b, hb, -⟩ := h
  rw [hk _ hm] at hb
  cases hb

theorem Ends.ne (h : Ends l rest) (hk : kind.ends? = none) : nextKind rest ≠ kind := by
  have hmem : nextKind rest ∉ [kind] := h.not_mem (by simpa using hk)
  simpa using hmem

theorem mem_operators_iff : kind ∈ l.operators ↔ kind.level? = some l := by
  cases l <;> cases kind <;> decide

/-- The operators of a level end the expressions of the next one, and not yet those of the level itself. -/
theorem ends?_of_level? (h : kind.level? = some l) : kind.ends? = some l.tighter := by
  cases kind <;> cases h <;> decide

theorem Ends.not_operator (h : Ends l rest) : nextKind rest ∉ l.operators := by
  intro hm
  obtain ⟨b, hb, hle⟩ := h
  have hlevel := mem_operators_iff.1 hm
  rw [ends?_of_level? hlevel] at hb
  cases hb
  exact Level.not_tighter_le (Expr.le_of_level? hlevel).2 hle

end Follow

/-! ### Steps -/

namespace Rule

variable {α β : Type} {c c' : Cursor} {p rest : List Token} {t : Token} {kind : Kind}

theorem bind_ok {x : Rule α} {f : α → Rule β} {a : α} (h : x c = .ok (a, c')) : (x >>= f) c = f a c' := by
  change (x c >>= fun r => f r.1 r.2) = _
  rw [h]
  rfl

theorem pure_ok (a : α) {q : List Token} (h : p = q) : (pure a : Rule α) ⟨p, rest⟩ = .ok (a, ⟨q, rest⟩) := by
  subst h
  rfl

theorem get_ok : (get : Rule Cursor) c = .ok (c, c) := rfl

theorem sees_ok {kinds : List Kind} {b : Bool} (h : kinds.contains (nextKind rest) = b) :
    sees kinds ⟨p, rest⟩ = .ok (b, ⟨p, rest⟩) := by
  rw [← h]
  rfl

theorem next_ok (ht : t.kind ≠ .endOfInput) : next ⟨p, t :: rest⟩ = .ok (t, ⟨t :: p, rest⟩) := by
  simp [next, Cursor.current, Cursor.advance, ht]

theorem skip_ok (ht : t.kind = kind) (hk : kind ≠ .endOfInput) :
    skip [kind] ⟨p, t :: rest⟩ = .ok (true, ⟨t :: p, rest⟩) := by
  subst ht
  simp [skip, Cursor.skip, Cursor.sees, Cursor.current, Cursor.advance, hk]

theorem skip_other (h : nextKind rest ≠ kind) : skip [kind] ⟨p, rest⟩ = .ok (false, ⟨p, rest⟩) := by
  have hs : (⟨p, rest⟩ : Cursor).sees [kind] = false := by
    simpa [Cursor.sees, Cursor.current, nextKind] using h
  simp [skip, Cursor.skip, hs]

theorem expect_ok {hint : String} (ht : t.kind = kind) (hk : kind ≠ .endOfInput) :
    expect kind hint ⟨p, t :: rest⟩ = .ok (t, ⟨t :: p, rest⟩) := by
  subst ht
  simp [expect, Cursor.expect, Cursor.sees, Cursor.current, Cursor.advance, hk]

theorem nextAll_ok {words : List Token} (hw : ∀ t ∈ words, t.kind = kind) (hr : nextKind rest ≠ kind) :
    nextAll kind ⟨p, words ++ rest⟩ = .ok (words, ⟨words.reverse ++ p, rest⟩) := by
  have hrest : rest.takeWhile (·.kind == kind) = [] := by
    cases rest with
    | nil => rfl
    | cons t rest => exact List.takeWhile_cons_of_neg (by simpa [nextKind] using hr)
  have hrun : (words ++ rest).takeWhile (·.kind == kind) = words := by
    rw [List.takeWhile_append_of_pos (by simpa using hw), hrest, List.append_nil]
  simp [nextAll, hrun]

theorem label_ok {label : Option String} {ls : List Token} (h : Labels label ls)
    (hr : label = none → nextKind rest ≠ .leftBracket) :
    Rule.label ⟨p, ls ++ rest⟩ = .ok (label, ⟨ls.reverse ++ p, rest⟩) := by
  cases h with
  | absent => exact bind_ok (skip_other (hr rfl))
  | @words opener closer words ho hw hc =>
    have hts : opener :: (words ++ [closer]) ++ rest = opener :: (words ++ closer :: rest) := by simp
    rw [hts]
    refine (bind_ok (skip_ok ho (by decide))).trans ?_
    refine (bind_ok (nextAll_ok hw (by simp [hc]))).trans ?_
    refine (bind_ok (expect_ok hc (by decide))).trans ?_
    exact pure_ok _ (by simp)

/-! ### What a rule does with a rendering -/

/-- The rule reads an expression like `e` from the tokens, whatever stands before them, if the others follow. -/
def Parses (x : Rule Expr) (e : Expr) (ts rest : List Token) : Prop :=
  ∀ p, ∃ e', x ⟨p, ts ++ rest⟩ = .ok (e', ⟨ts.reverse ++ p, rest⟩) ∧ e'.forgetSlots = e.forgetSlots

/-- The rule, behind the tokens, has come to its repetition with an expression like `e` to the left, and with as much
of the bound left as the tokens not yet read may need. -/
def Opens (x : Rule Expr) (chain : Nat → Expr → Rule Expr) (n : Nat) (e : Expr) (ts rest : List Token) : Prop :=
  ∀ p, ∃ m e', n < m + ts.length ∧ e'.forgetSlots = e.forgetSlots ∧
    x ⟨p, ts ++ rest⟩ = chain m e' ⟨ts.reverse ++ p, rest⟩

/-- The rule of a level, for expressions with at most `n` tokens behind the first. -/
def ruleAt (n : Nat) : Level → Rule Expr
  | .choice => choice (inner n) n
  | .equality => equality (inner n) n
  | .ordering => ordering (inner n) n
  | .term => term (inner n) n
  | .factor => factor (inner n) n
  | .dice => dice (inner n) n
  | .sign => signed (inner n) n (n + 1)
  | .call => call (inner n) true n

theorem ruleAt_chain {l : Level} (n : Nat) (h : .equality ≤ l ∧ l ≤ .factor) :
    ruleAt n l = level l.operators (ruleAt n l.tighter) n := by
  cases l <;> first | rfl | exact absurd h (by decide)

section Expression

variable (e : Expr)

/-- Where a label may be read, none follows, but for groups, which take none. -/
def ParsesCall : Prop :=
  ∀ ⦃ts n⦄, Spelled .careful e ts → ts.length ≤ n + 1 → ∀ ⦃labelled rest⦄, (labelled = false → e.headLabel = none) →
    nextKind rest ≠ .leftParen → (labelled = true → nextKind rest = .leftBracket → ∃ inner, e = .group inner) →
      Parses (call (inner n) labelled n) e ts rest

def ParsesSigned : Prop :=
  ∀ ⦃ts n m⦄, Spelled .careful e ts → ts.length ≤ n + 1 → ts.length ≤ m + 1 → ∀ ⦃rest⦄,
    nextKind rest ≠ .leftParen → nextKind rest ≠ .leftBracket → Parses (signed (inner n) n m) e ts rest

def OpensDice : Prop :=
  ∀ ⦃ts n⦄, Spelled .careful e ts → ts.length ≤ n + 1 → ∀ ⦃rest⦄, nextKind rest ≠ .leftParen →
    nextKind rest ≠ .leftBracket → (e.isBareDice → nextKind rest ∉ [.name, .bang, .doubleBang]) →
      Opens (dice (inner n) n) (diceChain (inner n) n) n e ts rest

def OpensAt (l : Level) : Prop :=
  ∀ ⦃ts n⦄, Spelled .careful e ts → ts.length ≤ n + 1 → ∀ ⦃rest⦄, Ends l.tighter rest →
    Opens (ruleAt n l) (binaryChain l.operators (ruleAt n l.tighter)) n e ts rest

def ParsesAt (l : Level) : Prop :=
  ∀ ⦃ts n⦄, Spelled .careful e ts → ts.length ≤ n + 1 → ∀ ⦃rest⦄, Ends l rest → Parses (ruleAt n l) e ts rest

/-- What is to be shown of the rule of a level. -/
def ReadsOn : Level → Prop
  | .call => ParsesCall e
  | .sign => ParsesSigned e
  | .dice => OpensDice e
  | .choice => ParsesAt e .choice
  | l => OpensAt e l

/-- The rules of the level of an expression and of all looser ones do with its renderings as they should. -/
structure Readable : Prop where
  call : e.level = .call → ParsesCall e
  signed : .sign ≤ e.level → ParsesSigned e
  dice : .dice ≤ e.level → OpensDice e
  chain : ∀ {l}, .equality ≤ l ∧ l ≤ .factor → l ≤ e.level → OpensAt e l
  level : ∀ {l}, l ≤ .dice → l ≤ e.level → ParsesAt e l

variable {e}

theorem readsOn_chain {l : Level} (hl : .equality ≤ l ∧ l ≤ .factor) : ReadsOn e l ↔ OpensAt e l := by
  cases l <;> first | exact Iff.rfl | exact absurd hl (by decide)

end Expression

/-! ### From a level to looser ones -/

section Stops

variable {n : Nat} {e : Expr} {p rest : List Token} {kinds : List Kind} {operand : Rule Expr} {inner : Inner}

theorem applications_stop (h : nextKind rest ≠ .leftParen) :
    applications inner n e ⟨p, rest⟩ = .ok (e, ⟨p, rest⟩) := by
  cases n with
  | zero => rfl
  | succ n =>
    have hsees : sees [.leftParen] ⟨p, rest⟩ = .ok (false, ⟨p, rest⟩) := sees_ok (by simpa using h)
    exact bind_ok hsees

theorem diceChain_stop {m : Nat} (h : nextKind rest ≠ .name) :
    diceChain inner n m e ⟨p, rest⟩ = .ok (e, ⟨p, rest⟩) := by
  cases m with
  | zero => rfl
  | succ m =>
    have hsees : seesDice ⟨p, rest⟩ = .ok (false, ⟨p, rest⟩) := by
      have hname : ¬(⟨p, rest⟩ : Cursor).current.kind = .name := h
      show Except.ok (decide _ && _, _) = _
      rw [decide_eq_false hname]
      rfl
    exact bind_ok hsees

theorem binaryChain_stop (h : nextKind rest ∉ kinds) :
    binaryChain kinds operand n e ⟨p, rest⟩ = .ok (e, ⟨p, rest⟩) := by
  cases n with
  | zero => rfl
  | succ n =>
    have hsees : sees kinds ⟨p, rest⟩ = .ok (false, ⟨p, rest⟩) := sees_ok (by simpa using h)
    exact bind_ok hsees

end Stops

section Ladder

variable {e : Expr}

theorem ParsesCall.signed (h : ParsesCall e) (hc : e.Canonical) (hl : e.level = .call) : ParsesSigned e := by
  intro ts n m hs hn hm rest hparen hbracket
  have hcall : Parses (call (inner n) true n) e ts rest :=
    h hs hn (fun hlabelled => by cases hlabelled) hparen fun _ hk => absurd hk hbracket
  cases m with
  | zero => exact hcall
  | succ m =>
    intro p
    obtain ⟨t, us, rfl, ht⟩ := first_of_call hs hc hl
    have hsees : sees [.bang, .minus] ⟨p, t :: us ++ rest⟩ = .ok (false, ⟨p, t :: us ++ rest⟩) := by
      refine sees_ok ?_
      have hfirst : ∀ kind ∈ primaryKinds, [Kind.bang, .minus].contains kind = false := by decide
      exact hfirst t.kind ht
    obtain ⟨e', he, hsame⟩ := hcall p
    exact ⟨e', (bind_ok hsees).trans he, hsame⟩

theorem ParsesSigned.dice (h : ParsesSigned e) : OpensDice e := by
  intro ts n hs hn rest hparen hbracket _ p
  have hne : 0 < ts.length := List.length_pos_iff.2 hs.ne_nil
  obtain ⟨e', he, hsame⟩ := h hs hn (by omega : ts.length ≤ n + 1 + 1) hparen hbracket p
  exact ⟨n, e', by omega, hsame, bind_ok he⟩

theorem OpensDice.level (h : OpensDice e) : ParsesAt e .dice := by
  intro ts n hs hn rest hends p
  have hbare : e.isBareDice = true → nextKind rest ∉ [Kind.name, .bang, .doubleBang] :=
    fun _ => hends.not_mem (by decide)
  obtain ⟨m, e', -, hsame, he⟩ := h hs hn (hends.ne (by decide)) (hends.ne (by decide)) hbare p
  exact ⟨e', he.trans (diceChain_stop (hends.ne (by decide))), hsame⟩

theorem ParsesAt.chain {l : Level} (h : ParsesAt e l.tighter) (hl : .equality ≤ l ∧ l ≤ .factor) : OpensAt e l := by
  intro ts n hs hn rest hends p
  have hne : 0 < ts.length := List.length_pos_iff.2 hs.ne_nil
  obtain ⟨e', he, hsame⟩ := h hs hn hends p
  refine ⟨n, e', by omega, hsame, ?_⟩
  rw [ruleAt_chain n hl]
  exact bind_ok he

theorem OpensAt.level {l : Level} (h : OpensAt e l) : ParsesAt e l := by
  intro ts n hs hn rest hends p
  obtain ⟨m, e', -, hsame, he⟩ := h hs hn (hends.mono (Level.le_tighter l)) p
  exact ⟨e', he.trans (binaryChain_stop hends.not_operator), hsame⟩

theorem ParsesAt.choice (h : ParsesAt e .equality) : ParsesAt e .choice := by
  intro ts n hs hn rest hends p
  obtain ⟨e', he, hsame⟩ := h hs hn (hends.mono (by decide)) p
  refine ⟨e', (bind_ok he).trans ((bind_ok (skip_other ?_)).trans rfl), hsame⟩
  obtain ⟨b, hb, hle⟩ := hends
  intro hq
  rw [hq] at hb
  cases hb
  exact absurd hle (by decide)

/-- What the rule of its own level does with an expression decides what all looser ones do. -/
theorem Readable.of_own (hc : e.Canonical) (h : ReadsOn e e.level) : Readable e := by
  have own : ∀ {l : Level}, e.level = l → ReadsOn e l := fun hl => hl ▸ h
  have signed : Level.sign ≤ e.level → ParsesSigned e := fun h => by
    rcases Level.eq_or_lt_of_le h with h | h
    · exact own h
    · have hl := Level.eq_call_of_le (Level.tighter_le h)
      exact ParsesCall.signed (own hl) hc hl
  have dice : Level.dice ≤ e.level → OpensDice e := fun h => by
    rcases Level.eq_or_lt_of_le h with h | h
    · exact own h
    · exact (signed (Level.tighter_le h)).dice
  have chain : ∀ {l : Level}, .equality ≤ l ∧ l ≤ .factor → (l.tighter ≤ e.level → ParsesAt e l.tighter) →
      l ≤ e.level → OpensAt e l := fun hl ht h => by
    rcases Level.eq_or_lt_of_le h with h | h
    · exact (readsOn_chain hl).1 (own h)
    · exact (ht (Level.tighter_le h)).chain hl
  have diceLevel : Level.dice ≤ e.level → ParsesAt e .dice := fun h => (dice h).level
  have factor : Level.factor ≤ e.level → OpensAt e .factor := chain (by decide) diceLevel
  have term : Level.term ≤ e.level → OpensAt e .term := chain (by decide) fun h => (factor h).level
  have ordering : Level.ordering ≤ e.level → OpensAt e .ordering := chain (by decide) fun h => (term h).level
  have equality : Level.equality ≤ e.level → OpensAt e .equality := chain (by decide) fun h => (ordering h).level
  refine ⟨fun hl => own hl, signed, dice, ?_, ?_⟩
  · intro l hl h
    cases l with
    | equality => exact equality h
    | ordering => exact ordering h
    | term => exact term h
    | factor => exact factor h
    | choice | dice | sign | call => exact absurd hl (by decide)
  · intro l hl h
    cases l with
    | choice =>
      rcases Level.eq_or_lt_of_le h with h | h
      · exact own h
      · exact (equality (Level.tighter_le h)).level.choice
    | equality => exact (equality h).level
    | ordering => exact (ordering h).level
    | term => exact (term h).level
    | factor => exact (factor h).level
    | dice => exact diceLevel h
    | sign | call => exact absurd hl (by decide)

/-- On its loosest level too. -/
theorem Readable.choice (h : Readable e) : ParsesAt e .choice := h.level (by decide) (Nat.zero_le _)

end Ladder

/-! ### Primaries -/

section Primary

variable {inner : Inner} {labelled : Bool} {n : Nat} {e : Expr} {ts p rest : List Token} {t : Token}

theorem primary_ok (ht : t.kind ≠ .endOfInput) :
    primary inner labelled n ⟨p, t :: rest⟩ = primaryFrom inner labelled n p.length t ⟨t :: p, rest⟩ := by
  have hnext : next ⟨p, t :: rest⟩ = .ok (t, ⟨t :: p, rest⟩) := next_ok ht
  show (if t.kind = .endOfInput then _ else _ : Rule Expr) _ = _
  rw [if_neg ht]
  exact bind_ok hnext

theorem Parses.call (h : Parses (primary inner labelled n) e ts rest) (hparen : nextKind rest ≠ .leftParen) :
    Parses (call inner labelled n) e ts rest := by
  intro p
  obtain ⟨e', he, hsame⟩ := h p
  exact ⟨e', (bind_ok he).trans (applications_stop hparen), hsame⟩

theorem labelIf_ok {label : Option String} {ls : List Token} (h : Labels label ls)
    (hlabelled : labelled = false → label = none) (hr : labelled = true → nextKind rest ≠ .leftBracket) :
    labelIf labelled ⟨p, ls ++ rest⟩ = .ok (label, ⟨ls.reverse ++ p, rest⟩) := by
  cases labelled with
  | true => exact label_ok h fun _ => hr rfl
  | false =>
    obtain rfl := hlabelled rfl
    cases h
    rfl

end Primary

theorem parsesCall_literal (v : Option Value) (label : Option String) : ParsesCall (.literal v label) := by
  intro ts n hs hn labelled rest hlabel hparen hbracket
  refine Parses.call (fun p => ?_) hparen
  have hbracket' : labelled = true → nextKind rest ≠ .leftBracket := fun hl hk => by
    obtain ⟨inner, h⟩ := hbracket hl hk
    cases h
  cases hs with
  | @true t ht =>
    refine ⟨_, (primary_ok (by simp [ht])).trans ?_, rfl⟩
    unfold primaryFrom
    rw [ht]
    rfl
  | @false t ht =>
    refine ⟨_, (primary_ok (by simp [ht])).trans ?_, rfl⟩
    unfold primaryFrom
    rw [ht]
    rfl
  | @number t label ls ht hl =>
    refine ⟨_, (primary_ok (by simp [ht])).trans ?_, rfl⟩
    unfold primaryFrom
    rw [ht]
    refine (bind_ok (labelIf_ok hl hlabel hbracket')).trans ?_
    exact pure_ok _ (by simp)
  | @name t ht =>
    have ht : t.kind = .name := ht
    refine ⟨_, (primary_ok (by simp [ht])).trans ?_, rfl⟩
    unfold primaryFrom
    rw [ht]
    rfl

theorem parsesCall_substitution (slot : Slot) (key : Option Value) (label : Option String) :
    ParsesCall (.substitution slot key label) := by
  intro ts n hs hn labelled rest hlabel hparen hbracket
  refine Parses.call (fun p => ?_) hparen
  have hbracket' : labelled = true → nextKind rest ≠ .leftBracket := fun hl hk => by
    obtain ⟨inner, h⟩ := hbracket hl hk
    cases h
  cases hs with
  | @substitution t slot label ls ht hl =>
    refine ⟨.substitution p.length (some (.string t.key)) label, (primary_ok (by simp [ht])).trans ?_, rfl⟩
    unfold primaryFrom
    rw [ht]
    refine (bind_ok (labelIf_ok hl hlabel hbracket')).trans ?_
    exact pure_ok _ (by simp)

theorem parsesCall_group {inner : Expr} (hi : ParsesAt inner .choice) : ParsesCall (.group inner) := by
  intro ts n hs hn labelled rest _ hparen _
  refine Parses.call (fun p => ?_) hparen
  cases hs with
  | @group opener closer inner ts ho hs hcl =>
    obtain ⟨n, rfl⟩ : ∃ m, n = m + 1 := ⟨n - 1, by simp at hn; omega⟩
    have hends : Ends .choice (closer :: rest) := ⟨.choice, by rw [nextKind_cons, hcl]; rfl, Level.le_refl _⟩
    obtain ⟨e', he, hsame⟩ := hi hs (by simp at hn; omega : ts.length ≤ n + 1) hends (opener :: p)
    refine ⟨.group e', ?_, by simp [Expr.forgetSlots, hsame]⟩
    have hts : opener :: (ts ++ [closer]) ++ rest = opener :: (ts ++ closer :: rest) := by simp
    rw [hts]
    refine (primary_ok (by simp [ho])).trans ?_
    unfold primaryFrom
    rw [ho]
    refine (bind_ok he).trans ?_
    refine (bind_ok (expect_ok hcl (by decide))).trans ?_
    exact pure_ok _ (by simp)

/-! ### Operators -/

theorem parsesSigned_unary {op : Token} {operand : Expr} (hop : op.kind = .bang ∨ op.kind = .minus)
    (ho : ParsesSigned operand) : ParsesSigned (.unary (some op) operand) := by
  intro ts n m hs hn hm rest hparen hbracket p
  cases hs with
  | @unary op operand ts hs =>
    have hne : 0 < ts.length := List.length_pos_iff.2 hs.ne_nil
    simp only [List.length_cons] at hn hm
    obtain ⟨m, rfl⟩ : ∃ k, m = k + 1 := ⟨m - 1, by omega⟩
    obtain ⟨e', he, hsame⟩ := ho hs (by omega : ts.length ≤ n + 1) (by omega : ts.length ≤ m + 1) hparen hbracket
      (op :: p)
    refine ⟨.unary (some op) e', ?_, by simp [Expr.forgetSlots, hsame]⟩
    have hsees : sees [.bang, .minus] ⟨p, op :: (ts ++ rest)⟩ = .ok (true, ⟨p, op :: (ts ++ rest)⟩) :=
      sees_ok (by rcases hop with h | h <;> rw [nextKind_cons, h] <;> rfl)
    refine (bind_ok hsees).trans ?_
    refine (bind_ok (next_ok (by rcases hop with h | h <;> simp [h]))).trans ?_
    refine (bind_ok he).trans ?_
    exact pure_ok _ (by simp)

theorem opensAt_binary {op : Token} {left right : Expr} {l : Level} (hop : op.kind.level? = some l)
    (hl : OpensAt left l) (hr : ParsesAt right l.tighter) : OpensAt (.binary (some op) left right) l := by
  intro ts n hs hn rest hends p
  cases hs with
  | @binary op left right ls rs hsl hsr =>
    have hne : 0 < rs.length := List.length_pos_iff.2 hsr.ne_nil
    simp only [List.length_append, List.length_cons] at hn
    have hendsl : Ends l.tighter (op :: (rs ++ rest)) := ⟨_, ends?_of_level? hop, Level.le_refl _⟩
    obtain ⟨m, left', hm, hsamel, hel⟩ := hl hsl (by omega : ls.length ≤ n + 1) hendsl p
    obtain ⟨m, rfl⟩ : ∃ k, m = k + 1 := ⟨m - 1, by omega⟩
    obtain ⟨right', her, hsamer⟩ := hr hsr (by omega : rs.length ≤ n + 1) hends (op :: (ls.reverse ++ p))
    refine ⟨m, .binary (some op) left' right', by simp; omega, by simp [Expr.forgetSlots, hsamel, hsamer], ?_⟩
    have hts : ls ++ op :: rs ++ rest = ls ++ op :: (rs ++ rest) := by simp
    have hsees : sees l.operators ⟨ls.reverse ++ p, op :: (rs ++ rest)⟩ =
        .ok (true, ⟨ls.reverse ++ p, op :: (rs ++ rest)⟩) :=
      sees_ok (by simpa using mem_operators_iff.2 hop)
    have hkind : op.kind ≠ .endOfInput := fun h => by rw [h] at hop; cases hop
    rw [hts, hel]
    refine (bind_ok hsees).trans ?_
    refine (bind_ok (next_ok hkind)).trans ?_
    refine (bind_ok her).trans ?_
    rw [show rs.reverse ++ op :: (ls.reverse ++ p) = (ls ++ op :: rs).reverse ++ p by simp]

theorem parsesAt_choice {condition consequent alternative : Expr} (hc : ParsesAt condition .equality)
    (ht : ParsesAt consequent .choice) (he : ParsesAt alternative .choice) :
    ParsesAt (.choice condition consequent alternative) .choice := by
  intro ts n hs hn rest hends p
  cases hs with
  | @choice mark colon condition consequent alternative cs ts es hsc hm hst hcolon hse =>
    simp only [List.length_append, List.length_cons] at hn
    have hnec : 0 < cs.length := List.length_pos_iff.2 hsc.ne_nil
    obtain ⟨n, rfl⟩ : ∃ k, n = k + 1 := ⟨n - 1, by omega⟩
    have hendsc : Ends .equality (mark :: (ts ++ colon :: (es ++ rest))) :=
      ⟨.equality, by rw [nextKind_cons, hm]; rfl, Level.le_refl _⟩
    have hendst : Ends .choice (colon :: (es ++ rest)) :=
      ⟨.choice, by rw [nextKind_cons, hcolon]; rfl, Level.le_refl _⟩
    obtain ⟨c', hec, hsamec⟩ := hc hsc (by omega : cs.length ≤ n + 1 + 1) hendsc p
    obtain ⟨t', het, hsamet⟩ := ht hst (by omega : ts.length ≤ n + 1) hendst (mark :: (cs.reverse ++ p))
    obtain ⟨e', hee, hsamee⟩ := he hse (by omega : es.length ≤ n + 1) hends
      (colon :: (ts.reverse ++ mark :: (cs.reverse ++ p)))
    refine ⟨.choice c' t' e', ?_, by simp [Expr.forgetSlots, hsamec, hsamet, hsamee]⟩
    have hts : cs ++ mark :: (ts ++ colon :: es) ++ rest = cs ++ mark :: (ts ++ colon :: (es ++ rest)) := by simp
    rw [hts]
    refine (bind_ok hec).trans ?_
    refine (bind_ok (skip_ok hm (by decide))).trans ?_
    refine (bind_ok het).trans ?_
    refine (bind_ok (expect_ok hcolon (by decide))).trans ?_
    refine (bind_ok hee).trans ?_
    exact pure_ok _ (by simp)

/-! ### Lists -/

/-- The rule reads expressions like those of the list. -/
def ParsesList (x : Rule (List Expr)) (es : List Expr) (ts rest : List Token) : Prop :=
  ∀ p, ∃ es', x ⟨p, ts ++ rest⟩ = .ok (es', ⟨ts.reverse ++ p, rest⟩) ∧
    Expr.forgetSlotsOf es' = Expr.forgetSlotsOf es

section Lists

variable {closer : Kind} {n k : Nat} {es : List Expr} {us rest : List Token}
  (hc : closer = .rightParen ∨ closer = .rightBrace)

include hc

theorem ends_of_spelledRest (hs : SpelledRest .careful es us) (hr : nextKind rest = closer) :
    Ends .choice (us ++ rest) := by
  cases hs with
  | nil => exact ⟨.choice, by rw [List.nil_append, hr]; rcases hc with rfl | rfl <;> rfl, Level.le_refl _⟩
  | cons hcomma => exact ⟨.choice, by rw [List.cons_append, nextKind_cons, hcomma]; rfl, Level.le_refl _⟩

theorem parses_commaExprs (he : ∀ e ∈ es, ParsesAt e .choice) (hs : SpelledRest .careful es us)
    (hn : us.length ≤ n + 1) (hk : us.length ≤ k) (hr : nextKind rest = closer) :
    ParsesList (commaExprs (inner (n + 1)) k) es us rest := by
  induction es generalizing us k with
  | nil =>
    cases hs
    intro p
    refine ⟨[], ?_, rfl⟩
    cases k with
    | zero => rfl
    | succ k =>
      have hcomma : nextKind rest ≠ .comma := by rw [hr]; rcases hc with rfl | rfl <;> decide
      exact bind_ok (skip_other hcomma)
  | cons e es ih =>
    cases hs with
    | @cons comma e es ts us hcomma hse hsr =>
      intro p
      simp only [List.length_cons, List.length_append] at hn hk
      obtain ⟨k, rfl⟩ : ∃ j, k = j + 1 := ⟨k - 1, by omega⟩
      have hends := ends_of_spelledRest hc hsr hr
      obtain ⟨e', hee, hsamee⟩ := he e List.mem_cons_self hse (by omega : ts.length ≤ n + 1) hends (comma :: p)
      obtain ⟨es', hes, hsamees⟩ := ih (fun e h => he e (List.mem_cons_of_mem _ h)) hsr (by omega)
        (by omega : us.length ≤ k) (ts.reverse ++ comma :: p)
      refine ⟨e' :: es', ?_, by simp [Expr.forgetSlotsOf, hsamee, hsamees]⟩
      have hts : comma :: (ts ++ us) ++ rest = comma :: (ts ++ (us ++ rest)) := by simp
      rw [hts]
      refine (bind_ok (skip_ok hcomma (by decide))).trans ?_
      refine (bind_ok hee).trans ?_
      refine (bind_ok hes).trans ?_
      exact pure_ok _ (by simp)

theorem parses_exprsUpTo (he : ∀ e ∈ es, ParsesAt e .choice) (hcanonical : ∀ e ∈ es, e.Everywhere Expr.Canonical)
    (hs : SpelledAll .careful es us) (hn : us.length ≤ n + 1) (hk : us.length ≤ k + 1) (hr : nextKind rest = closer) :
    ParsesList (exprsUpTo closer (inner (n + 1)) k) es us rest := by
  intro p
  cases hs with
  | nil =>
    have hsees : sees [closer] ⟨p, rest⟩ = .ok (true, ⟨p, rest⟩) := sees_ok (by simpa using hr)
    exact ⟨[], bind_ok hsees, rfl⟩
  | @cons e es ts us hse hsr =>
    obtain ⟨t, ts, rfl, ht⟩ := first_of_rendering hse (hcanonical e List.mem_cons_self)
    have hsees : sees [closer] ⟨p, t :: ts ++ (us ++ rest)⟩ = .ok (false, ⟨p, t :: ts ++ (us ++ rest)⟩) := by
      refine sees_ok ?_
      have hfirst : ∀ kind ∈ firstKinds, [Kind.rightParen].contains kind = false ∧
          [Kind.rightBrace].contains kind = false := by decide
      rcases hc with rfl | rfl
      · exact (hfirst t.kind ht).1
      · exact (hfirst t.kind ht).2
    simp only [List.length_append] at hn hk
    have hends := ends_of_spelledRest hc hsr hr
    have hpos : 0 < (t :: ts).length := Nat.succ_pos _
    obtain ⟨e', hee, hsamee⟩ := he e List.mem_cons_self hse (by omega : (t :: ts).length ≤ n + 1) hends p
    obtain ⟨es', hes, hsamees⟩ := parses_commaExprs hc (fun e h => he e (List.mem_cons_of_mem _ h)) hsr
      (by omega : us.length ≤ n + 1) (by omega : us.length ≤ k) hr ((t :: ts).reverse ++ p)
    refine ⟨e' :: es', ?_, by simp [Expr.forgetSlotsOf, hsamee, hsamees]⟩
    rw [List.append_assoc]
    refine (bind_ok hsees).trans ?_
    refine (bind_ok hee).trans ?_
    refine (bind_ok hes).trans ?_
    exact pure_ok _ (by simp)

end Lists

/-! ### Calls -/

theorem parsesCall_call {t : Token} {arguments : List Expr} (ha : ∀ a ∈ arguments, ParsesAt a .choice)
    (hcanonical : ∀ a ∈ arguments, a.Everywhere Expr.Canonical) :
    ParsesCall (.call (.literal (some (.string t.lexeme)) none) (some t) arguments) := by
  intro ts n hs hn labelled rest _ hparen _ p
  obtain ⟨opener, us, closer, rfl, ht, ho, hsa, hcl⟩ := eq_of_call hs rfl
  simp only [List.length_cons, List.length_append, List.length_nil] at hn
  obtain ⟨n, rfl⟩ : ∃ k, n = k + 1 := ⟨n - 1, by omega⟩
  obtain ⟨arguments', hea, hsame⟩ := parses_exprsUpTo (.inl rfl) ha hcanonical hsa (by omega : us.length ≤ n + 1)
    (by omega : us.length ≤ n + 1) (show nextKind (closer :: rest) = .rightParen from hcl) (opener :: t :: p)
  have hts : t :: opener :: (us ++ [closer]) ++ rest = t :: opener :: (us ++ closer :: rest) := by simp
  have hname : primary (inner (n + 1)) labelled (n + 1) ⟨p, t :: opener :: (us ++ closer :: rest)⟩ =
      .ok (.literal (some (.string t.lexeme)) none, ⟨t :: p, opener :: (us ++ closer :: rest)⟩) := by
    refine (primary_ok (by simp [ht])).trans ?_
    unfold primaryFrom
    rw [ht]
    rfl
  have hsees : sees [.leftParen] ⟨t :: p, opener :: (us ++ closer :: rest)⟩ =
      .ok (true, ⟨t :: p, opener :: (us ++ closer :: rest)⟩) := sees_ok (by rw [nextKind_cons, ho]; rfl)
  refine ⟨.call (.literal (some (.string t.lexeme)) none) (some t) arguments', ?_, by simp [Expr.forgetSlots, hsame]⟩
  rw [hts]
  refine (bind_ok hname).trans ?_
  refine (bind_ok hsees).trans ?_
  refine (bind_ok get_ok).trans ?_
  refine (bind_ok (next_ok (by simp [ho]))).trans ?_
  refine (bind_ok hea).trans ?_
  refine (bind_ok (expect_ok hcl (by decide))).trans ?_
  refine (applications_stop hparen).trans ?_
  exact pure_ok _ (by simp)

/-! ### Modifiers -/

theorem parses_compared {value : Rule Expr} {c : Comparison} {e : Expr} {ms : List Token}
    (hs : Compared .careful c (some e) ms) (rest : List Token)
    (hv : ∀ ts, ts.length < ms.length → Spelled .careful e ts → (∃ inner, e = .group inner) → Parses value e ts rest) :
    ∀ p, ∃ e', comparison value ⟨p, ms ++ rest⟩ = .ok ((c, some e'), ⟨ms.reverse ++ p, rest⟩) ∧
      e'.forgetSlots = e.forgetSlots := by
  intro p
  cases hs with
  | @number t ht =>
    refine ⟨_, ?_, rfl⟩
    have hsees : sees [.number] ⟨p, t :: rest⟩ = .ok (true, ⟨p, t :: rest⟩) :=
      sees_ok (by rw [nextKind_cons, ht]; rfl)
    have hnone : comparisonOf? (⟨p, [t] ++ rest⟩ : Cursor).current.kind = none := by
      show comparisonOf? t.kind = none
      rw [ht]
      rfl
    refine (bind_ok get_ok).trans ?_
    rw [hnone]
    refine (bind_ok hsees).trans ?_
    exact bind_ok (next_ok (by simp [ht]))
  | @operator op c e ts ho hg hse =>
    obtain ⟨e', hee, hsame⟩ := hv ts (Nat.lt_succ_self _) hse hg (op :: p)
    refine ⟨e', ?_, hsame⟩
    have hsome : comparisonOf? (⟨p, op :: ts ++ rest⟩ : Cursor).current.kind = some c := ho
    have hkind : op.kind ≠ .endOfInput := fun h => by rw [h] at ho; cases ho
    refine (bind_ok get_ok).trans ?_
    rw [hsome]
    refine (bind_ok (next_ok hkind)).trans ?_
    refine (bind_ok hee).trans ?_
    exact pure_ok _ (by simp)

theorem exists_written {c : Comparison} {written : Option Expr} {ms : List Token}
    (h : Compared .careful c written ms) : ∃ e, written = some e := by
  cases h with
  | bare hstyle => cases hstyle
  | number => exact ⟨_, rfl⟩
  | operator => exact ⟨_, rfl⟩

theorem optionalModifier_none {value : Rule Expr} {p rest : List Token}
    (h : nextKind rest ∉ [.name, .bang, .doubleBang]) :
    optionalModifier value ⟨p, rest⟩ = .ok ((.plain, .equal, .absent), ⟨p, rest⟩) := by
  have hsees : sees [.name, .bang, .doubleBang] ⟨p, rest⟩ = .ok (false, ⟨p, rest⟩) := sees_ok (by simpa using h)
  exact bind_ok hsees

theorem optionalModifier_some {value : Rule Expr} {keyword : Token} {modifier : Modifier} {c : Comparison}
    {e' : Expr} {p q us rest : List Token}
    (hk : keyword.kind = .name ∨ keyword.kind = .bang ∨ keyword.kind = .doubleBang)
    (hw : Modifier.ofKeyword? keyword.lexeme = some modifier) (hsel : modifier.isSelection → c = .equal)
    (hv : comparison value ⟨keyword :: p, us⟩ = .ok ((c, some e'), ⟨q, rest⟩)) :
    optionalModifier value ⟨p, keyword :: us⟩ = .ok ((modifier, c, .value e'), ⟨q, rest⟩) := by
  have hsees : sees [.name, .bang, .doubleBang] ⟨p, keyword :: us⟩ = .ok (true, ⟨p, keyword :: us⟩) :=
    sees_ok (by rcases hk with h | h | h <;> rw [nextKind_cons, h] <;> rfl)
  have hkind : keyword.kind ≠ .endOfInput := by rcases hk with h | h | h <;> simp [h]
  have hok : ¬(modifier.isSelection && decide (c ≠ .equal)) = true := by
    simpa using hsel
  refine (bind_ok hsees).trans ?_
  refine (bind_ok (next_ok hkind)).trans ?_
  rw [hw]
  refine (bind_ok get_ok).trans ?_
  refine (bind_ok hv).trans ?_
  dsimp only
  rw [if_neg hok]
  rfl

theorem poolModifier_ok {value : Rule Expr} {keyword : Token} {modifier : Modifier} {c : Comparison} {e' : Expr}
    {p q us rest : List Token} (hk : keyword.kind = .name)
    (hw : Modifier.ofPoolKeyword? keyword.lexeme = some modifier)
    (hv : comparison value ⟨keyword :: p, us⟩ = .ok ((c, some e'), ⟨q, rest⟩)) :
    poolModifier value ⟨p, keyword :: us⟩ = .ok ((modifier, c, e'), ⟨q, rest⟩) := by
  have hcurrent : (⟨p, keyword :: us⟩ : Cursor).current = keyword := rfl
  refine (bind_ok get_ok).trans ?_
  simp only [hcurrent, if_pos hk, hw]
  refine (bind_ok (next_ok (by simp [hk]))).trans ?_
  exact bind_ok hv

/-! ### Dice and pools -/

theorem nextKind_labels {label : Option String} {ls : List Token} (hl : Labels label ls) (rest : List Token) :
    (label = none ∧ nextKind (ls ++ rest) = nextKind rest) ∨
      (label ≠ none ∧ nextKind (ls ++ rest) = .leftBracket) := by
  cases hl with
  | absent => exact .inl ⟨rfl, rfl⟩
  | words ho => exact .inr ⟨by simp, ho⟩

/-- One more dice operator in a chain. -/
theorem diceChain_succ {n m : Nat} {die : Token} {count faces : Expr} {label : Option String} {modifier : Modifier}
    {c : Comparison} {target : Target Expr} {p q r us vs ls rest : List Token} (hd : die.kind = .name)
    (hx : die.lexeme = "d" ∨ die.lexeme = "D")
    (hf : call (inner n) false n ⟨die :: p, us⟩ = .ok (faces, ⟨q, vs⟩))
    (hm : optionalModifier (call (inner n) true n) ⟨q, vs⟩ = .ok ((modifier, c, target), ⟨r, ls ++ rest⟩))
    (hl : Labels label ls) (hr : nextKind rest ≠ .leftBracket) :
    diceChain (inner n) n (m + 1) count ⟨p, die :: us⟩ =
      diceChain (inner n) n m (.dice p.length count faces label modifier c target) ⟨ls.reverse ++ r, rest⟩ := by
  have hsees : seesDice ⟨p, die :: us⟩ = .ok (true, ⟨p, die :: us⟩) := by
    have hname : (⟨p, die :: us⟩ : Cursor).current.kind = .name := hd
    have hlexeme : ["d", "D"].contains die.lexeme = true := by simpa using hx
    show Except.ok (decide _ && ["d", "D"].contains die.lexeme, _) = _
    rw [decide_eq_true hname, hlexeme]
    rfl
  refine (bind_ok hsees).trans ?_
  refine (bind_ok get_ok).trans ?_
  refine (bind_ok (next_ok (by simp [hd]))).trans ?_
  refine (bind_ok hf).trans ?_
  refine (bind_ok hm).trans ?_
  exact bind_ok (label_ok hl fun _ => hr)

/-- Faces take no label. -/
theorem ParsesCall.faces {faces : Expr} (h : ParsesCall faces) (hhead : faces.headLabel = none) {ts rest : List Token}
    {n : Nat} (hs : Spelled .careful faces ts) (hn : ts.length ≤ n + 1) (hparen : nextKind rest ≠ .leftParen) :
    Parses (call (inner n) false n) faces ts rest :=
  h hs hn (fun _ => hhead) hparen fun hl => by cases hl

/-- A group is read whether or not a label follows. -/
theorem ParsesCall.group {e : Expr} (h : ParsesCall e) {ts rest : List Token} {n : Nat} (hs : Spelled .careful e ts)
    (hn : ts.length ≤ n + 1) (hparen : nextKind rest ≠ .leftParen) (hg : ∃ inner, e = .group inner) :
    Parses (call (inner n) true n) e ts rest :=
  h hs hn (fun hl => by cases hl) hparen fun _ _ => hg

theorem opensDice_plain {slot : Slot} {count faces : Expr} {label : Option String} (hbareCount : ¬count.isBareDice)
    (hhead : faces.headLabel = none) (hcount : OpensDice count) (hfaces : ParsesCall faces) :
    OpensDice (.dice slot count faces label .plain .equal .absent) := by
  intro ts n hs hn rest hparen hbracket hbare p
  cases hs with
  | dice _ _ _ _ _ hw => exact absurd rfl (ne_plain_of_keyword hw)
  | @plainDice die slot count faces label cs fs ls hsc hd hx hsf hl =>
    simp only [List.length_append, List.length_cons] at hn
    have hparenDie : nextKind (die :: (fs ++ (ls ++ rest))) ≠ .leftParen := by simp [hd]
    have hbracketDie : nextKind (die :: (fs ++ (ls ++ rest))) ≠ .leftBracket := by simp [hd]
    obtain ⟨m, count', hm, hsamec, hec⟩ := hcount hsc (by omega : cs.length ≤ n + 1) hparenDie hbracketDie
      (fun h => absurd h hbareCount) p
    obtain ⟨m, rfl⟩ : ∃ k, m = k + 1 := ⟨m - 1, by omega⟩
    -- behind the faces stands a label, or what follows the whole
    have hafter : nextKind (ls ++ rest) ≠ .leftParen ∧ nextKind (ls ++ rest) ∉ [.name, .bang, .doubleBang] := by
      rcases nextKind_labels hl rest with ⟨rfl, h⟩ | ⟨-, h⟩
      · rw [h]
        exact ⟨hparen, hbare rfl⟩
      · rw [h]
        decide
    obtain ⟨faces', hef, hsamef⟩ := hfaces.faces hhead hsf (by omega : fs.length ≤ n + 1) hafter.1
      (die :: (cs.reverse ++ p))
    refine ⟨m, .dice (cs.reverse ++ p).length count' faces' label .plain .equal .absent, ?_, ?_, ?_⟩
    · simp only [List.length_append, List.length_cons]
      omega
    · simp only [Expr.forgetSlots, hsamec, hsamef]
    · have hts : cs ++ die :: (fs ++ ls) ++ rest = cs ++ die :: (fs ++ (ls ++ rest)) := by simp
      have hpassed : ls.reverse ++ (fs.reverse ++ die :: (cs.reverse ++ p)) =
          (cs ++ die :: (fs ++ ls)).reverse ++ p := by simp
      rw [hts, hec, ← hpassed]
      exact diceChain_succ hd hx hef (optionalModifier_none hafter.2) hl hbracket

theorem opensDice_modified {slot : Slot} {count faces : Expr} {label : Option String} {modifier : Modifier}
    {c : Comparison} {e : Expr} (hbareCount : ¬count.isBareDice) (hhead : faces.headLabel = none)
    (hsel : modifier.isSelection → c = .equal) (hcount : OpensDice count) (hfaces : ParsesCall faces)
    (hvalue : ParsesCall e) : OpensDice (.dice slot count faces label modifier c (.value e)) := by
  intro ts n hs hn rest hparen hbracket _ p
  cases hs with
  | @dice die keyword slot count faces label modifier c target written cs fs ms ls hsc hd hx hsf hk hw hcmp ht hl =>
    obtain ⟨e, rfl⟩ := exists_written hcmp
    cases ht
    simp only [List.length_append, List.length_cons] at hn
    have hparenDie : nextKind (die :: (fs ++ keyword :: (ms ++ (ls ++ rest)))) ≠ .leftParen := by simp [hd]
    have hbracketDie : nextKind (die :: (fs ++ keyword :: (ms ++ (ls ++ rest)))) ≠ .leftBracket := by simp [hd]
    obtain ⟨m, count', hm, hsamec, hec⟩ := hcount hsc (by omega : cs.length ≤ n + 1) hparenDie hbracketDie
      (fun h => absurd h hbareCount) p
    obtain ⟨m, rfl⟩ : ∃ k, m = k + 1 := ⟨m - 1, by omega⟩
    have hparenKeyword : nextKind (keyword :: (ms ++ (ls ++ rest))) ≠ .leftParen := by
      rw [nextKind_cons]
      rcases hk with h | h | h <;> simp [h]
    obtain ⟨faces', hef, hsamef⟩ := hfaces.faces hhead hsf (by omega : fs.length ≤ n + 1) hparenKeyword
      (die :: (cs.reverse ++ p))
    -- behind the value stands a label, or what follows the whole
    have hparenLabel : nextKind (ls ++ rest) ≠ .leftParen := by
      rcases nextKind_labels hl rest with ⟨-, h⟩ | ⟨-, h⟩
      · rw [h]
        exact hparen
      · rw [h]
        decide
    obtain ⟨e', hee, hsamee⟩ := parses_compared hcmp (ls ++ rest)
      (fun ts hlt hse hg => hvalue.group hse (by omega : ts.length ≤ n + 1) hparenLabel hg)
      (keyword :: (fs.reverse ++ die :: (cs.reverse ++ p)))
    refine ⟨m, .dice (cs.reverse ++ p).length count' faces' label modifier c (.value e'), ?_, ?_, ?_⟩
    · simp only [List.length_append, List.length_cons]
      omega
    · simp only [Expr.forgetSlots, hsamec, hsamef, hsamee]
    · have hts : cs ++ die :: (fs ++ keyword :: (ms ++ ls)) ++ rest =
          cs ++ die :: (fs ++ keyword :: (ms ++ (ls ++ rest))) := by simp
      have hpassed : ls.reverse ++ (ms.reverse ++ keyword :: (fs.reverse ++ die :: (cs.reverse ++ p))) =
          (cs ++ die :: (fs ++ keyword :: (ms ++ ls))).reverse ++ p := by simp
      rw [hts, hec, ← hpassed]
      exact diceChain_succ hd hx hef (optionalModifier_some hk hw hsel hee) hl hbracket

theorem parsesCall_pool {entries : List Expr} {modifier : Modifier} {c : Comparison} {e : Expr}
    (hentries : ∀ a ∈ entries, ParsesAt a .choice) (hcanonical : ∀ a ∈ entries, a.Everywhere Expr.Canonical)
    (hvalue : ParsesCall e) : ParsesCall (.pool entries modifier c (some e)) := by
  intro ts n hs hn labelled rest _ hparen _
  refine Parses.call (fun p => ?_) hparen
  cases hs with
  | @pool opener closer keyword entries modifier c target written ts ms ho hse hcl hk hw hcmp ht =>
    obtain ⟨e, rfl⟩ := exists_written hcmp
    cases ht
    simp only [List.length_append, List.length_cons] at hn
    obtain ⟨n, rfl⟩ : ∃ k, n = k + 1 := ⟨n - 1, by omega⟩
    obtain ⟨entries', hea, hsamea⟩ := parses_exprsUpTo (.inr rfl) hentries hcanonical hse (by omega : ts.length ≤ n + 1)
      (by omega : ts.length ≤ n + 1 + 1) (show nextKind (closer :: keyword :: (ms ++ rest)) = .rightBrace from hcl)
      (opener :: p)
    obtain ⟨e', hee, hsamee⟩ := parses_compared hcmp rest
      (fun ts hlt hse hg => hvalue.group hse (by omega : ts.length ≤ n + 1) hparen hg)
      (keyword :: closer :: (ts.reverse ++ opener :: p))
    refine ⟨.pool entries' modifier c (some e'), ?_, by simp [Expr.forgetSlots, hsamea, hsamee]⟩
    have hts : opener :: (ts ++ closer :: keyword :: ms) ++ rest =
        opener :: (ts ++ closer :: keyword :: (ms ++ rest)) := by simp
    rw [hts]
    refine (primary_ok (by simp [ho])).trans ?_
    unfold primaryFrom
    rw [ho]
    refine (bind_ok hea).trans ?_
    refine (bind_ok (expect_ok hcl (by decide))).trans ?_
    refine (bind_ok (poolModifier_ok hk hw hee)).trans ?_
    exact pure_ok _ (by simp)

/-! ### All expressions -/

/-- Every canonical expression is read from its renderings. -/
theorem readable {e : Expr} (h : e.Everywhere Expr.Canonical) : Readable e := by
  induction e using Expr.ind with
  | literal v label => exact .of_own h.self (parsesCall_literal v label)
  | substitution slot key label => exact .of_own h.self (parsesCall_substitution slot key label)
  | group inner ih =>
    have hinner := ih (Expr.everywhere_group.1 h).2
    exact .of_own h.self (parsesCall_group (hinner.choice))
  | unary op operand ih =>
    have hoperand := ih (Expr.everywhere_unary.1 h).2
    obtain ⟨⟨⟨t, rfl, ht⟩, hl⟩, -⟩ := h.self
    exact .of_own h.self (parsesSigned_unary ht (hoperand.signed hl))
  | binary op left right ihl ihr =>
    have hleft := ihl (Expr.everywhere_binary.1 h).2.1
    have hright := ihr (Expr.everywhere_binary.1 h).2.2
    obtain ⟨⟨t, l, rfl, hop, hll, hlr⟩, -⟩ := h.self
    have hl := Expr.le_of_level? hop
    have htighter : l.tighter ≤ .dice := Level.tighter_le (Level.lt_of_le_of_lt hl.2 (by decide))
    refine .of_own h.self ?_
    rw [Expr.level_binary hop, readsOn_chain hl]
    exact opensAt_binary hop (hleft.chain hl hll) (hright.level htighter (Level.tighter_le hlr))
  | choice c t e ihc iht ihe =>
    obtain ⟨⟨hne, -⟩, hc, ht, he⟩ := Expr.everywhere_choice.1 h
    have hle : Level.equality ≤ c.level := by
      rcases Level.eq_or_lt_of_le (show Level.choice ≤ c.level from Nat.zero_le _) with heq | hlt
      · exact absurd heq hne
      · exact Level.tighter_le hlt
    exact .of_own h.self (parsesAt_choice ((ihc hc).level (by decide) hle) (iht ht).choice (ihe he).choice)
  | call callee token arguments ihc iha =>
    obtain ⟨-, t, rfl, -, rfl⟩ := h.self
    have hparts := (Expr.everywhere_call.1 h).2.2
    exact .of_own h.self (parsesCall_call (fun a ha => (iha a ha (hparts a ha)).choice) hparts)
  | dice slot count faces label modifier c target ihc ihf iht =>
    obtain ⟨hself, hcount, hfaces, htarget⟩ := Expr.everywhere_dice.1 h
    have hcanonical := hself
    obtain ⟨⟨hlc, hlf, hhead, hsel, habsent, hlt⟩, hbare, hwritten⟩ := hself
    have hopens := (ihc hcount).dice hlc
    have hcall := (ihf hfaces).call hlf
    refine .of_own hcanonical ?_
    cases target with
    | absent =>
      obtain rfl : modifier = .plain := habsent.2 rfl
      obtain rfl : c = .equal := hwritten
      exact opensDice_plain hbare hhead hopens hcall
    | faces => exact hwritten.elim
    | value e => exact opensDice_modified hbare hhead hsel hopens hcall ((iht e rfl (htarget e rfl)).call (hlt e rfl))
  | pool entries modifier c target ihe iht =>
    obtain ⟨⟨⟨⟨e, rfl, hle⟩, -⟩, -⟩, hparts, htarget⟩ := Expr.everywhere_pool.1 h
    exact .of_own h.self
      (parsesCall_pool (fun a ha => (ihe a ha (hparts a ha)).choice) hparts
        ((iht e rfl (htarget e rfl)).call hle))
  | foreign text => exact h.self.1.elim

end Rule

namespace Expr

/-- **Parsing undoes rendering.** A canonical expression has a rendering; and from any rendering of it, closed by an
end of input, the same expression is read, with slots of its own. -/
theorem ofTokens_rendering {e : Expr} (h : e.Everywhere Canonical) :
    (∃ ts, Spelled .careful e ts) ∧ ∀ ts last, Spelled .careful e ts → last.kind = .endOfInput →
      ∃ e', ofTokens (ts ++ [last]) = .ok e' ∧ e'.forgetSlots = e.forgetSlots := by
  refine ⟨exists_rendering h, fun ts last hs hlast => ?_⟩
  have hends : Ends .choice [last] := ⟨.choice, by rw [nextKind_cons, hlast]; rfl, Level.le_refl _⟩
  have hparses : Rule.ParsesAt e .choice := (Rule.readable h).choice
  obtain ⟨e', he, hsame⟩ := hparses hs (Nat.le_succ ts.length) hends []
  refine ⟨e', ?_, hsame⟩
  have hlength : (ts ++ [last]).length = ts.length + 1 := by simp
  have hend : (⟨ts.reverse ++ [], [last]⟩ : Cursor).sees [.endOfInput] = true := Rule.sees_iff.2 hlast
  have hrule : Rule.expr (ts ++ [last]).length (.start (ts ++ [last])) = .ok (e', ⟨ts.reverse ++ [], [last]⟩) := by
    rw [hlength]
    exact he
  unfold ofTokens
  rw [hrule]
  show (if (⟨ts.reverse ++ [], [last]⟩ : Cursor).sees [.endOfInput] then _ else _) = _
  rw [if_pos hend]
  rfl

/-- A choice on dice of dice with a label, a modifier and groups, between a call and a pool. -/
def ofEveryKind : Expr :=
  let zero : Expr := .literal (some (.number .zero)) none
  let sum : Expr := .group (.binary (some ⟨.plus, "+", 0⟩) zero (.unary (some ⟨.minus, "-", 0⟩) zero))
  let labelled : Expr := .dice 0 sum (.substitution 1 (some (.string "faces")) none) (some "hit points")
    .countSuccesses .greaterEqual (.value sum)
  .choice (.dice 2 labelled zero none .plain .equal .absent)
    (.call (.literal (some (.string "max")) none) (some ⟨.name, "max", 0⟩) [zero, .literal (some (.bool true)) none])
    (.pool [zero, labelled] .keepHighest .equal (some zero))

theorem ofTokens_rendering_ofEveryKind : (∃ ts, Spelled .careful ofEveryKind ts) ∧
    ∀ ts last, Spelled .careful ofEveryKind ts → last.kind = .endOfInput →
      ∃ e', ofTokens (ts ++ [last]) = .ok e' ∧ e'.forgetSlots = ofEveryKind.forgetSlots := by
  have hlevels : Level.dice ≤ .dice ∧ Level.dice ≤ .call ∧ (Level.term ≤ .call ∧ Level.term < .sign) ∧
      Level.sign ≤ .call := by decide
  refine ofTokens_rendering ?_
  simpa [ofEveryKind, Canonical, Fits, IsWritten, isBareDice, level, headLabel, Target.expr?, Token.Kind.level?,
    Modifier.isSelection] using hlevels

end Expr

end DiceNotation
