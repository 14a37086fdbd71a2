import DiceNotation.Proofs.Grammar

/-!
What the rules of the grammar read.

A rule that gives an expression has passed tokens that spell it, has put every node on its level, and has numbered the
slots in the order of the text. The induction is on the bound of the rules; a repetition is an induction of its own,
over what stands to the left of it so far.

Main statement: `Rule.reads_expr`.
-/

namespace DiceNotation

open Token

/-! ### Cursors -/

namespace Token.Cursor

variable {c c' c'' : Cursor} {ts us : List Token} {t : Token}

/-- The second cursor stands behind some tokens at the first one, none of which ends the input. -/
structure Passes (c : Cursor) (ts : List Token) (c' : Cursor) : Prop where
  ahead : c.ahead = ts ++ c'.ahead
  passed : c'.passed = ts.reverse ++ c.passed
  inner : ∀ t ∈ ts, t.kind ≠ .endOfInput

namespace Passes

theorem refl (c : Cursor) : Passes c [] c := ⟨rfl, rfl, fun _ h => by cases h⟩

theorem trans (h : Passes c ts c') (h' : Passes c' us c'') : Passes c (ts ++ us) c'' where
  ahead := by rw [h.ahead, h'.ahead, List.append_assoc]
  passed := by rw [h'.passed, h.passed, List.reverse_append, List.append_assoc]
  inner t ht := (List.mem_append.1 ht).elim (h.inner t) (h'.inner t)

theorem cons (h : Passes c [t] c') (h' : Passes c' us c'') : Passes c (t :: us) c'' := h.trans h'

theorem position (h : Passes c ts c') : c'.position = c.position + ts.length := by
  simp only [Cursor.position, h.passed, List.length_append, List.length_reverse]
  omega

theorem position_le (h : Passes c ts c') : c.position ≤ c'.position := by
  have := h.position
  omega

theorem previous (h : Passes c (ts ++ [t]) c') : c'.previous = t := by
  simp [Cursor.previous, h.passed]

theorem eq_nil (h : Passes c ts c) : ts = [] := by
  have hposition := h.position
  exact List.eq_nil_of_length_eq_zero (by omega)

theorem eq_of_nil (h : Passes c [] c') : c' = c := by
  rcases c, c' with ⟨⟨passed, ahead⟩, ⟨passed', ahead'⟩⟩
  exact congr (congrArg Cursor.mk h.passed) h.ahead.symm

end Passes

theorem passes_advance (h : c.current.kind ≠ .endOfInput) : Passes c [c.current] c.advance := by
  rcases c with ⟨passed, _ | ⟨t, rest⟩⟩
  · exact absurd rfl h
  · have ht : t.kind ≠ .endOfInput := h
    refine ⟨?_, ?_, ?_⟩
    · simp [current, advance, ht]
    · simp [current, advance, ht]
    · simpa [current] using ht

end Token.Cursor

open Token.Cursor

/-! ### Slots between positions -/

/-- Slots that increase and lie between two positions. -/
structure Within (a b : Nat) (slots : List Nat) : Prop where
  le : a ≤ b
  sorted : slots.Pairwise (· < ·)
  bounds : ∀ s ∈ slots, a ≤ s ∧ s < b

namespace Within

variable {a b d : Nat} {slots slots' : List Nat}

theorem nil (h : a ≤ b) : Within a b [] := ⟨h, .nil, fun _ h => by cases h⟩

theorem single (a : Nat) : Within a (a + 1) [a] :=
  ⟨by omega, List.pairwise_singleton _ _, fun s hs => by rw [List.mem_singleton.1 hs]; omega⟩

theorem append (h : Within a b slots) (h' : Within b d slots') : Within a d (slots ++ slots') where
  le := Nat.le_trans h.le h'.le
  sorted := List.pairwise_append.2 ⟨h.sorted, h'.sorted, fun s hs s' hs' => by
    have := h.bounds s hs
    have := h'.bounds s' hs'
    omega⟩
  bounds s hs := by
    have := h.le
    have := h'.le
    rcases List.mem_append.1 hs with hs | hs
    · have := h.bounds s hs
      omega
    · have := h'.bounds s hs
      omega

theorem weaken (h : Within a b slots) (hd : b ≤ d) : Within a d slots := by
  simpa using h.append (nil hd)

theorem weaken_left (h : Within b d slots) (hb : a ≤ b) : Within a d slots := (nil hb).append h

theorem nodup (h : Within a b slots) : slots.Nodup := h.sorted.imp fun hlt => Nat.ne_of_lt hlt

end Within

/-! ### Steps -/

namespace Rule

variable {α β : Type} {c c' c'' : Cursor}

/-- Whenever the rule gives something, it stands in this relation to the cursors before and behind it. -/
def Ensures (x : Rule α) (P : Cursor → α → Cursor → Prop) : Prop := ∀ ⦃c a c'⦄, x c = .ok (a, c') → P c a c'

theorem bind_eq_ok {x : Rule α} {f : α → Rule β} {b : β} (h : (x >>= f) c = .ok (b, c'')) :
    ∃ a c', x c = .ok (a, c') ∧ f a c' = .ok (b, c'') := by
  change (x c >>= fun r => f r.1 r.2) = _ at h
  cases hx : x c with
  | error e => rw [hx] at h; cases h
  | ok r => rw [hx] at h; exact ⟨r.1, r.2, rfl, h⟩

theorem pure_eq_ok {a b : α} (h : (pure a : Rule α) c = .ok (b, c')) : a = b ∧ c = c' := by
  cases h
  exact ⟨rfl, rfl⟩

theorem get_eq_ok {d : Cursor} (h : (get : Rule Cursor) c = .ok (d, c')) : d = c ∧ c' = c := by
  cases h
  exact ⟨rfl, rfl⟩

theorem sees_eq_ok {kinds : List Kind} {b : Bool} (h : sees kinds c = .ok (b, c')) :
    b = kinds.contains c.current.kind ∧ c' = c := by
  cases h
  exact ⟨rfl, rfl⟩

theorem seesDice_eq_ok {b : Bool} (h : seesDice c = .ok (b, c')) :
    (b = true → c.current.kind = .name ∧ (c.current.lexeme = "d" ∨ c.current.lexeme = "D")) ∧ c' = c := by
  cases h
  simp

theorem next_eq_ok {t : Token} (h : next c = .ok (t, c')) (hc : c.current.kind ≠ .endOfInput) :
    t = c.current ∧ Passes c [t] c' := by
  cases h
  exact ⟨rfl, passes_advance hc⟩

theorem sees_iff {kind : Kind} : c.sees [kind] = true ↔ c.current.kind = kind := by
  simp [Cursor.sees]

theorem expect_eq_ok {kind : Kind} {hint : String} {t : Token} (hk : kind ≠ .endOfInput)
    (h : expect kind hint c = .ok (t, c')) : t.kind = kind ∧ Passes c [t] c' := by
  change (if c.sees [kind] then _ else _) = _ at h
  by_cases hs : c.sees [kind] = true
  · rw [if_pos hs] at h
    cases h
    have hc := sees_iff.1 hs
    exact ⟨hc, passes_advance (hc ▸ hk)⟩
  · rw [if_neg hs] at h
    cases h

theorem skip_eq_ok {kind : Kind} {b : Bool} (hk : kind ≠ .endOfInput) (h : skip [kind] c = .ok (b, c')) :
    (b = true ∧ ∃ t, t.kind = kind ∧ Passes c [t] c') ∨ (b = false ∧ c' = c) := by
  change Except.ok (if c.sees [kind] then _ else _) = _ at h
  by_cases hs : c.sees [kind] = true
  · rw [if_pos hs] at h
    cases h
    have hc := sees_iff.1 hs
    exact .inl ⟨rfl, c.current, hc, passes_advance (hc ▸ hk)⟩
  · rw [if_neg hs] at h
    cases h
    exact .inr ⟨rfl, rfl⟩

theorem nextAll_eq_ok {kind : Kind} {ts : List Token} (hk : kind ≠ .endOfInput) (h : nextAll kind c = .ok (ts, c')) :
    (∀ t ∈ ts, t.kind = kind) ∧ Passes c ts c' := by
  cases h
  have hall : ∀ t ∈ c.ahead.takeWhile (·.kind == kind), t.kind = kind := fun t ht => by
    simpa using List.all_eq_true.1 (List.all_takeWhile (p := (·.kind == kind)) (l := c.ahead)) t ht
  obtain ⟨rest, hrest⟩ := List.takeWhile_prefix (p := (·.kind == kind)) (l := c.ahead)
  have hdrop : (c.ahead.takeWhile (·.kind == kind) ++ rest).drop (c.ahead.takeWhile (·.kind == kind)).length = rest :=
    List.drop_left
  rw [hrest] at hdrop
  exact ⟨hall, by rw [hdrop, hrest], rfl, fun t ht => hall t ht ▸ hk⟩

/-! ### What a rule has read -/

/-- Between two cursors stands an expression of a level. -/
structure Reads (l : Level) (c : Cursor) (e : Expr) (c' : Cursor) : Prop where
  spelled : ∃ ts, Passes c ts c' ∧ Spelled .free e ts
  fits : e.Everywhere Expr.Fits
  level : l ≤ e.level
  slots : Within c.position c'.position e.slots

/-- Between two cursors stand expressions that are spelled in a way. -/
structure ReadsMany (spelling : List Expr → List Token → Prop) (c : Cursor) (es : List Expr) (c' : Cursor) :
    Prop where
  spelled : ∃ ts, Passes c ts c' ∧ spelling es ts
  fits : ∀ e ∈ es, e.Everywhere Expr.Fits
  slots : Within c.position c'.position (Expr.slotsOf es)

/-- Between two cursors stands what follows the keyword of a modifier. -/
structure ReadsComparison (c : Cursor) (r : Comparison × Option Expr) (c' : Cursor) : Prop where
  spelled : ∃ ts, Passes c ts c' ∧ Compared .free r.1 r.2 ts
  fits : ∀ e, r.2 = some e → e.Everywhere Expr.Fits ∧ e.level = .call
  slots : Within c.position c'.position ((r.2.map Expr.slots).getD [])

theorem ReadsMany.empty {spelling : List Expr → List Token → Prop} (h : spelling [] []) (c : Cursor) :
    ReadsMany spelling c [] c :=
  ⟨⟨[], .refl _, h⟩, fun _ h => (List.not_mem_nil h).elim, .nil (Nat.le_refl _)⟩

theorem Reads.loosen {l l' : Level} {e : Expr} (h : Reads l c e c') (hl : l' ≤ l) : Reads l' c e c' :=
  { h with level := Level.le_trans hl h.level }

/-- An expression without slots, whose parts are of no account. -/
theorem Reads.of_leaf {e : Expr} {ts : List Token} (hp : Passes c ts c') (hs : Spelled .free e ts)
    (hc : e.children = .ok []) (hf : e.Fits) (hn : Within c.position c'.position e.slots) (hl : e.level = .call) :
    Reads .call c e c' :=
  ⟨⟨ts, hp, hs⟩, (Expr.everywhere_iff hc).2 ⟨hf, fun _ h => by cases h⟩, hl ▸ Level.le_refl _, hn⟩

/-- Rules for what is nested that read what they should. -/
structure Inner.Sound (inner : Inner) : Prop where
  expr : inner.expr.Ensures (Reads .choice)
  call : inner.call.Ensures (Reads .call)

/-! ### Labels and lists -/

theorem ensures_label : label.Ensures fun c l c' => ∃ ts, Passes c ts c' ∧ Labels l ts := by
  intro c l c' h
  obtain ⟨b, c₁, h₁, k₁⟩ := bind_eq_ok h
  rcases skip_eq_ok (by decide) h₁ with ⟨rfl, opener, ho, hp₁⟩ | ⟨rfl, rfl⟩
  · obtain ⟨words, c₂, h₂, k₂⟩ := bind_eq_ok k₁
    obtain ⟨closer, c₃, h₃, k₃⟩ := bind_eq_ok k₂
    obtain ⟨rfl, rfl⟩ := pure_eq_ok k₃
    obtain ⟨hw, hp₂⟩ := nextAll_eq_ok (by decide) h₂
    obtain ⟨hc, hp₃⟩ := expect_eq_ok (by decide) h₃
    exact ⟨_, hp₁.cons (hp₂.trans hp₃), .words ho hw hc⟩
  · obtain ⟨rfl, rfl⟩ := pure_eq_ok k₁
    exact ⟨[], .refl _, .absent⟩

theorem ensures_labelIf (labelled : Bool) : (labelIf labelled).Ensures fun c l c' =>
    (∃ ts, Passes c ts c' ∧ Labels l ts) ∧ (labelled = false → l = none) := by
  intro c l c' h
  cases labelled with
  | true => exact ⟨ensures_label h, fun hf => by cases hf⟩
  | false =>
    obtain ⟨rfl, rfl⟩ := pure_eq_ok h
    exact ⟨⟨[], .refl _, .absent⟩, fun _ => rfl⟩

section

variable {inner : Inner} (hi : inner.Sound)

include hi

theorem ensures_commaExprs (n : Nat) : (commaExprs inner n).Ensures (ReadsMany (SpelledRest .free)) := by
  induction n with
  | zero =>
    intro c es c' h
    obtain ⟨rfl, rfl⟩ := pure_eq_ok h
    exact .empty .nil _
  | succ n ih =>
    intro c es c' h
    obtain ⟨b, c₁, h₁, k₁⟩ := bind_eq_ok h
    rcases skip_eq_ok (by decide) h₁ with ⟨rfl, comma, hc, hp⟩ | ⟨rfl, rfl⟩
    · obtain ⟨e, c₂, h₂, k₂⟩ := bind_eq_ok k₁
      obtain ⟨es', c₃, h₃, k₃⟩ := bind_eq_ok k₂
      obtain ⟨rfl, rfl⟩ := pure_eq_ok k₃
      have he := hi.expr h₂
      have hes := ih h₃
      obtain ⟨ts, hts, hse⟩ := he.spelled
      obtain ⟨us, hus, hses⟩ := hes.spelled
      refine ⟨⟨_, hp.cons (hts.trans hus), .cons hc hse hses⟩, List.forall_mem_cons.2 ⟨he.fits, hes.fits⟩, ?_⟩
      exact (he.slots.append hes.slots).weaken_left hp.position_le
    · obtain ⟨rfl, rfl⟩ := pure_eq_ok k₁
      exact .empty .nil _

theorem ensures_exprsUpTo (closer : Kind) (n : Nat) :
    (exprsUpTo closer inner n).Ensures (ReadsMany (SpelledAll .free)) := by
  intro c es c' h
  obtain ⟨b, c₁, h₁, k₁⟩ := bind_eq_ok h
  obtain ⟨-, rfl⟩ := sees_eq_ok h₁
  cases b with
  | true =>
    obtain ⟨rfl, rfl⟩ := pure_eq_ok k₁
    exact .empty .nil _
  | false =>
    obtain ⟨e, c₂, h₂, k₂⟩ := bind_eq_ok k₁
    obtain ⟨es', c₃, h₃, k₃⟩ := bind_eq_ok k₂
    obtain ⟨rfl, rfl⟩ := pure_eq_ok k₃
    have he := hi.expr h₂
    have hes := ensures_commaExprs hi n h₃
    obtain ⟨ts, hts, hse⟩ := he.spelled
    obtain ⟨us, hus, hses⟩ := hes.spelled
    exact ⟨⟨_, hts.trans hus, .cons hse hses⟩, List.forall_mem_cons.2 ⟨he.fits, hes.fits⟩, he.slots.append hes.slots⟩

end

/-! ### Modifiers -/

theorem fits_number (x : Number) (label : Option String) :
    (Expr.literal (some (.number x)) label).Everywhere Expr.Fits :=
  Expr.everywhere_literal.2 trivial

theorem ensures_comparison {value : Rule Expr} (hv : value.Ensures (Reads .call)) :
    (comparison value).Ensures ReadsComparison := by
  intro c r c' h
  obtain ⟨d, c₁, h₁, k₁⟩ := bind_eq_ok h
  obtain ⟨rfl, rfl⟩ := get_eq_ok h₁
  cases ho : comparisonOf? c₁.current.kind with
  | some comparison =>
    rw [ho] at k₁
    have hd : c₁.current.kind ≠ .endOfInput := fun hd => by rw [hd] at ho; cases ho
    obtain ⟨op, c₂, h₂, k₂⟩ := bind_eq_ok k₁
    obtain ⟨e, c₃, h₃, k₃⟩ := bind_eq_ok k₂
    obtain ⟨rfl, rfl⟩ := pure_eq_ok k₃
    obtain ⟨rfl, hp⟩ := next_eq_ok h₂ hd
    have he := hv h₃
    obtain ⟨ts, hts, hs⟩ := he.spelled
    refine ⟨⟨_, hp.cons hts, .operator ho trivial hs⟩, ?_, he.slots.weaken_left hp.position_le⟩
    rintro _ ⟨⟩
    exact ⟨he.fits, Level.eq_call_of_le he.level⟩
  | none =>
    rw [ho] at k₁
    obtain ⟨b, c₂, h₂, k₂⟩ := bind_eq_ok k₁
    obtain ⟨hb, rfl⟩ := sees_eq_ok h₂
    cases b with
    | true =>
      have hd : c₂.current.kind = .number := by simpa using hb.symm
      obtain ⟨t, c₃, h₃, k₃⟩ := bind_eq_ok k₂
      obtain ⟨rfl, rfl⟩ := pure_eq_ok k₃
      obtain ⟨rfl, hp⟩ := next_eq_ok h₃ (by simp [hd])
      refine ⟨⟨_, hp, .number hd⟩, ?_, .nil hp.position_le⟩
      rintro _ ⟨⟩
      exact ⟨fits_number _ _, rfl⟩
    | false =>
      obtain ⟨rfl, rfl⟩ := pure_eq_ok k₂
      exact ⟨⟨[], .refl _, .bare rfl⟩, (fun _ h => by cases h), .nil (Nat.le_refl _)⟩

/-- A part of the notation that a modifier of dice is, or the absence of one. -/
structure ReadsModifier (c : Cursor) (r : Modifier × Comparison × Target Expr) (c' : Cursor) : Prop where
  spelled : ∃ ts, Passes c ts c' ∧ ∀ {die : Token} {slot count faces label cs fs ls},
    Spelled .free count cs → die.kind = .name → (die.lexeme = "d" ∨ die.lexeme = "D") → Spelled .free faces fs →
      Labels label ls → Spelled .free (.dice slot count faces label r.1 r.2.1 r.2.2) (cs ++ die :: (fs ++ (ts ++ ls)))
  selection : r.1.isSelection → r.2.1 = .equal
  absent : ∀ faces, r.1 = .plain ↔ r.2.2.expr? faces = none
  fits : ∀ e, r.2.2 = .value e → e.Everywhere Expr.Fits ∧ e.level = .call
  slots : Within c.position c'.position (Expr.targetSlots r.2.2)

theorem ne_plain_of_keyword {keyword : String} {modifier : Modifier}
    (h : Modifier.ofKeyword? keyword = some modifier) : modifier ≠ .plain := by
  rintro rfl
  unfold Modifier.ofKeyword? at h
  split at h <;> cases h

theorem targetSlots_targetOf (modifier : Modifier) (written : Option Expr) :
    Expr.targetSlots (targetOf modifier written) = (written.map Expr.slots).getD [] := by
  cases written with
  | some e => rfl
  | none =>
    rw [targetOf]
    split <;> rfl

theorem expr?_targetOf (modifier : Modifier) (written : Option Expr) (faces : Expr) :
    (targetOf modifier written).expr? faces ≠ none := by
  cases written with
  | some e => simp [targetOf, Target.expr?]
  | none =>
    rw [targetOf]
    split <;> simp [Target.expr?]

theorem eq_of_targetOf {modifier : Modifier} {written : Option Expr} {e : Expr}
    (h : targetOf modifier written = .value e) : written = some e ∨ e = one := by
  cases written with
  | some e' => cases h; exact .inl rfl
  | none =>
    rw [targetOf] at h
    split at h <;> cases h
    exact .inr rfl

theorem ensures_diceModifier {value : Rule Expr} (hv : value.Ensures (Reads .call))
    {r : Modifier × Comparison × Target Expr} (h : diceModifier value c = .ok (r, c'))
    (hc : c.current.kind = .name ∨ c.current.kind = .bang ∨ c.current.kind = .doubleBang) :
    ReadsModifier c r c' := by
  have hc' : c.current.kind ≠ .endOfInput := by
    rintro he
    rw [he] at hc
    revert hc
    decide
  obtain ⟨keyword, c₁, h₁, k₁⟩ := bind_eq_ok h
  obtain ⟨rfl, hp⟩ := next_eq_ok h₁ hc'
  cases hw : Modifier.ofKeyword? c.current.lexeme with
  | none => rw [hw] at k₁; cases k₁
  | some modifier =>
    rw [hw] at k₁
    obtain ⟨d, c₂, h₂, k₂⟩ := bind_eq_ok k₁
    obtain ⟨rfl, rfl⟩ := get_eq_ok h₂
    obtain ⟨⟨comparison, written⟩, c₃, h₃, k₃⟩ := bind_eq_ok k₂
    have hr := ensures_comparison hv h₃
    obtain ⟨ms, hms, hm⟩ := hr.spelled
    have hsel : ¬(modifier.isSelection && decide (comparison ≠ .equal)) = true := by
      intro hsel
      dsimp only at k₃
      rw [if_pos hsel] at k₃
      cases k₃
    dsimp only at k₃
    rw [if_neg hsel] at k₃
    obtain ⟨rfl, rfl⟩ := pure_eq_ok k₃
    refine ⟨⟨_, hp.cons hms, fun hcs hd hx hfs hl => .dice hcs hd hx hfs hc hw hm rfl hl⟩, ?_, ?_, ?_, ?_⟩
    · intro hs
      simpa [hs] using hsel
    · exact fun faces => iff_of_false (ne_plain_of_keyword hw) (expr?_targetOf _ _ faces)
    · intro e he
      rcases eq_of_targetOf he with he | rfl
      · exact hr.fits e he
      · exact ⟨fits_number _ _, rfl⟩
    · rw [targetSlots_targetOf]
      exact hr.slots.weaken_left hp.position_le

theorem ensures_optionalModifier {value : Rule Expr} (hv : value.Ensures (Reads .call)) :
    (optionalModifier value).Ensures ReadsModifier := by
  intro c r c' h
  obtain ⟨b, c₁, h₁, k₁⟩ := bind_eq_ok h
  obtain ⟨hb, rfl⟩ := sees_eq_ok h₁
  cases b with
  | true => exact ensures_diceModifier hv k₁ (by simpa using hb.symm)
  | false =>
    obtain ⟨rfl, rfl⟩ := pure_eq_ok k₁
    refine ⟨⟨[], .refl _, fun hcs hd hx hfs hl => .plainDice hcs hd hx hfs hl⟩, ?_, ?_, ?_, .nil (Nat.le_refl _)⟩
    · exact fun h => by cases h
    · exact fun faces => iff_of_true rfl rfl
    · exact fun e he => by cases he

theorem isPool_of_keyword {keyword : String} {modifier : Modifier}
    (h : Modifier.ofPoolKeyword? keyword = some modifier) : modifier = .countSuccesses ∨ modifier.isSelection := by
  unfold Modifier.ofPoolKeyword? at h
  split at h <;> cases h <;> first | exact .inl rfl | exact .inr rfl

/-- Between two cursors stands the modifier of a pool. -/
structure ReadsPoolModifier (c : Cursor) (r : Modifier × Comparison × Expr) (c' : Cursor) : Prop where
  spelled : ∃ keyword ts written, Passes c (keyword :: ts) c' ∧ keyword.kind = .name ∧
    Modifier.ofPoolKeyword? keyword.lexeme = some r.1 ∧ Compared .free r.2.1 written ts ∧ r.2.2 = written.getD one
  fits : r.2.2.Everywhere Expr.Fits ∧ r.2.2.level = .call
  slots : Within c.position c'.position r.2.2.slots

theorem ensures_poolModifier {value : Rule Expr} (hv : value.Ensures (Reads .call)) :
    (poolModifier value).Ensures ReadsPoolModifier := by
  intro c r c' h
  obtain ⟨d, c₁, h₁, k₁⟩ := bind_eq_ok h
  obtain ⟨rfl, rfl⟩ := get_eq_ok h₁
  dsimp only at k₁
  by_cases hk : c₁.current.kind = .name
  · rw [if_pos hk] at k₁
    cases hw : Modifier.ofPoolKeyword? c₁.current.lexeme with
    | none => rw [hw] at k₁; cases k₁
    | some modifier =>
      rw [hw] at k₁
      obtain ⟨keyword, c₂, h₂, k₂⟩ := bind_eq_ok k₁
      obtain ⟨rfl, hp⟩ := next_eq_ok h₂ (by simp [hk])
      obtain ⟨⟨comparison, written⟩, c₃, h₃, k₃⟩ := bind_eq_ok k₂
      obtain ⟨rfl, rfl⟩ := pure_eq_ok k₃
      have hr := ensures_comparison hv h₃
      obtain ⟨ms, hms, hm⟩ := hr.spelled
      refine ⟨⟨_, ms, written, hp.cons hms, hk, hw, hm, rfl⟩, ?_, ?_⟩
      · cases written with
        | some e => exact hr.fits e rfl
        | none => exact ⟨fits_number _ _, rfl⟩
      · have hs := hr.slots.weaken_left hp.position_le
        cases written with
        | some e => exact hs
        | none => exact hs
  · rw [if_neg hk] at k₁
    cases k₁

/-! ### Primaries and calls -/

/-- An expression of the call level, and without a label at its head if none may stand there. -/
def ReadsCall (labelled : Bool) (c : Cursor) (e : Expr) (c' : Cursor) : Prop :=
  Reads .call c e c' ∧ (labelled = false → e.headLabel = none)

section

variable {inner : Inner} (hi : inner.Sound)

include hi

theorem ensures_primary (labelled : Bool) (n : Nat) : (primary inner labelled n).Ensures (ReadsCall labelled) := by
  intro c e c' h
  obtain ⟨d, c₁, h₁, k₁⟩ := bind_eq_ok h
  obtain ⟨rfl, rfl⟩ := get_eq_ok h₁
  by_cases hend : c₁.current.kind = .endOfInput
  · rw [if_pos hend] at k₁
    cases k₁
  · rw [if_neg hend] at k₁
    obtain ⟨t, c₂, h₂, k₂⟩ := bind_eq_ok k₁
    obtain ⟨rfl, hp⟩ := next_eq_ok h₂ hend
    have hle := hp.position_le
    unfold primaryFrom at k₂
    cases hk : c₁.current.kind with
    | falseWord =>
      rw [hk] at k₂
      obtain ⟨rfl, rfl⟩ := pure_eq_ok k₂
      exact ⟨.of_leaf hp (.false hk) rfl rfl (.nil hle) rfl, fun _ => rfl⟩
    | trueWord =>
      rw [hk] at k₂
      obtain ⟨rfl, rfl⟩ := pure_eq_ok k₂
      exact ⟨.of_leaf hp (.true hk) rfl rfl (.nil hle) rfl, fun _ => rfl⟩
    | number =>
      rw [hk] at k₂
      obtain ⟨label, c₃, h₃, k₃⟩ := bind_eq_ok k₂
      obtain ⟨rfl, rfl⟩ := pure_eq_ok k₃
      obtain ⟨⟨ls, hls, hl⟩, hnone⟩ := ensures_labelIf labelled h₃
      have hp' := hp.cons hls
      exact ⟨.of_leaf hp' (.number hk hl) rfl trivial (.nil hp'.position_le) rfl, hnone⟩
    | substitution =>
      rw [hk] at k₂
      obtain ⟨label, c₃, h₃, k₃⟩ := bind_eq_ok k₂
      obtain ⟨rfl, rfl⟩ := pure_eq_ok k₃
      obtain ⟨⟨ls, hls, hl⟩, hnone⟩ := ensures_labelIf labelled h₃
      have hslot : Within c₁.position c₃.position [c₁.position] := by
        have := Within.single c₁.position
        rw [← show c₂.position = c₁.position + 1 from hp.position] at this
        exact this.weaken hls.position_le
      exact ⟨.of_leaf (hp.cons hls) (.substitution hk hl) rfl ⟨_, rfl⟩ hslot rfl, hnone⟩
    | leftBrace =>
      rw [hk] at k₂
      obtain ⟨entries, c₃, h₃, k₃⟩ := bind_eq_ok k₂
      obtain ⟨closer, c₄, h₄, k₄⟩ := bind_eq_ok k₃
      obtain ⟨⟨modifier, comparison, target⟩, c₅, h₅, k₅⟩ := bind_eq_ok k₄
      obtain ⟨rfl, rfl⟩ := pure_eq_ok k₅
      have hes := ensures_exprsUpTo hi _ n h₃
      obtain ⟨ts, hts, hs⟩ := hes.spelled
      obtain ⟨hc, hp₄⟩ := expect_eq_ok (by decide) h₄
      have hm := ensures_poolModifier hi.call h₅
      obtain ⟨keyword, ms, written, hms, hkw, hw, hcmp, ht⟩ := hm.spelled
      refine ⟨⟨⟨_, hp.cons (hts.trans (hp₄.cons hms)), .pool hk hs hc hkw hw hcmp ht⟩, ?_, Level.le_refl _, ?_⟩,
        fun _ => rfl⟩
      · refine Expr.everywhere_pool.2 ⟨⟨⟨_, rfl, hm.fits.2⟩, isPool_of_keyword hw⟩, hes.fits, ?_⟩
        rintro _ ⟨⟩
        exact hm.fits.1
      · exact (hes.slots.append (hm.slots.weaken_left hp₄.position_le)).weaken_left hle
    | leftParen =>
      rw [hk] at k₂
      obtain ⟨inner', c₃, h₃, k₃⟩ := bind_eq_ok k₂
      obtain ⟨closer, c₄, h₄, k₄⟩ := bind_eq_ok k₃
      obtain ⟨rfl, rfl⟩ := pure_eq_ok k₄
      have he := hi.expr h₃
      obtain ⟨ts, hts, hs⟩ := he.spelled
      obtain ⟨hc, hp₄⟩ := expect_eq_ok (by decide) h₄
      refine ⟨⟨⟨_, hp.cons (hts.trans hp₄), .group hk hs hc⟩, ?_, Level.le_refl _, ?_⟩, fun _ => rfl⟩
      · exact Expr.everywhere_group.2 ⟨trivial, he.fits⟩
      · exact (he.slots.weaken hp₄.position_le).weaken_left hle
    | _ =>
      rw [hk] at k₂
      obtain ⟨rfl, rfl⟩ := pure_eq_ok k₂
      have hname : Style.free.Names c₁.current.kind := by
        show c₁.current.kind ∉ Style.ruled
        rw [hk]
        first | decide | exact absurd hk hend
      exact ⟨.of_leaf hp (.name hname) rfl rfl (.nil hle) rfl, fun _ => rfl⟩

theorem ensures_applications (n : Nat) {labelled : Bool} {c₀ : Cursor} {callee e : Expr}
    (hcallee : ReadsCall labelled c₀ callee c) (h : applications inner n callee c = .ok (e, c')) :
    ReadsCall labelled c₀ e c' := by
  induction n generalizing callee c with
  | zero =>
    obtain ⟨rfl, rfl⟩ := pure_eq_ok h
    exact hcallee
  | succ n ih =>
    obtain ⟨b, c₁, h₁, k₁⟩ := bind_eq_ok h
    obtain ⟨hb, rfl⟩ := sees_eq_ok h₁
    cases b with
    | false =>
      obtain ⟨rfl, rfl⟩ := pure_eq_ok k₁
      exact hcallee
    | true =>
      have ho : c₁.current.kind = .leftParen := by simpa using hb.symm
      obtain ⟨d, c₂, h₂, k₂⟩ := bind_eq_ok k₁
      obtain ⟨rfl, rfl⟩ := get_eq_ok h₂
      obtain ⟨opener, c₃, h₃, k₃⟩ := bind_eq_ok k₂
      obtain ⟨arguments, c₄, h₄, k₄⟩ := bind_eq_ok k₃
      obtain ⟨closer, c₅, h₅, k₅⟩ := bind_eq_ok k₄
      obtain ⟨rfl, hp₃⟩ := next_eq_ok h₃ (by simp [ho])
      have hargs := ensures_exprsUpTo hi _ n h₄
      obtain ⟨hc, hp₅⟩ := expect_eq_ok (by decide) h₅
      refine ih ?_ k₅
      obtain ⟨cs, hcs, hs⟩ := hcallee.1.spelled
      obtain ⟨ts, hts, hss⟩ := hargs.spelled
      obtain ⟨before, last, rfl⟩ : ∃ before last, cs = before ++ [last] :=
        ⟨_, _, (List.dropLast_concat_getLast hs.ne_nil).symm⟩
      have hlast : c₂.previous = last := hcs.previous
      have hp := hcs.trans (hp₃.cons (hts.trans hp₅))
      rw [List.append_assoc] at hp
      rw [hlast]
      refine ⟨⟨⟨_, hp, .call hs ho hss hc⟩, ?_, Level.le_refl _, ?_⟩, hcallee.2⟩
      · exact Expr.everywhere_call.2 ⟨⟨Level.eq_call_of_le hcallee.1.level, rfl⟩, hcallee.1.fits, hargs.fits⟩
      · exact hcallee.1.slots.append
          ((hargs.slots.weaken hp₅.position_le).weaken_left hp₃.position_le)

theorem ensures_call (labelled : Bool) (n : Nat) : (call inner labelled n).Ensures (ReadsCall labelled) := by
  intro c e c' h
  obtain ⟨callee, c₁, h₁, k₁⟩ := bind_eq_ok h
  exact ensures_applications hi n (ensures_primary hi labelled n h₁) k₁

/-! ### Operators -/

theorem ensures_signed (n m : Nat) : (signed inner n m).Ensures (Reads .sign) := by
  induction m with
  | zero => exact fun c e c' h => (ensures_call hi true n h).1.loosen (by decide)
  | succ m ih =>
    intro c e c' h
    obtain ⟨b, c₁, h₁, k₁⟩ := bind_eq_ok h
    obtain ⟨hb, rfl⟩ := sees_eq_ok h₁
    cases b with
    | false => exact (ensures_call hi true n k₁).1.loosen (by decide)
    | true =>
      have ho : c₁.current.kind = .bang ∨ c₁.current.kind = .minus := by simpa using hb.symm
      obtain ⟨op, c₂, h₂, k₂⟩ := bind_eq_ok k₁
      obtain ⟨operand, c₃, h₃, k₃⟩ := bind_eq_ok k₂
      obtain ⟨rfl, rfl⟩ := pure_eq_ok k₃
      obtain ⟨rfl, hp⟩ := next_eq_ok h₂ (by rcases ho with ho | ho <;> simp [ho])
      have he := ih h₃
      obtain ⟨ts, hts, hs⟩ := he.spelled
      refine ⟨⟨_, hp.cons hts, .unary hs⟩, ?_, Level.le_refl _, he.slots.weaken_left hp.position_le⟩
      exact Expr.everywhere_unary.2 ⟨⟨⟨_, rfl, ho⟩, he.level⟩, he.fits⟩

theorem ensures_diceChain (n m : Nat) {c₀ : Cursor} {count e : Expr} (hcount : Reads .dice c₀ count c)
    (h : diceChain inner n m count c = .ok (e, c')) : Reads .dice c₀ e c' := by
  induction m generalizing count c with
  | zero =>
    obtain ⟨rfl, rfl⟩ := pure_eq_ok h
    exact hcount
  | succ m ih =>
    obtain ⟨b, c₁, h₁, k₁⟩ := bind_eq_ok h
    obtain ⟨hb, rfl⟩ := seesDice_eq_ok h₁
    cases b with
    | false =>
      obtain ⟨rfl, rfl⟩ := pure_eq_ok k₁
      exact hcount
    | true =>
      obtain ⟨hd, hx⟩ := hb rfl
      obtain ⟨d, c₂, h₂, k₂⟩ := bind_eq_ok k₁
      obtain ⟨rfl, rfl⟩ := get_eq_ok h₂
      obtain ⟨die, c₃, h₃, k₃⟩ := bind_eq_ok k₂
      obtain ⟨faces, c₄, h₄, k₄⟩ := bind_eq_ok k₃
      obtain ⟨⟨modifier, comparison, target⟩, c₅, h₅, k₅⟩ := bind_eq_ok k₄
      obtain ⟨label, c₆, h₆, k₆⟩ := bind_eq_ok k₅
      obtain ⟨rfl, hp₃⟩ := next_eq_ok h₃ (by simp [hd])
      obtain ⟨hfaces, hhead⟩ := ensures_call hi false n h₄
      have hm := ensures_optionalModifier (fun c e c' h => (ensures_call hi true n h).1) h₅
      obtain ⟨ls, hls, hl⟩ := ensures_label h₆
      refine ih ?_ k₆
      obtain ⟨cs, hcs, hcount'⟩ := hcount.spelled
      obtain ⟨fs, hfs, hfaces'⟩ := hfaces.spelled
      obtain ⟨ms, hms, hspell⟩ := hm.spelled
      have hslot : Within c₂.position c₃.position [c₂.position] := by
        have := Within.single c₂.position
        rwa [← show c₃.position = c₂.position + 1 from hp₃.position] at this
      refine ⟨⟨_, hcs.trans (hp₃.cons (hfs.trans (hms.trans hls))), hspell hcount' hd hx hfaces' hl⟩, ?_,
        Level.le_refl _, ?_⟩
      · refine Expr.everywhere_dice.2 ⟨⟨hcount.level, Level.eq_call_of_le hfaces.level, hhead rfl, hm.selection,
          hm.absent faces, ?_⟩, hcount.fits, hfaces.fits, fun e he => (hm.fits e he).1⟩
        intro e he
        cases target with
        | absent => cases he
        | faces => cases he; exact Level.eq_call_of_le hfaces.level
        | value e' => cases he; exact (hm.fits _ rfl).2
      · rw [Expr.slots_dice]
        exact hcount.slots.append (hslot.append (hfaces.slots.append (hm.slots.weaken hls.position_le)))

theorem ensures_dice (n : Nat) : (dice inner n).Ensures (Reads .dice) := by
  intro c e c' h
  obtain ⟨count, c₁, h₁, k₁⟩ := bind_eq_ok h
  exact ensures_diceChain hi n n ((ensures_signed hi n (n + 1) h₁).loosen (by decide)) k₁

end

section Binary

variable {kinds : List Kind} {l l' : Level} {operand : Rule Expr}
  (hk : ∀ k ∈ kinds, k.level? = some l) (hl : l < l') (ho : operand.Ensures (Reads l'))

include hk hl ho

theorem ensures_binaryChain (m : Nat) {c₀ : Cursor} {left e : Expr} (hleft : Reads l c₀ left c)
    (h : binaryChain kinds operand m left c = .ok (e, c')) : Reads l c₀ e c' := by
  induction m generalizing left c with
  | zero =>
    obtain ⟨rfl, rfl⟩ := pure_eq_ok h
    exact hleft
  | succ m ih =>
    obtain ⟨b, c₁, h₁, k₁⟩ := bind_eq_ok h
    obtain ⟨hb, rfl⟩ := sees_eq_ok h₁
    cases b with
    | false =>
      obtain ⟨rfl, rfl⟩ := pure_eq_ok k₁
      exact hleft
    | true =>
      have hop : c₁.current.kind.level? = some l := hk _ (by simpa using hb.symm)
      obtain ⟨op, c₂, h₂, k₂⟩ := bind_eq_ok k₁
      obtain ⟨right, c₃, h₃, k₃⟩ := bind_eq_ok k₂
      obtain ⟨rfl, hp⟩ := next_eq_ok h₂ fun hend => by rw [hend] at hop; cases hop
      have hright := ho h₃
      refine ih ?_ k₃
      obtain ⟨ls, hls, hsl⟩ := hleft.spelled
      obtain ⟨rs, hrs, hsr⟩ := hright.spelled
      refine ⟨⟨_, hls.trans (hp.cons hrs), .binary hsl hsr⟩, ?_, ?_,
        hleft.slots.append (hright.slots.weaken_left hp.position_le)⟩
      · exact Expr.everywhere_binary.2
          ⟨⟨_, l, rfl, hop, hleft.level, Level.lt_of_lt_of_le hl hright.level⟩, hleft.fits, hright.fits⟩
      · rw [Expr.level_binary hop]
        exact Level.le_refl l

theorem ensures_level (n : Nat) : (level kinds operand n).Ensures (Reads l) := by
  intro c e c' h
  obtain ⟨left, c₁, h₁, k₁⟩ := bind_eq_ok h
  exact ensures_binaryChain hk hl ho n ((ho h₁).loosen (Level.le_of_lt hl)) k₁

end Binary

section

variable {inner : Inner} (hi : inner.Sound)

include hi

theorem ensures_equality (n : Nat) : (equality inner n).Ensures (Reads .equality) := by
  have hfactor : (factor inner n).Ensures (Reads .factor) :=
    ensures_level (by decide) (by decide) (ensures_dice hi n) n
  have hterm : (term inner n).Ensures (Reads .term) := ensures_level (by decide) (by decide) hfactor n
  have hordering : (ordering inner n).Ensures (Reads .ordering) := ensures_level (by decide) (by decide) hterm n
  exact ensures_level (by decide) (by decide) hordering n

theorem ensures_choice (n : Nat) : (choice inner n).Ensures (Reads .choice) := by
  intro c e c' h
  obtain ⟨condition, c₁, h₁, k₁⟩ := bind_eq_ok h
  obtain ⟨b, c₂, h₂, k₂⟩ := bind_eq_ok k₁
  have hcond := ensures_equality hi n h₁
  rcases skip_eq_ok (by decide) h₂ with ⟨rfl, mark, hm, hp₂⟩ | ⟨rfl, rfl⟩
  · obtain ⟨consequent, c₃, h₃, k₃⟩ := bind_eq_ok k₂
    obtain ⟨colon, c₄, h₄, k₄⟩ := bind_eq_ok k₃
    obtain ⟨alternative, c₅, h₅, k₅⟩ := bind_eq_ok k₄
    obtain ⟨rfl, rfl⟩ := pure_eq_ok k₅
    have hcons := hi.expr h₃
    obtain ⟨hn, hp₄⟩ := expect_eq_ok (by decide) h₄
    have halt := hi.expr h₅
    obtain ⟨cs, hcs, hsc⟩ := hcond.spelled
    obtain ⟨ts, hts, hst⟩ := hcons.spelled
    obtain ⟨es, hes, hse⟩ := halt.spelled
    refine ⟨⟨_, hcs.trans (hp₂.cons (hts.trans (hp₄.cons hes))), .choice hsc hm hst hn hse⟩, ?_, Level.le_refl _, ?_⟩
    · have hne : condition.level ≠ .choice := fun hlevel => by
        have := hcond.level
        rw [hlevel] at this
        exact absurd this (by decide)
      exact Expr.everywhere_choice.2 ⟨hne, hcond.fits, hcons.fits, halt.fits⟩
    · exact hcond.slots.append ((hcons.slots.append (halt.slots.weaken_left hp₄.position_le)).weaken_left
        hp₂.position_le)
  · obtain ⟨rfl, rfl⟩ := pure_eq_ok k₂
    exact hcond.loosen (by decide)

end

/-- The rules for what is nested read what they should, whatever the bound. -/
theorem sound_inner (n : Nat) : (Rule.inner n).Sound := by
  induction n with
  | zero => exact ⟨fun c e c' h => (by cases h), fun c e c' h => (by cases h)⟩
  | succ n ih => exact ⟨ensures_choice ih n, fun c e c' h => (ensures_call ih true n h).1⟩

/-- **What an expression rule gives is spelled by the tokens that it passed**, node by node on the levels of the
grammar. -/
theorem reads_expr (n : Nat) : (Rule.expr n).Ensures (Reads .choice) := (sound_inner n).expr

end Rule

end DiceNotation
