import DiceNotation.Proofs.Layout

/-!
The characters that texts of the notation are made of.

A character of the alphabet is blank or is a token where it stands alone, so something is read wherever one stands; and
no token has any other character in it. So the scanner stops at the first character outside the alphabet, whatever
stands around it, and at nothing else.

Main statement: `scan_ends`.
-/

namespace DiceNotation.Token

variable {c : Char} {cs rest text before : List Char} {kind : Kind} {v : Option Value} {column : Nat} {e e' : ScanError}

/-! ### The alphabet -/

/-- What the alphabet has beside letters and digits. -/
def signs : List Char := "_@ \t\r+-*/%<>!=()[]\x7b\x7d.,:?".toList

/-- A character of the notation; its letters and digits are those of ASCII. -/
def InAlphabet (c : Char) : Prop := c.isAlphanum = true ∨ c ∈ signs

instance : DecidablePred InAlphabet := fun c => inferInstanceAs (Decidable (c.isAlphanum = true ∨ c ∈ signs))

theorem isDigit_eq (c : Char) : isDigit c = c.isDigit := rfl

theorem isLetter_eq (c : Char) : isLetter c = (c.isAlpha || c = '_') := by
  have hlower : c.isLower = ('a' ≤ c && c ≤ 'z') := rfl
  have hupper : c.isUpper = ('A' ≤ c && c ≤ 'Z') := Bool.decide_and ('A' ≤ c) (c ≤ 'Z')
  have halpha : c.isAlpha = (c.isUpper || c.isLower) := rfl
  rw [isLetter, halpha, hlower, hupper, Bool.or_comm ('A' ≤ c && c ≤ 'Z')]

theorem inAlphabet_of_isLetter (h : isLetter c = true) : InAlphabet c := by
  rw [isLetter_eq, Bool.or_eq_true, decide_eq_true_eq] at h
  rcases h with h | rfl
  · exact .inl (by rw [Char.isAlphanum, h, Bool.true_or])
  · exact .inr (by decide)

theorem inAlphabet_of_isDigit (h : isDigit c = true) : InAlphabet c :=
  .inl (by rw [Char.isAlphanum, ← isDigit_eq, h, Bool.or_true])

theorem inAlphabet_of_isKeyChar (h : isKeyChar c = true) : InAlphabet c := by
  simp only [isKeyChar, Bool.or_eq_true, decide_eq_true_eq] at h
  rcases h with (h | h) | rfl
  · exact inAlphabet_of_isLetter h
  · exact inAlphabet_of_isDigit h
  · exact .inr (by decide)

theorem inAlphabet_of_isSpace (h : isSpace c = true) : InAlphabet c := by
  simp only [isSpace, Bool.or_eq_true, decide_eq_true_eq] at h
  rcases h with (rfl | rfl) | rfl <;> exact .inr (by decide)

/-- No token has a character outside the alphabet in it. -/
theorem Lexeme.inAlphabet (h : Lexeme text kind v) (hc : c ∈ text) : InAlphabet c := by
  have hoperators : operators.all (fun p => p.1.all fun c => InAlphabet c) = true := by decide
  cases h with
  | whole hne hd => exact inAlphabet_of_isDigit (hd c hc)
  | fraction hne hd hne' hf =>
    rcases List.mem_append.1 hc with hc | hc
    · exact inAlphabet_of_isDigit (hd c hc)
    · rcases List.mem_cons.1 hc with rfl | hc
      · exact inAlphabet_of_isKeyChar (by decide)
      · exact inAlphabet_of_isDigit (hf c hc)
  | trueWord => exact inAlphabet_of_isLetter (List.all_eq_true.1 (by decide) c hc)
  | falseWord => exact inAlphabet_of_isLetter (List.all_eq_true.1 (by decide) c hc)
  | name hne hl => exact inAlphabet_of_isLetter (hl c hc)
  | substitution hk =>
    rcases List.mem_cons.1 hc with rfl | hc
    · exact .inr (by decide)
    · exact inAlphabet_of_isKeyChar (hk c hc)
  | operator h => exact of_decide_eq_true (List.all_eq_true.1 (List.all_eq_true.1 hoperators _ h) c hc)

/-- A character of the alphabet that is not blank is a token where it stands alone. -/
theorem exists_lexeme (h : InAlphabet c) (hs : isSpace c = false) : ∃ kind v, Lexeme [c] kind v := by
  have hsigns : signs.all (fun c => isSpace c || c = '@' || c = '_' || operators.any (·.1 = [c])) = true := by decide
  have hletter (hl : isLetter c = true) : ∃ kind v, Lexeme [c] kind v :=
    ⟨_, _, lexeme_of_letters (List.cons_ne_nil _ _) (by simpa using hl)⟩
  rcases h with h | h
  · rw [Char.isAlphanum, Bool.or_eq_true] at h
    rcases h with h | h
    · exact hletter (by rw [isLetter_eq, h, Bool.true_or])
    · exact ⟨_, _, .whole (List.cons_ne_nil _ _) (by simpa [isDigit_eq] using h)⟩
  · have hc := List.all_eq_true.1 hsigns c h
    rw [hs] at hc
    simp only [Bool.false_or, Bool.or_eq_true, decide_eq_true_eq, List.any_eq_true] at hc
    rcases hc with (rfl | rfl) | ⟨⟨text, kind⟩, hmem, rfl⟩
    · exact ⟨_, _, .substitution (List.forall_mem_nil _)⟩
    · exact hletter (by decide)
    · exact ⟨_, _, .operator hmem⟩

/-- Where no blank stands, nothing is read exactly at a character outside the alphabet. -/
theorem leading?_eq_none_iff (hs : isSpace c = false) (rest : List Char) :
    leading? c rest = none ↔ ¬ InAlphabet c := by
  constructor
  · intro hnone h
    obtain ⟨kind, v, hlexeme⟩ := exists_lexeme h hs
    obtain ⟨kind', n, hsome⟩ := exists_leading? hlexeme rest
    rw [List.nil_append, hnone] at hsome
    cases hsome
  · intro h
    cases hleading : leading? c rest with
    | none => rfl
    | some found =>
      obtain ⟨-, v, hlexeme⟩ := lexeme_of_leading? hleading
      exact absurd (hlexeme.inAlphabet List.mem_cons_self) h

/-! ### Strangers -/

/-- The error tells the first character outside the alphabet, in a text whose first character stands at a column. -/
def TellsFirst (column : Nat) (cs : List Char) (e : ScanError) : Prop :=
  ∃ before after, cs = before ++ e.char :: after ∧ (∀ c ∈ before, InAlphabet c) ∧ ¬ InAlphabet e.char ∧
    e.column = column + before.length

theorem TellsFirst.behind (h : TellsFirst (column + text.length) rest e) (htext : ∀ c ∈ text, InAlphabet c) :
    TellsFirst column (text ++ rest) e := by
  obtain ⟨before, after, rfl, hbefore, hchar, hcolumn⟩ := h
  refine ⟨text ++ before, after, (List.append_assoc ..).symm, ?_, hchar, ?_⟩
  · exact List.forall_mem_append.2 ⟨htext, hbefore⟩
  · rw [hcolumn, List.length_append, Nat.add_assoc]

theorem TellsFirst.not_forall (h : TellsFirst column cs e) : ¬ ∀ c ∈ cs, InAlphabet c := by
  obtain ⟨before, after, rfl, -, hchar, -⟩ := h
  exact fun hall => hchar (hall _ (List.mem_append_right _ List.mem_cons_self))

/-- There is one first character. -/
theorem TellsFirst.unique (h : TellsFirst column cs e) (h' : TellsFirst column cs e') : e = e' := by
  obtain ⟨before, after, rfl, hbefore, hchar, hcolumn⟩ := h
  obtain ⟨before', after', heq, hbefore', hchar', hcolumn'⟩ := h'
  have hrun {xs : List Char} {x : Char} (ys : List Char) (hxs : ∀ c ∈ xs, InAlphabet c) (hx : ¬ InAlphabet x) :
      (xs ++ x :: ys).takeWhile (InAlphabet ·) = xs := by
    rw [List.takeWhile_append_of_pos (by simpa using hxs), List.takeWhile_cons_of_neg (by simpa using hx),
      List.append_nil]
  have hsame : before = before' := by
    rw [← hrun after hbefore hchar, heq, hrun after' hbefore' hchar']
  subst hsame
  obtain ⟨char, place⟩ := e
  obtain ⟨char', place'⟩ := e'
  obtain ⟨rfl, -⟩ := List.cons.inj (List.append_cancel_left heq)
  obtain rfl : place = place' := hcolumn.trans hcolumn'.symm
  rfl

/-! ### Scanning -/

/-- How the scan of a text ends: with tokens if it is of the alphabet, else at the first stranger. -/
inductive EndsAs (column : Nat) (cs : List Char) : Except ScanError (List Token) → Prop where
  | tokens (tokens : List Token) (h : ∀ c ∈ cs, InAlphabet c) : EndsAs column cs (.ok tokens)
  | stranger {e : ScanError} (h : TellsFirst column cs e) : EndsAs column cs (.error e)

/-- A blank or a token is passed. -/
theorem EndsAs.behind {r : Except ScanError (List Token)} (h : EndsAs (column + text.length) rest r)
    (htext : ∀ c ∈ text, InAlphabet c) (f : List Token → List Token) :
    EndsAs column (text ++ rest) (r.map f) := by
  cases h with
  | tokens tokens h => exact .tokens (f tokens) (List.forall_mem_append.2 ⟨htext, h⟩)
  | stranger h => exact .stranger (h.behind htext)

theorem endsAs_scanFrom (column : Nat) (cs : List Char) : EndsAs column cs (scanFrom column cs) := by
  induction hn : cs.length using Nat.strongRecOn generalizing column cs with
  | ind n ih =>
    cases cs with
    | nil =>
      rw [scanFrom]
      exact .tokens _ (List.forall_mem_nil _)
    | cons c rest =>
      rw [List.length_cons] at hn
      rw [scanFrom]
      cases hs : isSpace c with
      | true =>
        have hlater : EndsAs (column + [c].length) rest _ := ih rest.length (by omega) (column + 1) rest rfl
        have hblank := hlater.behind (by simpa using inAlphabet_of_isSpace hs) id
        rwa [Except.map_id] at hblank
      | false =>
        cases hl : leading? c rest with
        | none => exact .stranger ⟨[], rest, rfl, List.forall_mem_nil _, (leading?_eq_none_iff hs rest).1 hl, rfl⟩
        | some found =>
          obtain ⟨kind, m⟩ := found
          obtain ⟨hm, v, hlexeme⟩ := lexeme_of_leading? hl
          have hcolumn : column + 1 + m = column + (c :: rest.take m).length := by
            rw [List.length_cons, List.length_take_of_le hm]
            omega
          have hlater := ih (rest.drop m).length (by rw [List.length_drop]; omega) (column + 1 + m) (rest.drop m) rfl
          rw [hcolumn] at hlater
          have htoken := hlater.behind (fun x hx => hlexeme.inAlphabet hx)
            (⟨kind, String.ofList (c :: rest.take m), column⟩ :: ·)
          rw [List.cons_append, List.take_append_drop, ← hcolumn] at htoken
          exact htoken

/-- **A text scans exactly if it is of the alphabet.** Otherwise the error tells the first character outside of it and
the column of that character, whatever stands before or behind. -/
theorem scan_ends (source : String) :
    ((∃ tokens, scan source = .ok tokens) ↔ ∀ c ∈ source.toList, InAlphabet c) ∧
      ∀ e, scan source = .error e ↔ ∃ before after, source.toList = before ++ e.char :: after ∧
        (∀ c ∈ before, InAlphabet c) ∧ ¬ InAlphabet e.char ∧ e.column = 1 + before.length := by
  have hends : EndsAs 1 source.toList (scan source) := endsAs_scanFrom 1 source.toList
  change _ ∧ ∀ e, scan source = .error e ↔ TellsFirst 1 source.toList e
  generalize scan source = result at hends ⊢
  cases hends with
  | tokens tokens h =>
    refine ⟨⟨fun _ => h, fun _ => ⟨tokens, rfl⟩⟩, fun e => ⟨fun he => (nomatch he), fun he => ?_⟩⟩
    exact absurd h he.not_forall
  | @stranger e' h =>
    refine ⟨⟨fun ⟨tokens, ht⟩ => (nomatch ht), fun hall => absurd hall h.not_forall⟩, fun e => ⟨?_, ?_⟩⟩
    · rintro ⟨⟩
      exact h
    · exact fun he => congrArg Except.error (h.unique he)

end DiceNotation.Token
