import DiceNotation.Proofs.Numerals
import DiceNotation.Token.Scan
import Mathlib.Data.List.TakeWhile

/-!
The texts that are one token.

`Lexeme` says which texts these are, of which class and with which value, apart from the scanner. The first character
settles the class, so the scanner agrees with it in both directions: it reads a lexeme that stands alone as a whole,
and what it reads from the front of any text is the longest lexeme there.

Main statements: `leading?_of_lexeme`, `lexeme_of_leading?` and `length_le_of_leading?`.
-/

namespace DiceNotation

/-! ### Numerals of tokens -/

namespace Numeral

variable {ds fs : List Char}

theorem clean?_of_digits {cs : List Char} (h : ∀ c ∈ cs, isDigit c = true ∨ c = '.') :
    clean? (String.ofList cs) = some cs := by
  refine clean?_of_plain fun c hc => ?_
  rcases h c hc with hd | rfl
  · exact plain_of_mem_letters (mem_letters_of_isDigit hd)
  · decide +kernel

theorem readNumber?_digits (hne : ds ≠ []) (hd : ∀ c ∈ ds, isDigit c = true) :
    readNumber? (String.ofList ds) = some (.ofDecimal false (digitsValue ds) 0) := by
  obtain ⟨d, rest, rfl⟩ := List.exists_cons_of_ne_nil hne
  have hclean := clean?_of_digits fun c hc => .inl (hd c hc)
  have hfirst : isDigit d = true := hd d List.mem_cons_self
  rw [readNumber?_of_isDigit hclean (splitSign_of_isDigit hfirst rest) hfirst]
  have hwhole : (d :: rest).takeWhile isDigit = d :: rest := List.takeWhile_eq_self_iff.2 hd
  have hrest : (d :: rest).dropWhile isDigit = [] := List.dropWhile_eq_nil_iff.2 hd
  simp [readUnsigned?, hwhole, hrest, readExponent?]

theorem readNumber?_fraction (hne : ds ≠ []) (hd : ∀ c ∈ ds, isDigit c = true) (hf : ∀ c ∈ fs, isDigit c = true) :
    readNumber? (String.ofList (ds ++ '.' :: fs)) =
      some (.ofDecimal false (digitsValue (ds ++ fs)) (-(fs.length : Int))) := by
  obtain ⟨d, rest, rfl⟩ := List.exists_cons_of_ne_nil hne
  have hclean : clean? (String.ofList (d :: (rest ++ '.' :: fs))) = some (d :: (rest ++ '.' :: fs)) := by
    refine clean?_of_digits fun c hc => ?_
    rw [← List.cons_append, List.mem_append, List.mem_cons (b := '.')] at hc
    rcases hc with hc | rfl | hc
    · exact .inl (hd c hc)
    · exact .inr rfl
    · exact .inl (hf c hc)
  have hfirst : isDigit d = true := hd d List.mem_cons_self
  rw [List.cons_append, readNumber?_of_isDigit hclean (splitSign_of_isDigit hfirst _) hfirst, ← List.cons_append]
  have hwhole : (d :: rest ++ '.' :: fs).takeWhile isDigit = d :: rest := by
    rw [List.takeWhile_append_of_pos hd, List.takeWhile_cons_of_neg (by decide), List.append_nil]
  have hrest : (d :: rest ++ '.' :: fs).dropWhile isDigit = '.' :: fs := by
    rw [List.dropWhile_append_of_pos hd, List.dropWhile_cons_of_neg (by decide)]
  have hfraction : fs.takeWhile isDigit = fs := List.takeWhile_eq_self_iff.2 hf
  have hbehind : fs.dropWhile isDigit = [] := List.dropWhile_eq_nil_iff.2 hf
  unfold readUnsigned?
  rw [hwhole, hrest]
  simp [hfraction, hbehind, readExponent?]

end Numeral

namespace Token

/-! ### Lexemes -/

/-- A text that is one token, with its class and the value that it stands for. -/
inductive Lexeme : List Char → Kind → Option Value → Prop where
  | whole {ds : List Char} (hne : ds ≠ []) (hd : ∀ c ∈ ds, isDigit c = true) :
      Lexeme ds .number (some (.number (.ofDecimal false (Numeral.digitsValue ds) 0)))
  | fraction {ds fs : List Char} (hne : ds ≠ []) (hd : ∀ c ∈ ds, isDigit c = true) (hne' : fs ≠ [])
      (hf : ∀ c ∈ fs, isDigit c = true) : Lexeme (ds ++ '.' :: fs) .number
        (some (.number (.ofDecimal false (Numeral.digitsValue (ds ++ fs)) (-(fs.length : Int)))))
  | trueWord : Lexeme ['t', 'r', 'u', 'e'] .trueWord none
  | falseWord : Lexeme ['f', 'a', 'l', 's', 'e'] .falseWord none
  | name {cs : List Char} (hne : cs ≠ []) (hl : ∀ c ∈ cs, isLetter c = true) (ht : cs ≠ ['t', 'r', 'u', 'e'])
      (hf : cs ≠ ['f', 'a', 'l', 's', 'e']) : Lexeme cs .name none
  | substitution {key : List Char} (hk : ∀ c ∈ key, isKeyChar c = true) :
      Lexeme ('@' :: key) .substitution (some (.string (String.ofList key)))
  | operator {text : List Char} {kind : Kind} (h : (text, kind) ∈ operators) : Lexeme text kind none

variable {c : Char} {cs rest text : List Char} {kind : Kind} {v : Option Value} {n : Nat}

theorem Lexeme.ne_nil (h : Lexeme text kind v) : text ≠ [] := by
  have hoperators : ∀ p ∈ operators, p.1 ≠ [] := by decide
  cases h with
  | whole hne => exact hne
  | fraction => simp
  | trueWord => simp
  | falseWord => simp
  | name hne => exact hne
  | substitution => simp
  | operator h => exact hoperators _ h

/-- The value of a lexeme is the literal of its token. -/
theorem Lexeme.literal? (h : Lexeme text kind v) (column : Nat) :
    (⟨kind, String.ofList text, column⟩ : Token).literal? = v := by
  have hoperators : ∀ p ∈ operators, p.2 ≠ .number ∧ p.2 ≠ .substitution := by decide
  cases h with
  | whole hne hd => simp [Token.literal?, Token.number, Numeral.readNumber?_digits hne hd]
  | fraction hne hd hne' hf =>
    simp only [Token.literal?, Token.number, Numeral.readNumber?_fraction hne hd hf, Option.getD_some]
  | trueWord => rfl
  | falseWord => rfl
  | name => rfl
  | substitution => simp [Token.literal?, Token.key]
  | operator h =>
    obtain ⟨hnumber, hsubstitution⟩ := hoperators _ h
    unfold Token.literal?
    split
    · exact absurd ‹_› hnumber
    · exact absurd ‹_› hsubstitution
    · rfl

theorem lexeme_of_letters {word : List Char} (hne : word ≠ []) (hl : ∀ c ∈ word, isLetter c = true) :
    Lexeme word (wordKind word) none := by
  unfold wordKind
  by_cases ht : word = ['t', 'r', 'u', 'e']
  · rw [if_pos ht, ht]
    exact .trueWord
  · by_cases hf : word = ['f', 'a', 'l', 's', 'e']
    · rw [if_neg ht, if_pos hf, hf]
      exact .falseWord
    · rw [if_neg ht, if_neg hf]
      exact .name hne hl ht hf

/-! ### Classes of first characters -/

theorem isLetter_of_isDigit (h : isDigit c = true) : isLetter c = false := by
  simp only [isDigit, Bool.and_eq_true, decide_eq_true_eq, Char.le_def, UInt32.le_iff_toNat_le] at h
  have hne : c ≠ '_' := by
    rintro rfl
    revert h
    decide
  simp only [isLetter, Bool.or_eq_false_iff, Bool.and_eq_false_iff, decide_eq_false_iff_not, Char.le_def,
    UInt32.le_iff_toNat_le]
  refine ⟨⟨.inl ?_, .inl ?_⟩, hne⟩
  · have : ('a' : Char).val.toNat = 97 := rfl
    have : ('9' : Char).val.toNat = 57 := rfl
    omega
  · have : ('A' : Char).val.toNat = 65 := rfl
    have : ('9' : Char).val.toNat = 57 := rfl
    omega

/-- An operator begins with no digit, no letter and no mark of a key. -/
theorem first_of_operator (h : (c :: cs, kind) ∈ operators) : c ≠ '@' ∧ isDigit c = false ∧ isLetter c = false := by
  have hall : operators.all (fun p => p.1.head?.all fun c => c != '@' && !isDigit c && !isLetter c) = true := by decide
  have hc := List.all_eq_true.1 hall _ h
  simpa [and_assoc] using hc

/-- What a lexeme is, by its first character. -/
inductive Begins : Char → List Char → Kind → Prop where
  | substitution {cs : List Char} (hk : ∀ x ∈ cs, isKeyChar x = true) : Begins '@' cs .substitution
  | whole {c : Char} {cs : List Char} (hc : isDigit c = true) (hd : ∀ x ∈ cs, isDigit x = true) : Begins c cs .number
  | fraction {c : Char} {ds fs : List Char} (hc : isDigit c = true) (hd : ∀ x ∈ ds, isDigit x = true) (hne : fs ≠ [])
      (hf : ∀ x ∈ fs, isDigit x = true) : Begins c (ds ++ '.' :: fs) .number
  | word {c : Char} {cs : List Char} (hc : isLetter c = true) (hl : ∀ x ∈ cs, isLetter x = true) :
      Begins c cs (wordKind (c :: cs))
  | operator {c : Char} {cs : List Char} {kind : Kind} (h : (c :: cs, kind) ∈ operators) : Begins c cs kind

theorem Lexeme.begins (h : Lexeme (c :: cs) kind v) : Begins c cs kind := by
  generalize htext : c :: cs = text at h
  cases h with
  | whole hne hd =>
    subst htext
    exact .whole (hd c List.mem_cons_self) fun x hx => hd x (List.mem_cons_of_mem _ hx)
  | @fraction ds fs hne hd hne' hf =>
    obtain ⟨d, ds, rfl⟩ := List.exists_cons_of_ne_nil hne
    obtain ⟨rfl, rfl⟩ := List.cons.inj htext
    exact .fraction (hd c List.mem_cons_self) (fun x hx => hd x (List.mem_cons_of_mem _ hx)) hne' hf
  | trueWord =>
    obtain ⟨rfl, rfl⟩ := List.cons.inj htext
    exact .word (by decide) (List.all_eq_true.1 (by decide))
  | falseWord =>
    obtain ⟨rfl, rfl⟩ := List.cons.inj htext
    exact .word (by decide) (List.all_eq_true.1 (by decide))
  | name hne hl ht hf =>
    subst htext
    have hkind : wordKind (c :: cs) = .name := by rw [wordKind, if_neg ht, if_neg hf]
    exact hkind ▸ .word (hl c List.mem_cons_self) fun x hx => hl x (List.mem_cons_of_mem _ hx)
  | substitution hk =>
    obtain ⟨rfl, rfl⟩ := List.cons.inj htext
    exact .substitution hk
  | operator h =>
    subst htext
    exact .operator h

/-! ### Runs of characters -/

section Runs

variable {p : Char → Bool} {xs ys zs : List Char} {y : Char}

/-- A run of characters of a class that begins a text is no longer than the one that the text begins with. -/
theorem length_le_takeWhile (hp : ∀ x ∈ xs, p x = true) (h : xs <+: zs) : xs.length ≤ (zs.takeWhile p).length := by
  obtain ⟨more, rfl⟩ := h
  rw [List.takeWhile_append_of_pos hp, List.length_append]
  omega

/-- A run that a character of another class follows is the whole run. -/
theorem takeWhile_of_prefix (hp : ∀ x ∈ xs, p x = true) (hy : p y = false) (h : xs ++ y :: ys <+: zs) :
    zs.takeWhile p = xs ∧ ys <+: zs.drop (xs.length + 1) := by
  obtain ⟨more, rfl⟩ := h
  constructor
  · rw [List.append_assoc, List.takeWhile_append_of_pos hp, List.cons_append,
      List.takeWhile_cons_of_neg (by simp [hy]), List.append_nil]
  · rw [List.append_assoc, ← List.drop_drop, List.drop_left, List.cons_append, List.drop_succ_cons, List.drop_zero]
    exact List.prefix_append _ _

theorem take_length_takeWhile (p : Char → Bool) (zs : List Char) : zs.take (zs.takeWhile p).length = zs.takeWhile p :=
  (List.prefix_iff_eq_take.1 (List.takeWhile_prefix p)).symm

end Runs

/-! ### Numbers -/

/-- How far a number goes: the digits, and the point with the digits behind it if there are any. -/
theorem numberTail_eq (rest : List Char) :
    (∃ fraction, rest.drop (rest.takeWhile isDigit).length = '.' :: fraction ∧ fraction.takeWhile isDigit ≠ [] ∧
        numberTail rest = (rest.takeWhile isDigit).length + 1 + (fraction.takeWhile isDigit).length) ∨
      (numberTail rest = (rest.takeWhile isDigit).length ∧
        ∀ fraction, rest.drop (rest.takeWhile isDigit).length = '.' :: fraction → fraction.takeWhile isDigit = []) := by
  unfold numberTail
  dsimp only
  split
  · next fraction hdrop =>
    by_cases hempty : (fraction.takeWhile isDigit).length = 0
    · right
      refine ⟨if_pos hempty, fun other hother => ?_⟩
      rw [hdrop] at hother
      obtain ⟨-, rfl⟩ := List.cons.inj hother
      exact List.eq_nil_of_length_eq_zero hempty
    · left
      exact ⟨fraction, hdrop, fun h => hempty (by rw [h]; rfl), if_neg hempty⟩
  · next hdrop =>
    right
    exact ⟨rfl, fun fraction hfraction => absurd hfraction (hdrop fraction)⟩

theorem takeWhile_length_le_numberTail (rest : List Char) : (rest.takeWhile isDigit).length ≤ numberTail rest := by
  rcases numberTail_eq rest with ⟨fraction, -, -, h⟩ | ⟨h, -⟩ <;> omega

theorem numberTail_le (rest : List Char) : numberTail rest ≤ rest.length := by
  have hwhole := (List.takeWhile_prefix (p := isDigit) (l := rest)).length_le
  rcases numberTail_eq rest with ⟨fraction, hdrop, -, h⟩ | ⟨h, -⟩
  · have hlength := congrArg List.length hdrop
    have hfraction := (List.takeWhile_prefix (p := isDigit) (l := fraction)).length_le
    simp only [List.length_drop, List.length_cons] at hlength
    omega
  · omega

/-- Digits, a point and digits at the front of a text belong to its number. -/
theorem length_le_numberTail {ds fs : List Char} (hd : ∀ x ∈ ds, isDigit x = true) (hne : fs ≠ [])
    (hf : ∀ x ∈ fs, isDigit x = true) (h : ds ++ '.' :: fs <+: rest) : (ds ++ '.' :: fs).length ≤ numberTail rest := by
  obtain ⟨hwhole, hprefix⟩ := takeWhile_of_prefix hd (by decide) h
  obtain ⟨more, rfl⟩ := h
  have hdrop : (ds ++ '.' :: fs ++ more).drop ds.length = '.' :: (fs ++ more) := by simp
  have hlength := length_le_takeWhile hf (List.prefix_append fs more)
  rcases numberTail_eq (ds ++ '.' :: fs ++ more) with ⟨fraction, hfraction, -, htail⟩ | ⟨-, hnone⟩
  · rw [hwhole, hdrop] at hfraction
    obtain ⟨-, rfl⟩ := List.cons.inj hfraction
    rw [htail, hwhole, List.length_append, List.length_cons]
    omega
  · have hempty := hnone _ (by rw [hwhole, hdrop])
    rw [hempty] at hlength
    exact absurd (List.eq_nil_of_length_eq_zero (Nat.le_zero.1 hlength)) hne

/-! ### The scanner -/

theorem leading?_of_digit (h : isDigit c = true) (rest : List Char) :
    leading? c rest = some (.number, numberTail rest) := by
  have hne : c ≠ '@' := by
    rintro rfl
    revert h
    decide
  rw [leading?, if_neg hne, if_pos h]

theorem leading?_of_letter (h : isLetter c = true) (rest : List Char) : leading? c rest =
    some (wordKind (c :: rest.takeWhile isLetter), (rest.takeWhile isLetter).length) := by
  have hne : c ≠ '@' := by
    rintro rfl
    revert h
    decide
  have hdigit : ¬ isDigit c = true := fun hd => by rw [isLetter_of_isDigit hd] at h; cases h
  rw [leading?, if_neg hne, if_neg hdigit, if_pos h]

theorem leading?_of_other (hat : c ≠ '@') (hd : isDigit c = false) (hl : isLetter c = false) (rest : List Char) :
    leading? c rest =
      (operators.find? (·.1.isPrefixOf (c :: rest))).map fun (text, kind) => (kind, text.length - 1) := by
  rw [leading?, if_neg hat, if_neg (by simp [hd]), if_neg (by simp [hl])]

/-- The scanner reads a lexeme that stands alone as a whole. -/
theorem leading?_of_lexeme (h : Lexeme (c :: cs) kind v) : leading? c cs = some (kind, cs.length) := by
  cases h.begins with
  | substitution hk => rw [leading?, if_pos rfl, List.takeWhile_eq_self_iff.2 hk]
  | whole hc hd =>
    have hle := numberTail_le cs
    have hge := takeWhile_length_le_numberTail cs
    rw [List.takeWhile_eq_self_iff.2 hd] at hge
    rw [leading?_of_digit hc, Nat.le_antisymm hle hge]
  | @fraction _ ds fs hc hd hne hf =>
    have hle := numberTail_le (ds ++ '.' :: fs)
    have hge := length_le_numberTail hd hne hf (List.prefix_refl _)
    rw [leading?_of_digit hc, Nat.le_antisymm hle hge]
  | word hc hl => rw [leading?_of_letter hc, List.takeWhile_eq_self_iff.2 hl]
  | operator h =>
    have hall : operators.all (fun p => p.1.head?.all fun c => leading? c p.1.tail = some (p.2, p.1.tail.length)) =
        true := by decide
    exact of_decide_eq_true (List.all_eq_true.1 hall _ h)

/-- What the scanner reads from the front of a text is a lexeme. -/
theorem lexeme_of_leading? (h : leading? c rest = some (kind, n)) :
    n ≤ rest.length ∧ ∃ v, Lexeme (c :: rest.take n) kind v := by
  by_cases hat : c = '@'
  · subst hat
    rw [leading?, if_pos rfl] at h
    cases h
    rw [take_length_takeWhile]
    exact ⟨(List.takeWhile_prefix _).length_le, _, .substitution fun x hx => List.mem_takeWhile_imp hx⟩
  · cases hd : isDigit c with
    | true =>
      rw [leading?_of_digit hd] at h
      cases h
      refine ⟨numberTail_le rest, ?_⟩
      have hwhole : ∀ x ∈ c :: rest.takeWhile isDigit, isDigit x = true :=
        List.forall_mem_cons.2 ⟨hd, fun x hx => List.mem_takeWhile_imp hx⟩
      rcases numberTail_eq rest with ⟨fraction, hdrop, hne, htail⟩ | ⟨htail, -⟩
      · have htake : c :: rest.take (numberTail rest) =
            (c :: rest.takeWhile isDigit) ++ '.' :: fraction.takeWhile isDigit := by
          rw [htail, Nat.add_assoc, List.take_add, hdrop, take_length_takeWhile, Nat.add_comm 1, List.take_succ_cons,
            take_length_takeWhile, List.cons_append]
        rw [htake]
        exact ⟨_, .fraction (List.cons_ne_nil _ _) hwhole hne fun x hx => List.mem_takeWhile_imp hx⟩
      · rw [htail, take_length_takeWhile]
        exact ⟨_, .whole (List.cons_ne_nil _ _) hwhole⟩
    | false =>
      cases hl : isLetter c with
      | true =>
        rw [leading?_of_letter hl] at h
        cases h
        refine ⟨(List.takeWhile_prefix _).length_le, none, ?_⟩
        rw [take_length_takeWhile]
        exact lexeme_of_letters (List.cons_ne_nil _ _)
          (List.forall_mem_cons.2 ⟨hl, fun x hx => List.mem_takeWhile_imp hx⟩)
      | false =>
        rw [leading?_of_other hat hd hl] at h
        obtain ⟨⟨text, kind'⟩, hfind, hfound⟩ := Option.map_eq_some_iff.1 h
        cases hfound
        have hmem := List.mem_of_find?_eq_some hfind
        have hprefix : text <+: c :: rest := List.isPrefixOf_iff_prefix.1 (by simpa using List.find?_some hfind)
        obtain ⟨d, ds, rfl⟩ := List.exists_cons_of_ne_nil (Lexeme.operator hmem).ne_nil
        obtain ⟨rfl, hds⟩ := List.cons_prefix_cons.1 hprefix
        refine ⟨by simpa using hds.length_le, none, ?_⟩
        rw [List.length_cons, Nat.add_sub_cancel, ← List.prefix_iff_eq_take.1 hds]
        exact .operator hmem

/-- The table of operators has the longer ones first, so the first one that begins a text is the longest. -/
theorem length_le_of_find? {found : List Char} {kind' : Kind}
    (h : operators.find? (·.1.isPrefixOf rest) = some (found, kind)) (hmem : (text, kind') ∈ operators)
    (hp : text <+: rest) : text.length ≤ found.length := by
  have hsorted : operators.Pairwise fun p q => q.1.length ≤ p.1.length := by decide
  obtain ⟨-, before, after, hoperators, hbefore⟩ := List.find?_eq_some_iff_append.1 h
  rw [hoperators] at hmem hsorted
  rcases List.mem_append.1 hmem with hm | hm
  · have hno : text.isPrefixOf rest = false := by simpa using hbefore _ hm
    rw [List.isPrefixOf_iff_prefix.2 hp] at hno
    cases hno
  · rcases List.mem_cons.1 hm with hm | hm
    · rw [(Prod.mk.inj hm).1]
    · exact (List.pairwise_cons.1 (List.pairwise_append.1 hsorted).2.1).1 _ hm

/-- No lexeme at the front of a text is longer than the one that the scanner reads. -/
theorem length_le_of_leading? (h : leading? c rest = some (kind, n)) {kind' : Kind} (hl : Lexeme text kind' v)
    (hp : text <+: c :: rest) : text.length ≤ n + 1 := by
  obtain ⟨d, cs, rfl⟩ := List.exists_cons_of_ne_nil hl.ne_nil
  obtain ⟨rfl, hcs⟩ := List.cons_prefix_cons.1 hp
  rw [List.length_cons, Nat.add_le_add_iff_right]
  cases hl.begins with
  | substitution hk =>
    rw [leading?, if_pos rfl] at h
    cases h
    exact length_le_takeWhile hk hcs
  | whole hc hd =>
    rw [leading?_of_digit hc] at h
    cases h
    exact Nat.le_trans (length_le_takeWhile hd hcs) (takeWhile_length_le_numberTail rest)
  | fraction hc hd hne hf =>
    rw [leading?_of_digit hc] at h
    cases h
    exact length_le_numberTail hd hne hf hcs
  | word hc hletters =>
    rw [leading?_of_letter hc] at h
    cases h
    exact length_le_takeWhile hletters hcs
  | operator hmem =>
    obtain ⟨hat, hd, hletter⟩ := first_of_operator hmem
    rw [leading?_of_other hat hd hletter] at h
    obtain ⟨⟨found, kind'⟩, hfind, hfound⟩ := Option.map_eq_some_iff.1 h
    cases hfound
    have := length_le_of_find? hfind hmem hp
    rw [List.length_cons] at this
    exact Nat.le_sub_one_of_lt this

end Token

end DiceNotation
