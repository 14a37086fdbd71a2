import DiceNotation.Number.Numeral

/-!
Every number has a numeral.

A finite number is a whole number of quanta, and a quantum is `5 ^ 1074` units of the 1074th decimal place. So its
exact decimal is written with that many places, and reading it rounds nothing.

Main statement: `Number.exists_numeral`.
-/

namespace DiceNotation

/-! ### Exact decimals -/

namespace Number

theorem nearestQuanta_mul {q den : Nat} (hden : 0 < den) (hq : Representable q) : nearestQuanta (q * den) den = q := by
  obtain ⟨m, hm⟩ := hq.1
  have hplace : 0 < lastPlace q := Nat.two_pow_pos _
  have hnum : q * den = m * (den * lastPlace q) := by
    calc q * den = lastPlace q * m * den := by rw [← hm]
      _ = m * (den * lastPlace q) := by rw [Nat.mul_comm (lastPlace q) m, Nat.mul_assoc, Nat.mul_comm (lastPlace q) den]
  have hround : roundQuotient (q * den) (den * lastPlace q) = m := by
    have hpos : 0 < den * lastPlace q := Nat.mul_pos hden hplace
    simp [roundQuotient, hnum, Nat.mul_div_cancel _ hpos, hpos]
  rw [nearestQuanta, Nat.mul_div_cancel _ hden, hround, Nat.mul_comm]
  exact hm.symm

theorem ofQuotient_mul {q den : Nat} (negative : Bool) (hden : 0 < den) (hq : Representable q) :
    ofQuotient negative (q * den) den = .finite negative q hq := by
  unfold ofQuotient
  rw [dif_pos (by rw [nearestQuanta_mul hden hq]; exact hq.2)]
  congr 1
  exact nearestQuanta_mul hden hq

/-- A magnitude of `q` quanta is `q * 5 ^ k` units of the decimal place `k`, where `2 ^ k` quanta are one. -/
theorem ofDecimal_exact (negative : Bool) {q k : Nat} (hq : Representable q) (hk : unitQuanta = Nat.pow 2 k)
    (hpos : 0 < k) (hle : k ≤ 1100) : ofDecimal negative (q * Nat.pow 5 k) (-k) = .finite negative q hq := by
  unfold ofDecimal
  simp only [Nat.pow_eq] at hk ⊢
  by_cases hzero : q = 0
  · subst hzero
    rw [if_pos (Nat.zero_mul _)]
  · have hfive : 5 ^ k ≤ q * 5 ^ k := Nat.le_mul_of_pos_left _ (Nat.pos_of_ne_zero hzero)
    have htwo : 2 ^ (2 * k) ≤ 5 ^ k := by
      rw [Nat.pow_mul]
      exact Nat.pow_le_pow_left (by decide) k
    have hne : q * 5 ^ k ≠ 0 := Nat.mul_ne_zero hzero (Nat.ne_of_gt (Nat.pow_pos (by decide)))
    have hlog : 2 * k ≤ (q * 5 ^ k).log2 := (Nat.le_log2 hne).2 (Nat.le_trans htwo hfive)
    have hten : q * 5 ^ k * unitQuanta = q * 10 ^ k := by rw [hk, Nat.mul_assoc, ← Nat.mul_pow]
    rw [if_neg hne, if_neg (by omega), if_neg (by omega), if_pos (by omega), Int.natAbs_neg, Int.natAbs_natCast, hten]
    exact ofQuotient_mul negative (Nat.pow_pos (by decide)) hq

end Number

/-! ### Reading them -/

namespace Numeral

open Text

theorem strip_of_forall {α : Type} {p : α → Bool} {xs : List α} (h : ∀ x ∈ xs, p x = false) : strip p xs = xs := by
  have hdrop : ∀ {ys : List α}, (∀ y ∈ ys, p y = false) → ys.dropWhile p = ys := by
    intro ys hys
    cases ys with
    | nil => rfl
    | cons y ys => simp [hys y List.mem_cons_self]
  rw [strip, hdrop h, hdrop fun x hx => h x (List.mem_reverse.1 hx), List.reverse_reverse]

/-- The characters of the numerals written here. -/
def letters : List Char := ['0', '1', '2', '3', '4', '5', '6', '7', '8', '9', '-', 'e', 'i', 'n', 'f', 'a']

theorem mem_letters_of_isDigit {c : Char} (h : isDigit c = true) : c ∈ letters := by
  have hdigits : ∀ d < 10, Char.ofNat (48 + d) ∈ letters := by decide
  have hrange : 48 ≤ c.toNat ∧ c.toNat ≤ 57 := by
    simpa [isDigit, Char.le_def, UInt32.le_iff_toNat_le] using h
  have := hdigits (c.toNat - 48) (by omega)
  rwa [Nat.add_sub_cancel' hrange.1, Char.ofNat_toNat] at this

theorem dropUnderscores_of_forall {cs : List Char} (h : ∀ c ∈ cs, c ≠ '_') (afterDigit : Bool) :
    dropUnderscores afterDigit cs = some cs := by
  induction cs generalizing afterDigit with
  | nil => rfl
  | cons c cs ih =>
    rw [dropUnderscores, if_neg (h c List.mem_cons_self), ih fun c' hc' => h c' (List.mem_cons_of_mem _ hc')]
    rfl

/-- A text without margins, underscores and digits of other scripts is clean. -/
theorem clean?_of_plain {cs : List Char} (h : ∀ c ∈ cs, isMargin c = false ∧ plainDigit c = c ∧ c ≠ '_') :
    clean? (String.ofList cs) = some cs := by
  have hplain : cs.map plainDigit = cs := (List.map_congr_left fun c hc => (h c hc).2.1).trans (List.map_id _)
  rw [clean?, String.toList_ofList, strip_of_forall fun c hc => (h c hc).1, hplain]
  exact dropUnderscores_of_forall (fun c hc => (h c hc).2.2) false

theorem plain_of_mem_letters {c : Char} (h : c ∈ letters) : isMargin c = false ∧ plainDigit c = c ∧ c ≠ '_' := by
  have hall : letters.all fun c => isMargin c = false ∧ plainDigit c = c ∧ c ≠ '_' := by decide +kernel
  simpa using List.all_eq_true.1 hall c h

theorem clean?_of_letters {cs : List Char} (h : ∀ c ∈ cs, c ∈ letters) : clean? (String.ofList cs) = some cs :=
  clean?_of_plain fun c hc => plain_of_mem_letters (h c hc)

theorem digitsValue_toDigits (n : Nat) : digitsValue (Nat.toDigits 10 n) = n := by
  have h := Nat.ofDigitChars_ten_toDigits (n := n)
  simpa only [Nat.ofDigitChars_eq_foldl, digitsValue, Nat.mul_comm] using h

/-- The digits of a number with an exponent that shifts them so many places to the right. -/
def shifted (n places : Nat) : List Char := Nat.toDigits 10 n ++ 'e' :: '-' :: Nat.toDigits 10 places

theorem isDigit_of_mem_toDigits {n : Nat} {c : Char} (h : c ∈ Nat.toDigits 10 n) : isDigit c = true := by
  simpa [isDigit, Char.isDigit, Char.le_def] using Nat.isDigit_of_mem_toDigits (by decide) (by decide) h

theorem readExponent?_toDigits (places : Nat) :
    readExponent? ('e' :: '-' :: Nat.toDigits 10 places) = some (-(places : Int)) := by
  have hempty : (Nat.toDigits 10 places).isEmpty = false := by simp [Nat.toDigits_ne_nil]
  have hall : (Nat.toDigits 10 places).all isDigit = true := List.all_eq_true.2 fun _ => isDigit_of_mem_toDigits
  simp [readExponent?, splitSign, hempty, hall, digitsValue_toDigits, Number.signed]

theorem readUnsigned?_shifted (negative : Bool) (n places : Nat) :
    readUnsigned? negative (shifted n places) = some (.ofDecimal negative n (-places)) := by
  have hdigits : ∀ c ∈ Nat.toDigits 10 n, isDigit c = true := fun _ => isDigit_of_mem_toDigits
  have hwhole : (shifted n places).takeWhile isDigit = Nat.toDigits 10 n := by
    rw [shifted, List.takeWhile_append_of_pos hdigits, List.takeWhile_cons_of_neg (by decide), List.append_nil]
  have hrest : (shifted n places).dropWhile isDigit = 'e' :: '-' :: Nat.toDigits 10 places := by
    rw [shifted, List.dropWhile_append_of_pos hdigits, List.dropWhile_cons_of_neg (by decide)]
  have hempty : (Nat.toDigits 10 n).isEmpty = false := by simp [Nat.toDigits_ne_nil]
  simp only [readUnsigned?, hwhole, hrest, hempty, Bool.false_and, Bool.false_eq_true, if_false]
  simp [readExponent?_toDigits, digitsValue_toDigits]

-- behind the sign stands a digit, so what is read is none of the words

theorem ne_of_isDigit {d : Char} (hd : isDigit d = true) :
    d ≠ '-' ∧ d ≠ '+' ∧ d.toLower ≠ 'i' ∧ d.toLower ≠ 'n' := by
  have hletters : letters.all fun c =>
      isDigit c = false ∨ c ≠ '-' ∧ c ≠ '+' ∧ c.toLower ≠ 'i' ∧ c.toLower ≠ 'n' := by decide
  simpa [hd] using List.all_eq_true.1 hletters d (mem_letters_of_isDigit hd)

theorem splitSign_of_isDigit {d : Char} (hd : isDigit d = true) (ds : List Char) :
    splitSign (d :: ds) = (false, d :: ds) := by
  obtain ⟨hminus, hplus, -⟩ := ne_of_isDigit hd
  unfold splitSign
  split
  · exact absurd (List.cons.inj ‹_›).1 hminus
  · exact absurd (List.cons.inj ‹_›).1 hplus
  · rfl

theorem readNumber?_of_isDigit {s : String} {cs ds : List Char} {negative : Bool} {d : Char}
    (hclean : clean? s = some cs) (hsplit : splitSign cs = (negative, d :: ds)) (hd : isDigit d = true) :
    readNumber? s = readUnsigned? negative (d :: ds) := by
  obtain ⟨-, -, hi, hn⟩ := ne_of_isDigit hd
  have hword : ∀ w : List Char, w.head? = some 'i' ∨ w.head? = some 'n' →
      String.ofList ((d :: ds).map Char.toLower) ≠ String.ofList w := by
    intro w hw hsame
    rw [← String.ofList_injective hsame] at hw
    simp [hi, hn] at hw
  have hinf := hword ['i', 'n', 'f'] (.inl rfl)
  have hinfinity := hword ['i', 'n', 'f', 'i', 'n', 'i', 't', 'y'] (.inl rfl)
  have hneither : ¬(decide (String.ofList ((d :: ds).map Char.toLower) = "inf") ||
      decide (String.ofList ((d :: ds).map Char.toLower) = "infinity")) = true := by
    simp only [Bool.or_eq_true, decide_eq_true_eq, not_or]
    exact ⟨hinf, hinfinity⟩
  rw [readNumber?, hclean]
  simp only [Option.bind_eq_bind, Option.bind_some, hsplit]
  rw [if_neg hneither, if_neg (hword ['n', 'a', 'n'] (.inr rfl))]

theorem exists_cons_shifted (n places : Nat) : ∃ d ds, shifted n places = d :: ds ∧ isDigit d = true := by
  obtain ⟨d, ds, hn⟩ := List.exists_cons_of_ne_nil (Nat.toDigits_ne_nil (n := n) (b := 10))
  exact ⟨d, _, by rw [shifted, hn, List.cons_append], isDigit_of_mem_toDigits (hn ▸ List.mem_cons_self)⟩

theorem mem_letters_of_mem_shifted {n places : Nat} {c : Char} (hc : c ∈ shifted n places) : c ∈ letters := by
  rw [shifted, List.mem_append, List.mem_cons, List.mem_cons] at hc
  rcases hc with hc | rfl | rfl | hc
  · exact mem_letters_of_isDigit (isDigit_of_mem_toDigits hc)
  · decide
  · decide
  · exact mem_letters_of_isDigit (isDigit_of_mem_toDigits hc)

theorem readNumber?_shifted (negative : Bool) (n places : Nat) :
    readNumber? (String.ofList (if negative then '-' :: shifted n places else shifted n places)) =
      some (.ofDecimal negative n (-places)) := by
  have hletters : ∀ c ∈ shifted n places, c ∈ letters := fun _ => mem_letters_of_mem_shifted
  obtain ⟨d, ds, hds, hd⟩ := exists_cons_shifted n places
  rw [← readUnsigned?_shifted, hds]
  rw [hds] at hletters
  cases negative with
  | true =>
    have hclean := clean?_of_letters (List.forall_mem_cons.2 ⟨(by decide : '-' ∈ letters), hletters⟩)
    exact readNumber?_of_isDigit hclean rfl hd
  | false => exact readNumber?_of_isDigit (clean?_of_letters hletters) (splitSign_of_isDigit hd ds) hd

end Numeral

/-- **Every number has a numeral.** -/
theorem Number.exists_numeral (x : Number) : ∃ s, Numeral.readNumber? s = some x := by
  cases x with
  | nan => exact ⟨"nan", by decide +kernel⟩
  | infinite negative =>
    cases negative with
    | true => exact ⟨"-inf", by decide +kernel⟩
    | false => exact ⟨"inf", by decide +kernel⟩
  | finite negative q hq =>
    exact ⟨_, (Numeral.readNumber?_shifted negative (q * Nat.pow 5 1074) 1074).trans
      (congrArg some (ofDecimal_exact negative hq rfl (by decide) (by decide)))⟩

end DiceNotation
