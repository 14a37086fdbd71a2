import DiceNotation.Proofs.Lexemes

/-!
How the tokens of a text lie in it.

`Cut` goes along a text as the scanner does: a blank is passed, and a token is the longest lexeme where it stands.
`Tiles` says of a whole text where its tokens lie: each at its column, none over another, and blanks in all other
places. The step is one blank or one token, the run a whole text.

Main statement: `scan_tiles`.
-/

namespace DiceNotation.Token

variable {c : Char} {cs rest text source : List Char} {kind kind' : Kind} {v v' : Option Value} {column first n : Nat}
  {ts tokens : List Token}

/-! ### Lexemes that stand alone -/

theorem Lexeme.ne_endOfInput (h : Lexeme text kind v) : kind ≠ .endOfInput := by
  have hoperators : ∀ p ∈ operators, p.2 ≠ .endOfInput := by decide
  cases h with
  | operator h => exact hoperators _ h
  | _ => simp

/-- A text is a token of one class and one value at most. -/
theorem Lexeme.unique (h : Lexeme text kind v) (h' : Lexeme text kind' v') : kind = kind' ∧ v = v' := by
  obtain ⟨c, cs, rfl⟩ := List.exists_cons_of_ne_nil h.ne_nil
  have hkind := (leading?_of_lexeme h).symm.trans (leading?_of_lexeme h')
  obtain ⟨rfl, -⟩ := Prod.mk.inj (Option.some.inj hkind)
  exact ⟨rfl, (h.literal? 0).symm.trans (h'.literal? 0)⟩

theorem isKeyChar_of_isSpace (h : isSpace c = true) : isKeyChar c = false := by
  simp only [isSpace, Bool.or_eq_true, decide_eq_true_eq] at h
  rcases h with (rfl | rfl) | rfl <;> decide

theorem isSpace_of_isKeyChar (h : isKeyChar c = true) : isSpace c = false := by
  cases hs : isSpace c with
  | false => rfl
  | true => rw [isKeyChar_of_isSpace hs] at h; cases h

theorem isSpace_of_isLetter (h : isLetter c = true) : isSpace c = false :=
  isSpace_of_isKeyChar (by rw [isKeyChar, h, Bool.true_or, Bool.true_or])

theorem isSpace_of_isDigit (h : isDigit c = true) : isSpace c = false :=
  isSpace_of_isKeyChar (by rw [isKeyChar, h, Bool.or_true, Bool.true_or])

/-- No token has a blank in it. -/
theorem Lexeme.isSpace_eq_false (h : Lexeme text kind v) (hc : c ∈ text) : isSpace c = false := by
  have hoperators : operators.all (fun p => p.1.all fun c => !isSpace c) = true := by decide
  cases h with
  | whole hne hd => exact isSpace_of_isDigit (hd c hc)
  | fraction hne hd hne' hf =>
    rcases List.mem_append.1 hc with hc | hc
    · exact isSpace_of_isDigit (hd c hc)
    · rcases List.mem_cons.1 hc with rfl | hc
      · decide
      · exact isSpace_of_isDigit (hf c hc)
  | trueWord => exact isSpace_of_isLetter (List.all_eq_true.1 (by decide) c hc)
  | falseWord => exact isSpace_of_isLetter (List.all_eq_true.1 (by decide) c hc)
  | name hne hl => exact isSpace_of_isLetter (hl c hc)
  | substitution hk =>
    rcases List.mem_cons.1 hc with rfl | hc
    · decide
    · exact isSpace_of_isKeyChar (hk c hc)
  | operator h =>
    have hchars := List.all_eq_true.1 (List.all_eq_true.1 hoperators _ h) c hc
    rwa [Bool.not_eq_true'] at hchars

/-- No lexeme at the front of a text is longer. -/
def Longest (text cs : List Char) : Prop :=
  ∀ other kind v, Lexeme other kind v → other <+: cs → other.length ≤ text.length

/-- Something is read from the front of a text that begins with a lexeme. -/
theorem exists_leading? (h : Lexeme (c :: cs) kind v) (rest : List Char) :
    ∃ kind' n, leading? c (cs ++ rest) = some (kind', n) := by
  cases h.begins with
  | substitution => exact ⟨_, _, by rw [leading?, if_pos rfl]⟩
  | whole hc => exact ⟨_, _, leading?_of_digit hc _⟩
  | fraction hc => exact ⟨_, _, leading?_of_digit hc _⟩
  | word hc => exact ⟨_, _, leading?_of_letter hc _⟩
  | operator hmem =>
    obtain ⟨hat, hd, hletter⟩ := first_of_operator hmem
    have hfound : (operators.find? (·.1.isPrefixOf (c :: (cs ++ rest)))).isSome = true :=
      List.find?_isSome.2 ⟨_, hmem, List.isPrefixOf_iff_prefix.2 (List.prefix_append (c :: cs) rest)⟩
    obtain ⟨⟨text, kind'⟩, hfind⟩ := Option.isSome_iff_exists.1 hfound
    rw [leading?_of_other hat hd hletter, hfind]
    exact ⟨kind', text.length - 1, rfl⟩

/-- The scanner reads a lexeme that is the longest one where it stands. -/
theorem leading?_of_longest (h : Lexeme (c :: cs) kind v) (hlongest : Longest (c :: cs) (c :: cs ++ rest)) :
    leading? c (cs ++ rest) = some (kind, cs.length) := by
  obtain ⟨kind', n, hleading⟩ := exists_leading? h rest
  obtain ⟨hn, v', hlexeme⟩ := lexeme_of_leading? hleading
  have hlength : cs.length ≤ n :=
    Nat.le_of_succ_le_succ (length_le_of_leading? hleading h (List.prefix_append (c :: cs) rest))
  have hle : n ≤ cs.length := by
    have hprefix : c :: (cs ++ rest).take n <+: c :: cs ++ rest := (List.prefix_cons_inj c).2 (List.take_prefix _ _)
    have hother := hlongest _ kind' v' hlexeme hprefix
    rw [List.length_cons, List.length_cons, List.length_take_of_le hn] at hother
    exact Nat.le_of_succ_le_succ hother
  obtain rfl := Nat.le_antisymm hle hlength
  rw [List.take_left] at hlexeme
  rw [hleading, (hlexeme.unique h).1]

theorem scanFrom_lexeme (h : Lexeme text kind v) (hlongest : Longest text (text ++ rest))
    (hlater : scanFrom (column + text.length) rest = .ok tokens) :
    scanFrom column (text ++ rest) = .ok (⟨kind, String.ofList text, column⟩ :: tokens) := by
  obtain ⟨c, cs, rfl⟩ := List.exists_cons_of_ne_nil h.ne_nil
  have hc := h.isSpace_eq_false List.mem_cons_self
  rw [List.length_cons, Nat.add_comm cs.length, ← Nat.add_assoc] at hlater
  rw [List.cons_append, scanFrom, if_neg (by simp [hc]), leading?_of_longest h hlongest]
  dsimp only
  rw [List.drop_left, hlater, List.take_left]
  rfl

/-! ### Along a text -/

/-- The tokens of a text whose first character stands at a column. -/
inductive Cut : Nat → List Char → List Token → Prop where
  | nil (column : Nat) : Cut column [] [endAt column]
  | space {column : Nat} {c : Char} {rest : List Char} {tokens : List Token} (hc : isSpace c = true)
      (h : Cut (column + 1) rest tokens) : Cut column (c :: rest) tokens
  | token {column : Nat} {text rest : List Char} {kind : Kind} {v : Option Value} {tokens : List Token}
      (hl : Lexeme text kind v) (hlongest : Longest text (text ++ rest)) (h : Cut (column + text.length) rest tokens) :
      Cut column (text ++ rest) (⟨kind, String.ofList text, column⟩ :: tokens)

theorem cut_of_scanFrom {cs : List Char} (h : scanFrom column cs = .ok tokens) : Cut column cs tokens := by
  induction hn : cs.length using Nat.strongRecOn generalizing column cs tokens with
  | ind n ih =>
    cases cs with
    | nil =>
      rw [scanFrom] at h
      cases h
      exact .nil column
    | cons c rest =>
      rw [scanFrom] at h
      by_cases hs : isSpace c = true
      · rw [if_pos hs] at h
        have hlength : rest.length < n := by
          rw [← hn, List.length_cons]
          omega
        exact .space hs (ih rest.length hlength h rfl)
      · rw [if_neg hs] at h
        cases hl : leading? c rest with
        | none => rw [hl] at h; cases h
        | some found =>
          obtain ⟨kind, m⟩ := found
          rw [hl] at h
          dsimp only at h
          cases hlater : scanFrom (column + 1 + m) (rest.drop m) with
          | error e => rw [hlater] at h; cases h
          | ok later =>
            rw [hlater] at h
            cases h
            obtain ⟨hm, v, hlexeme⟩ := lexeme_of_leading? hl
            have hlength : (c :: rest.take m).length = m + 1 := by
              rw [List.length_cons, List.length_take_of_le hm]
            have hshorter : (rest.drop m).length < n := by
              rw [← hn, List.length_drop, List.length_cons]
              omega
            have htail : Cut (column + (c :: rest.take m).length) (rest.drop m) later := by
              rw [hlength, Nat.add_comm m, ← Nat.add_assoc]
              exact ih _ hshorter hlater rfl
            have hlongest : Longest (c :: rest.take m) (c :: rest.take m ++ rest.drop m) := by
              intro other kind' v' hother hprefix
              rw [List.cons_append, List.take_append_drop] at hprefix
              rw [hlength]
              exact length_le_of_leading? hl hother hprefix
            have hcut := Cut.token hlexeme hlongest htail
            rwa [List.cons_append, List.take_append_drop] at hcut

theorem scanFrom_of_cut {cs : List Char} (h : Cut column cs tokens) : scanFrom column cs = .ok tokens := by
  induction h with
  | nil column => rw [scanFrom]
  | space hc _ ih => rw [scanFrom, if_pos hc, ih]
  | token hl hlongest _ ih => exact scanFrom_lexeme hl hlongest ih

/-! ### Places -/

/-- A token covers a column. -/
def Covers (t : Token) (column : Nat) : Prop := t.column ≤ column ∧ column < t.column + t.lexeme.length

/-- How tokens lie in a text whose first character stands at column `first`. -/
structure Tiles (first : Nat) (source : List Char) (ts : List Token) : Prop where
  /-- A token has a text, which stands in the source at its column. -/
  placed : ∀ t ∈ ts, t.lexeme ≠ "" ∧ first ≤ t.column ∧ t.lexeme.toList <+: source.drop (t.column - first)
  /-- Tokens follow one another without overlap. -/
  apart : ts.Pairwise fun t u => t.column < u.column ∧ t.column + t.lexeme.length ≤ u.column
  /-- A character that belongs to no token is blank. -/
  blank : ∀ i c, source[i]? = some c → (∀ t ∈ ts, ¬ t.Covers (first + i)) → isSpace c = true
  /-- A token is the longest one that could stand there. -/
  longest : ∀ t ∈ ts, Longest t.lexeme.toList (source.drop (t.column - first))
  /-- The class and the literal of a token are those of its text. -/
  lexeme : ∀ t ∈ ts, Lexeme t.lexeme.toList t.kind t.literal?
  /-- The text leaves no choice of them. -/
  settled : ∀ t ∈ ts, ∀ kind v, Lexeme t.lexeme.toList kind v → kind = t.kind ∧ v = t.literal?

namespace Tiles

theorem nil (first : Nat) : Tiles first [] [] := by
  constructor <;> simp

theorem first_le (h : Tiles first source ts) {t : Token} (ht : t ∈ ts) : first ≤ t.column := (h.placed t ht).2.1

/-- What stands at a column behind a text stands there without that text too. -/
theorem drop_behind (text rest : List Char) (hcolumn : first + text.length ≤ column) :
    (text ++ rest).drop (column - first) = rest.drop (column - (first + text.length)) := by
  have hsplit : column - first = text.length + (column - (first + text.length)) := by omega
  rw [hsplit, ← List.drop_drop, List.drop_left]

/-- A blank is passed. -/
theorem space (hc : isSpace c = true) (h : Tiles (first + 1) rest ts) : Tiles first (c :: rest) ts := by
  have hdrop : ∀ t ∈ ts, (c :: rest).drop (t.column - first) = rest.drop (t.column - (first + 1)) :=
    fun t ht => drop_behind [c] rest (h.first_le ht)
  constructor
  · intro t ht
    obtain ⟨hne, hfirst, hprefix⟩ := h.placed t ht
    rw [hdrop t ht]
    exact ⟨hne, by omega, hprefix⟩
  · exact h.apart
  · intro i x hx hi
    cases i with
    | zero =>
      rw [List.getElem?_cons_zero] at hx
      cases hx
      exact hc
    | succ i =>
      rw [List.getElem?_cons_succ] at hx
      refine h.blank i x hx fun t ht => ?_
      have := hi t ht
      rwa [Nat.add_assoc, Nat.add_comm 1]
  · intro t ht
    rw [hdrop t ht]
    exact h.longest t ht
  · exact h.lexeme
  · exact h.settled

/-- A token is set before the others. -/
theorem token (hl : Lexeme text kind v) (hlongest : Longest text (text ++ rest))
    (h : Tiles (first + text.length) rest ts) :
    Tiles first (text ++ rest) (⟨kind, String.ofList text, first⟩ :: ts) := by
  have hne := hl.ne_nil
  have hpos : 0 < text.length := List.length_pos_iff.2 hne
  have hliteral := hl.literal? first
  have hdrop : ∀ t ∈ ts, (text ++ rest).drop (t.column - first) = rest.drop (t.column - (first + text.length)) :=
    fun t ht => drop_behind text rest (h.first_le ht)
  constructor
  · refine List.forall_mem_cons.2 ⟨⟨?_, Nat.le_refl _, ?_⟩, fun t ht => ?_⟩
    · simpa using hne
    · simp
    · obtain ⟨hne', hfirst, hprefix⟩ := h.placed t ht
      rw [hdrop t ht]
      exact ⟨hne', by omega, hprefix⟩
  · refine List.pairwise_cons.2 ⟨fun t ht => ?_, h.apart⟩
    have hfirst := h.first_le ht
    simp only [String.length_ofList]
    omega
  · intro i x hx hi
    have houtside : text.length ≤ i := by
      have := hi _ List.mem_cons_self
      simp only [Covers, String.length_ofList] at this
      omega
    rw [List.getElem?_append_right houtside] at hx
    refine h.blank _ x hx fun t ht => ?_
    have := hi t (List.mem_cons_of_mem _ ht)
    rwa [Nat.add_assoc, Nat.add_sub_cancel' houtside]
  · refine List.forall_mem_cons.2 ⟨?_, fun t ht => ?_⟩
    · simpa using hlongest
    · rw [hdrop t ht]
      exact h.longest t ht
  · refine List.forall_mem_cons.2 ⟨?_, h.lexeme⟩
    rw [String.toList_ofList, hliteral]
    exact hl
  · refine List.forall_mem_cons.2 ⟨fun kind' v' h' => ?_, h.settled⟩
    rw [String.toList_ofList] at h'
    rw [hliteral]
    exact h'.unique hl

end Tiles

theorem Cut.tiles (h : Cut first source tokens) : ∃ ts, tokens = ts ++ [endAt (first + source.length)] ∧
    (∀ t ∈ ts, t.kind ≠ .endOfInput) ∧ Tiles first source ts := by
  induction h with
  | nil column => exact ⟨[], rfl, List.forall_mem_nil _, .nil column⟩
  | @space column c rest tokens hc _ ih =>
    obtain ⟨ts, rfl, hkinds, htiles⟩ := ih
    refine ⟨ts, ?_, hkinds, htiles.space hc⟩
    rw [List.length_cons, Nat.add_assoc, Nat.add_comm 1]
  | @token column text rest kind v tokens hl hlongest _ ih =>
    obtain ⟨ts, rfl, hkinds, htiles⟩ := ih
    refine ⟨⟨kind, String.ofList text, column⟩ :: ts, ?_, ?_, htiles.token hl hlongest⟩
    · rw [List.length_append, Nat.add_assoc, List.cons_append]
    · exact List.forall_mem_cons.2 ⟨hl.ne_endOfInput, hkinds⟩

/-! ### Whole texts -/

theorem cut_of_scan {source : String} (h : scan source = .ok tokens) : Cut 1 source.toList tokens := cut_of_scanFrom h

/-- **Scanning loses nothing and takes the longest tokens.** The tokens of a text end with one end of input behind its
last character, and the others tile the text: each stands at its column and is the longest lexeme there, of the class
and with the value of its text; they do not overlap, and what lies between them is blank. -/
theorem scan_tiles {source : String} (h : scan source = .ok tokens) :
    ∃ ts, tokens = ts ++ [endAt (source.length + 1)] ∧ (∀ t ∈ ts, t.kind ≠ .endOfInput) ∧ Tiles 1 source.toList ts := by
  obtain ⟨ts, htokens, hkinds, htiles⟩ := (cut_of_scan h).tiles
  rw [String.length_toList, Nat.add_comm] at htokens
  exact ⟨ts, htokens, hkinds, htiles⟩

theorem scan_tiles_spaced :
    let source := " 2d20kh1.5 +\t@str.mod!!==true. "
    ∃ tokens, scan source = .ok tokens ∧ ∃ ts, tokens = ts ++ [endAt (source.length + 1)] ∧
      (∀ t ∈ ts, t.kind ≠ .endOfInput) ∧ Tiles 1 source.toList ts := by
  intro source
  have hok : (scan source).isOk = true := by decide +kernel
  cases h : scan source with
  | error e => rw [h] at hok; cases hok
  | ok tokens => exact ⟨tokens, rfl, scan_tiles h⟩

end DiceNotation.Token
