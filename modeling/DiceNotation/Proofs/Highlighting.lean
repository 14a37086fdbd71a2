import DiceNotation.Proofs.Tiling
import DiceNotation.Shell.Highlight

/-!
What highlighting shows of a text.

The fragments of a line follow its tokens: the column of a token is the one behind the fragments before it and the
blanks in between, so nothing is cut away or shown twice. What a document knows of a line is what it would find again.

Main statement: `highlight_keeps`.
-/

namespace DiceNotation.Shell

open Token

variable {before tokens : List Token} {t last : Token} {source blanks : List Char} {fragments : List Fragment}
  {inLabel : Bool} {column : Nat}

/-! ### Labels -/

/-- Behind these tokens a bracket is open: none was closed since one was opened. -/
def InLabel (before : List Token) : Prop :=
  ∃ front opener inside, before = front ++ opener :: inside ∧ opener.kind = .leftBracket ∧
    ∀ t ∈ inside, t.kind ≠ .rightBracket

theorem not_inLabel_nil : ¬ InLabel [] := by
  rintro ⟨front, opener, inside, h, -⟩
  simp at h

theorem inLabel_concat_iff :
    InLabel (before ++ [t]) ↔ t.kind = .leftBracket ∨ (t.kind ≠ .rightBracket ∧ InLabel before) := by
  constructor
  · rintro ⟨front, opener, inside, h, ho, hi⟩
    rcases List.eq_nil_or_concat inside with rfl | ⟨inside, u, rfl⟩
    · obtain ⟨-, hu⟩ := List.append_inj' h rfl
      obtain rfl := List.singleton_inj.1 hu
      exact .inl ho
    · have hsplit : before ++ [t] = (front ++ opener :: inside) ++ [u] := by simpa using h
      obtain ⟨rfl, hu⟩ := List.append_inj' hsplit rfl
      obtain rfl := List.singleton_inj.1 hu
      exact .inr ⟨hi t (by simp), front, opener, inside, rfl, ho, fun w hw => hi w (by simp [hw])⟩
  · rintro (h | ⟨h, front, opener, inside, rfl, ho, hi⟩)
    · exact ⟨before, t, [], rfl, h, by simp⟩
    · refine ⟨front, opener, inside ++ [t], by simp, ho, ?_⟩
      simpa [or_imp, forall_and] using ⟨hi, h⟩

theorem labelAfter_iff (h : inLabel = true ↔ InLabel before) :
    labelAfter inLabel t = true ↔ InLabel (before ++ [t]) := by
  rw [inLabel_concat_iff, ← h, labelAfter]
  split
  · next hl => simp [hl]
  · next hl =>
    split
    · next hr => simp [hr]
    · next hr => simp [hl, hr]

/-- A token is shown as a label if it is a name in brackets. -/
theorem groupOf_eq_label_iff {previous next : Option Token} :
    groupOf (labelAfter inLabel t) previous t next = .label ↔ t.kind = .name ∧ inLabel = true := by
  cases hk : t.kind with
  | name =>
    have hafter : labelAfter inLabel t = inLabel := by simp [labelAfter, hk]
    rw [groupOf, hk, hafter]
    dsimp only [nameGroup]
    cases inLabel with
    | true => simp
    | false =>
      simp only [Bool.false_eq_true, if_false, and_false, iff_false]
      split
      · simp
      · split
        · simp
        · split <;> simp
  | bang =>
    rw [groupOf, hk]
    dsimp only
    split <;> simp
  | _ => simp [groupOf, hk]

/-! ### Lines -/

/-- The fragments of a text that has these tokens behind `before`: blanks that are plain and, in one fragment each, the
tokens but the last one, which closes the text. A label is a name in brackets. -/
inductive Painted : List Token → List Char → List Token → List Fragment → Prop where
  | done {before : List Token} {blanks : List Char} {last : Token} (hb : ∀ c ∈ blanks, isSpace c = true)
      (hl : last.kind = .endOfInput) : Painted before blanks [last] (gap blanks)
  | token {before later : List Token} {blanks rest : List Char} {t : Token} {group : Group} {fragments : List Fragment}
      (hb : ∀ c ∈ blanks, isSpace c = true) (hgroup : group = .label ↔ t.kind = .name ∧ InLabel before)
      (h : Painted (before ++ [t]) rest later fragments) :
      Painted before (blanks ++ (t.lexeme.toList ++ rest)) (t :: later)
        (gap blanks ++ ⟨group, t.lexeme.toList⟩ :: fragments)

/-- The text of fragments. -/
def shown (fragments : List Fragment) : List Char := fragments.flatMap (·.text)

theorem shown_gap (text : List Char) : shown (gap text) = text := by
  cases text <;> simp [shown, gap]

theorem Painted.shown_eq (h : Painted before source tokens fragments) : shown fragments = source := by
  induction h with
  | done hb hl => exact shown_gap _
  | @token _ _ blanks rest t _ fragments hb hgroup _ ih =>
    have hgap := shown_gap blanks
    rw [shown] at hgap ih ⊢
    rw [List.flatMap_append, List.flatMap_cons, hgap, ih]

/-- Along a text, behind blanks that were not shown yet. -/
theorem painted_fragmentsFrom (hcut : Cut (column + blanks.length) source tokens)
    (hb : ∀ c ∈ blanks, isSpace c = true) (hlabel : inLabel = true ↔ InLabel before) (previous : Option Token) :
    Painted before (blanks ++ source) tokens (fragmentsFrom column (blanks ++ source) inLabel previous tokens) := by
  generalize hend : column + blanks.length = stop at hcut
  induction hcut generalizing column blanks inLabel before previous with
  | nil stop =>
    have hskip : fragmentsFrom column blanks inLabel previous [endAt stop] = gap blanks := by
      simp [fragmentsFrom, endAt]
    rw [List.append_nil, hskip]
    exact .done hb rfl
  | @space stop c rest tokens hc hcut ih =>
    have hsplit : blanks ++ c :: rest = (blanks ++ [c]) ++ rest := by simp
    rw [hsplit]
    refine ih (fun x hx => ?_) hlabel previous ?_
    · rcases List.mem_append.1 hx with hx | hx
      · exact hb x hx
      · rwa [List.mem_singleton.1 hx]
    · rw [List.length_append, List.length_singleton]
      omega
  | @token stop text rest kind v tokens hl hlongest hcut ih =>
    subst hend
    obtain ⟨t, ht⟩ : ∃ t : Token, t = ⟨kind, String.ofList text, column + blanks.length⟩ := ⟨_, rfl⟩
    have hkind : t.kind ≠ .endOfInput := by rw [ht]; exact hl.ne_endOfInput
    have hlexeme : t.lexeme.toList = text := by rw [ht]; exact String.toList_ofList
    have hcolumn : t.column = column + blanks.length := by rw [ht]
    have hne : t.lexeme ≠ "" := by
      intro hempty
      rw [hempty] at hlexeme
      exact hl.ne_nil hlexeme.symm
    rw [← ht]
    clear ht
    subst hlexeme
    have hgap : t.column - column = blanks.length := by omega
    have hskip : ¬ (t.kind = .endOfInput || t.lexeme = "" || t.column < column) = true := by
      simp [hkind, hne]
      omega
    rw [fragmentsFrom, if_neg hskip]
    dsimp only
    rw [hgap, List.take_left, ← List.drop_drop, List.drop_left, List.drop_left]
    -- the fragments go on behind the token, where no blank waits to be shown
    have hlater := @ih (before ++ [t]) [] (labelAfter inLabel t) (t.column + t.lexeme.toList.length) (by simp)
      (labelAfter_iff hlabel) (some t) (by rw [hcolumn]; rfl)
    exact .token hb (groupOf_eq_label_iff.trans (and_congr_right fun _ => hlabel)) hlater

/-- What a line is shown as. -/
structure Shows (line : String) (fragments : List Fragment) : Prop where
  whole : shown fragments = line.toList
  empty : line = "" → fragments = [⟨.plain, []⟩]
  scanned : ∀ tokens, scan line = .ok tokens → line ≠ "" → Painted [] line.toList tokens fragments
  unscanned : ∀ e, scan line = .error e → fragments = [⟨.plain, line.toList⟩]

theorem scan_empty : scan "" = .ok [endAt 1] := by
  rw [scan, String.toList_empty, scanFrom]

theorem shows_highlightLine (line : String) : Shows line (highlightLine line) := by
  by_cases hempty : line = ""
  · subst hempty
    constructor
    · rfl
    · exact fun _ => rfl
    · exact fun _ _ hne => absurd rfl hne
    · intro e he
      rw [scan_empty] at he
      cases he
  · rw [highlightLine, if_neg hempty]
    cases hscan : scan line with
    | error e =>
      constructor
      · simp [shown]
      · exact fun h => absurd h hempty
      · intro tokens h
        rw [hscan] at h
        cases h
      · exact fun _ _ => rfl
    | ok tokens =>
      have hpaint : Painted [] ([] ++ line.toList) tokens (fragmentsFrom 1 ([] ++ line.toList) false none tokens) :=
        painted_fragmentsFrom (cut_of_scan hscan) (by simp) (by simp [not_inLabel_nil]) none
      rw [List.nil_append] at hpaint
      have hne : (fragmentsFrom 1 line.toList false none tokens).isEmpty = false := by
        rw [List.isEmpty_eq_false_iff]
        intro hnil
        have hshown := hpaint.shown_eq
        rw [hnil] at hshown
        exact hempty (String.toList_eq_nil_iff.1 hshown.symm)
      dsimp only
      rw [if_neg (by simp [hne])]
      constructor
      · exact hpaint.shown_eq
      · exact fun h => absurd h hempty
      · intro tokens' h _
        rw [hscan] at h
        cases h
        exact hpaint
      · intro e h
        rw [hscan] at h
        cases h

/-! ### Documents -/

theorem not_mem_of_mem_splitOn {c : Char} {text line : List Char} (h : line ∈ text.splitOn c) : c ∉ line := by
  induction text generalizing line with
  | nil =>
    rw [List.splitOn_nil, List.mem_singleton] at h
    simp [h]
  | cons x text ih =>
    rw [List.splitOn_cons_eq_if_modifyHead] at h
    split at h
    · rcases List.mem_cons.1 h with rfl | h
      · simp
      · exact ih h
    · next hx =>
      have hne : text.splitOn c ≠ [] := List.splitOn_ne_nil c text
      cases hsplit : text.splitOn c with
      | nil => exact absurd hsplit hne
      | cons first rest =>
        rw [hsplit] at h ih
        rcases List.mem_cons.1 h with rfl | h
        · have hfirst := ih List.mem_cons_self
          simp only [List.mem_cons, not_or]
          exact ⟨fun heq => hx (by simp [heq]), hfirst⟩
        · exact ih (List.mem_cons_of_mem _ h)

theorem intercalate_lines (text : String) : "\n".intercalate (lines text) = text := by
  apply String.toList_injective
  rw [String.toList_intercalate, lines, List.map_map]
  have hid : String.toList ∘ String.ofList = id := funext fun cs => String.toList_ofList
  rw [hid, List.map_id]
  exact List.intercalate_splitOn '\n'

namespace Document

variable {d : Document}

/-- What is known of a line is what it would be shown as. -/
def Sound (d : Document) : Prop := ∀ number fragments, d.known.lookup number = some fragments →
  fragments = d.fragments number

theorem sound_ofText (text : String) : (ofText text).Sound := by
  intro number fragments h
  cases h

theorem Sound.ask_eq (h : d.Sound) (number : Nat) : (d.ask number).1 = d.fragments number := by
  rw [ask]
  split
  · next fragments hknown => exact h number fragments hknown
  · rfl

/-- Asking keeps the lines, and what is known of them is sound. -/
theorem Sound.ask (h : d.Sound) (number : Nat) : (d.ask number).2.lines = d.lines ∧ (d.ask number).2.Sound := by
  rw [Document.ask]
  split
  · exact ⟨rfl, h⟩
  · refine ⟨rfl, fun other fragments hother => ?_⟩
    rw [List.lookup_cons] at hother
    split at hother
    · next heq =>
      cases hother
      rw [eq_of_beq heq]
      rfl
    · exact h other fragments hother

theorem Sound.askAll_eq (h : d.Sound) (numbers : List Nat) : d.askAll numbers = numbers.map d.fragments := by
  induction numbers generalizing d with
  | nil => rfl
  | cons number numbers ih =>
    obtain ⟨hlines, hsound⟩ := h.ask number
    have hfragments : (d.ask number).2.fragments = d.fragments := by
      funext other
      rw [fragments, fragments, hlines]
    rw [askAll, h.ask_eq, ih hsound, hfragments, List.map_cons]

end Document

theorem highlight_eq (text : String) : highlight text = (Document.ofText text).fragments :=
  funext fun number => (Document.sound_ofText text).ask_eq number

theorem highlight_of_some {text line : String} {number : Nat} (h : (lines text)[number]? = some line) :
    highlight text number = highlightLine line := by
  rw [highlight_eq, Document.fragments, Document.ofText, h]

theorem highlight_of_none {text : String} {number : Nat} (h : (lines text)[number]? = none) :
    highlight text number = [⟨.plain, []⟩] := by
  rw [highlight_eq, Document.fragments, Document.ofText, h]

/-- What is shown of a text, line by line. -/
structure Keeps (text : String) : Prop where
  split : "\n".intercalate (lines text) = text ∧ ∀ line ∈ lines text, '\n' ∉ line.toList
  whole : "\n".intercalate ((List.range (lines text).length).map fun number =>
    String.ofList (shown (highlight text number))) = text
  line : ∀ number line, (lines text)[number]? = some line → Shows line (highlight text number)
  past : ∀ number, (lines text).length ≤ number → highlight text number = [⟨.plain, []⟩]
  /-- Lines may be asked for in any order, and more than once. -/
  asked : ∀ numbers, (Document.ofText text).askAll numbers = numbers.map (highlight text)

/-- **Highlighting never alters a text.** -/
theorem highlight_keeps (text : String) : Keeps text := by
  have hline : ∀ number line, (lines text)[number]? = some line → Shows line (highlight text number) := by
    intro number line hline
    rw [highlight_of_some hline]
    exact shows_highlightLine line
  constructor
  · refine ⟨intercalate_lines text, fun line hline => ?_⟩
    obtain ⟨cs, hcs, rfl⟩ := List.mem_map.1 hline
    rw [String.toList_ofList]
    exact not_mem_of_mem_splitOn hcs
  · have hlines : ((List.range (lines text).length).map fun number =>
        String.ofList (shown (highlight text number))) = lines text := by
      refine List.ext_getElem (by simp) fun number h h' => ?_
      rw [List.getElem_map, List.getElem_range, (hline number _ (List.getElem?_eq_getElem h')).whole,
        String.ofList_toList]
    rw [hlines, intercalate_lines]
  · exact hline
  · intro number hnumber
    exact highlight_of_none (List.getElem?_eq_none hnumber)
  · intro numbers
    rw [(Document.sound_ofText text).askAll_eq, highlight_eq]

/-- Two words in brackets, and a line that does not scan. -/
example : (Document.ofText "1d6 [red die]\n~").askAll [1, 0, 2, 1] =
    [[⟨.plain, ['~']⟩],
      [⟨.number, ['1']⟩, ⟨.dice, ['d']⟩, ⟨.number, ['6']⟩, ⟨.plain, [' ']⟩, ⟨.plain, ['[']⟩, ⟨.label, ['r', 'e', 'd']⟩,
        ⟨.plain, [' ']⟩, ⟨.label, ['d', 'i', 'e']⟩, ⟨.plain, [']']⟩],
      [⟨.plain, []⟩], [⟨.plain, ['~']⟩]] := by
  decide +kernel

end DiceNotation.Shell
