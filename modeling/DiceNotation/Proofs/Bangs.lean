import DiceNotation.Proofs.Columns
import DiceNotation.Proofs.Keywords
import DiceNotation.Proofs.Tiling

/-!
Bangs in place of the keywords of dice.

The keywords `x` and `cx` have other spellings of bangs, as many characters long. In their place the scanner reads them
as one token, and all other tokens stay what they are and where they are, unless a bang joins what stands next to it.

Main statement: `Expr.ofText_respell`.
-/

namespace DiceNotation

/-- The bangs that spell a keyword of dice. -/
def Modifier.bangs? : String → Option (String × Token.Kind)
  | "x" => some ("!", .bang)
  | "cx" => some ("!!", .doubleBang)
  | _ => none

namespace Token

variable {cs text pre word bangs post : List Char} {kind : Kind} {v : Option Value} {column first : Nat} {k : Token}
  {head tail tokens : List Token}

/-! ### Lexemes with bangs -/

/-- Behind its first character only the two bangs have one. -/
theorem Lexeme.eq_of_mem_tail (h : Lexeme text kind v) (hbang : '!' ∈ text.tail) : text = ['!', '!'] := by
  have hoperators : ∀ p ∈ operators, '!' ∈ p.1.tail → p.1 = ['!', '!'] := by decide
  have hmem := List.mem_of_mem_tail hbang
  cases h with
  | whole hne hd => exact absurd (hd _ hmem) (by decide)
  | fraction hne hd hne' hf =>
    rcases List.mem_append.1 hmem with hmem | hmem
    · exact absurd (hd _ hmem) (by decide)
    · rcases List.mem_cons.1 hmem with hmem | hmem
      · exact absurd hmem (by decide)
      · exact absurd (hf _ hmem) (by decide)
  | trueWord => exact absurd hmem (by decide)
  | falseWord => exact absurd hmem (by decide)
  | name hne hl => exact absurd (hl _ hmem) (by decide)
  | substitution hk => exact absurd (hk _ hbang) (by decide)
  | operator h => exact hoperators _ h hbang

theorem Lexeme.of_bang (h : Lexeme ('!' :: cs) kind v) : cs = [] ∨ cs = ['!'] ∨ cs = ['='] := by
  have hoperators : ∀ p ∈ operators, p.1.head? = some '!' → p.1.tail = [] ∨ p.1.tail = ['!'] ∨ p.1.tail = ['='] := by
    decide
  cases h.begins with
  | whole hc => exact absurd hc (by decide)
  | fraction hc => exact absurd hc (by decide)
  | word hc => exact absurd hc (by decide)
  | operator hmem => exact hoperators _ hmem rfl

theorem Lexeme.eq_of_kind (h : Lexeme text .bang v) : text = ['!'] := by
  have hoperators : ∀ p ∈ operators, p.2 = .bang → p.1 = ['!'] := by decide
  generalize hkind : Kind.bang = kind at h
  cases h with
  | operator h => exact hoperators _ h hkind.symm
  | _ => cases hkind

/-- A bang is a token where neither another one nor an equals sign follows it. -/
theorem longest_bang (hpost : ∀ c ∈ post.head?, c ≠ '!' ∧ c ≠ '=') : Longest ['!'] (['!'] ++ post) := by
  intro other kind v hother hprefix
  obtain ⟨c, cs, rfl⟩ := List.exists_cons_of_ne_nil hother.ne_nil
  obtain ⟨rfl, hcs⟩ := List.cons_prefix_cons.1 hprefix
  rcases hother.of_bang with rfl | rfl | rfl
  · rfl
  · obtain ⟨more, rfl⟩ := hcs
    exact absurd rfl (hpost '!' rfl).1
  · obtain ⟨more, rfl⟩ := hcs
    exact absurd rfl (hpost '=' rfl).2

theorem longest_bangs (post : List Char) : Longest ['!', '!'] (['!', '!'] ++ post) := by
  intro other kind v hother hprefix
  obtain ⟨c, cs, rfl⟩ := List.exists_cons_of_ne_nil hother.ne_nil
  obtain ⟨rfl, -⟩ := List.cons_prefix_cons.1 hprefix
  rcases hother.of_bang with rfl | rfl | rfl <;> simp

/-- A token before the keyword does not go on into bangs, but for a bang right before them. -/
theorem longest_before (hl : Lexeme text kind v) (h : Longest text (text ++ (pre ++ (word ++ post))))
    (hapart : kind = .bang → pre ≠ []) : Longest text (text ++ (pre ++ ('!' :: cs ++ post))) := by
  intro other kind' v' hother hprefix
  rw [← List.append_assoc] at hprefix h
  rcases Nat.le_total other.length (text ++ pre).length with hlength | hlength
  · have hshort := List.prefix_of_prefix_length_le hprefix (List.prefix_append _ _) hlength
    exact h other kind' v' hother (hshort.trans (List.prefix_append _ _))
  · obtain ⟨more, rfl⟩ := List.prefix_of_prefix_length_le (List.prefix_append _ _) hprefix hlength
    cases more with
    | nil => exact h _ kind' v' hother (by rw [List.append_nil]; exact List.prefix_append _ _)
    | cons d ds =>
      obtain ⟨rfl, -⟩ := List.cons_prefix_cons.1 ((List.prefix_append_right_inj _).1 hprefix)
      obtain ⟨c, rest, rfl⟩ := List.exists_cons_of_ne_nil hl.ne_nil
      have hbangs := hother.eq_of_mem_tail (by simp)
      -- the two bangs are the token and the first one behind it
      obtain ⟨rfl, hrest⟩ := List.cons.inj hbangs
      obtain ⟨hempty, -⟩ := List.append_eq_singleton_iff.1 hrest |>.resolve_right (by simp)
      obtain ⟨rfl, rfl⟩ := List.append_eq_nil_iff.1 hempty
      exact absurd rfl (hapart (hl.unique (.operator (by decide))).1)

/-! ### Along a text -/

/-- A name among the tokens of a text stands in it at its column. If as many characters that are the longest lexeme
with bangs stand there instead, they are the token there, and the others stay. -/
theorem Cut.respell {kind' : Kind} {v' : Option Value} (h : Cut first cs (head ++ k :: tail)) (hk : k.kind = .name)
    (hapart : ∀ t ∈ head, t.kind = .bang → t.column + 1 ≠ k.column)
    (hbangs : Lexeme ('!' :: bangs) kind' v') (hlength : bangs.length + 1 = k.lexeme.length) :
    ∃ pre post, cs = pre ++ (k.lexeme.toList ++ post) ∧ k.column = first + pre.length ∧
      (Longest ('!' :: bangs) ('!' :: bangs ++ post) →
        Cut first (pre ++ ('!' :: bangs ++ post))
          (head ++ ⟨kind', String.ofList ('!' :: bangs), k.column⟩ :: tail)) := by
  generalize htokens : head ++ k :: tail = tokens at h
  induction h generalizing head with
  | nil column =>
    cases head with
    | nil =>
      obtain ⟨rfl, -⟩ := List.cons.inj htokens
      cases hk
    | cons t head => simp at htokens
  | @space column c rest tokens hc _ ih =>
    obtain ⟨pre, post, rfl, hcolumn, hcut⟩ := ih hapart htokens
    refine ⟨c :: pre, post, rfl, ?_, fun hlongest => .space hc (hcut hlongest)⟩
    rw [hcolumn, List.length_cons]
    omega
  | @token column text rest kind v tokens hl hlongest hrest ih =>
    cases head with
    | nil =>
      obtain ⟨rfl, rfl⟩ := List.cons.inj htokens
      refine ⟨[], rest, by simp, rfl, fun hlongest' => .token hbangs hlongest' ?_⟩
      have hsame : ('!' :: bangs).length = text.length := by simpa using hlength
      rwa [hsame]
    | cons t head =>
      obtain ⟨rfl, hlater⟩ := List.cons.inj htokens
      obtain ⟨hfirst, hothers⟩ := List.forall_mem_cons.1 hapart
      obtain ⟨pre, post, rfl, hcolumn, hcut⟩ := ih hothers hlater
      refine ⟨text ++ pre, post, (List.append_assoc ..).symm, ?_, fun hlongest' => ?_⟩
      · rw [hcolumn, List.length_append, Nat.add_assoc]
      · rw [List.append_assoc]
        refine .token hl (longest_before hl hlongest fun hkind hpre => hfirst hkind ?_) (hcut hlongest')
        obtain rfl : kind = .bang := hkind
        rw [hcolumn, hpre, hl.eq_of_kind]
        rfl

/-- The text with another spelling of a token. -/
def respell (source : String) (t : Token) (text : String) : String :=
  String.ofList (source.toList.take (t.column - 1) ++
    (text.toList ++ source.toList.drop (t.column - 1 + t.lexeme.length)))

/-- Bangs in place of a keyword join none of its neighbours: no bang stands right before it, and neither a bang nor an
equals sign right behind an `x`. -/
structure Apart (source : String) (head : List Token) (k : Token) : Prop where
  before : ∀ t ∈ head, t.kind = .bang → t.column + 1 ≠ k.column
  behind : k.lexeme = "x" → ∀ c, source.toList[k.column]? = some c → c ≠ '!' ∧ c ≠ '='

theorem toList_respell {source : String} (h : source.toList = pre ++ (k.lexeme.toList ++ post))
    (hcolumn : k.column = 1 + pre.length) (text : String) :
    (respell source k text).toList = pre ++ (text.toList ++ post) := by
  have hstart : k.column - 1 = pre.length := by omega
  have hlength : k.lexeme.length = k.lexeme.toList.length := String.length_toList.symm
  rw [respell, String.toList_ofList, h, hstart, hlength, List.take_left, ← List.drop_drop, List.drop_left,
    List.drop_left]

/-- With bangs in place of a keyword a text has the same tokens, but for that one. -/
theorem scan_respell {source bangs : String} (h : scan source = .ok (head ++ k :: tail)) (hk : k.kind = .name)
    (hbangs : Modifier.bangs? k.lexeme = some (bangs, kind)) (hapart : Apart source head k) :
    scan (respell source k bangs) = .ok (head ++ ⟨kind, bangs, k.column⟩ :: tail) := by
  have hcut := cut_of_scan h
  have hbang : Lexeme ['!'] .bang none := .operator (by decide)
  have hdouble : Lexeme ['!', '!'] .doubleBang none := .operator (by decide)
  unfold Modifier.bangs? at hbangs
  split at hbangs
  · next hx =>
    cases hbangs
    obtain ⟨pre, post, hsource, hcolumn, hnew⟩ := hcut.respell hk hapart.before hbang (by rw [hx]; rfl)
    have hpost : ∀ c ∈ post.head?, c ≠ '!' ∧ c ≠ '=' := by
      intro c hc
      obtain ⟨rest, rfl⟩ := List.head?_eq_some_iff.1 hc
      refine hapart.behind hx c ?_
      rw [hsource, hcolumn, hx, List.getElem?_append_right (by omega), Nat.add_sub_cancel]
      rfl
    refine scanFrom_of_cut ?_
    rw [toList_respell hsource hcolumn]
    exact hnew (longest_bang hpost)
  · next hcx =>
    cases hbangs
    obtain ⟨pre, post, hsource, hcolumn, hnew⟩ := hcut.respell hk hapart.before hdouble (by rw [hcx]; rfl)
    refine scanFrom_of_cut ?_
    rw [toList_respell hsource hcolumn]
    exact hnew (longest_bangs post)
  · cases hbangs

end Token

namespace Modifier

theorem alias_of_bangs? {k : Token} {bangs : String} {kind : Token.Kind} (h : bangs? k.lexeme = some (bangs, kind))
    (hk : k.kind = .name) (column : Nat) : k.Alias ⟨kind, bangs, column⟩ := by
  unfold bangs? at h
  split at h
  · next hx =>
    cases h
    exact ⟨hk, .inl rfl, by rw [hx]; rfl, by rw [hx]; rfl⟩
  · next hcx =>
    cases h
    exact ⟨hk, .inr rfl, by rw [hcx]; rfl, by rw [hcx]; rfl⟩
  · cases h

end Modifier

namespace Expr

open Descent Token

/-- **Bangs spell keywords of dice.** Where an `x` or a `cx` is taken as the keyword of dice in a text that is an
expression, the text with `!` or `!!` in its place is that expression too, whatever follows the keyword, unless the
bangs join one of their neighbours. -/
theorem ofText_respell {source bangs : String} {head tail : List Token} {k : Token} {kind : Kind} {e : Expr}
    (hscan : Token.scan source = .ok (head ++ k :: tail)) (hk : k.kind = .name)
    (hbangs : Modifier.bangs? k.lexeme = some (bangs, kind)) (hapart : Apart source head k)
    (hcomes : Comes (.level .choice) (.start (head ++ k :: tail)) .diceModifier ⟨head.reverse, k :: tail⟩)
    (h : ofText source = .ok e) : ofText (respell source k bangs) = .ok e := by
  obtain ⟨tokens, hscan', hread⟩ := ofText_eq_ok h
  cases hscan.symm.trans hscan'
  have halias := Modifier.alias_of_bangs? hbangs hk k.column
  rw [ofText, scan_respell hscan hk hbangs hapart]
  dsimp only
  rw [ofTokens_respelled halias hcomes hread]

theorem ofText_respell_compared :
    let head : List Token := [⟨.number, "2", 1⟩, ⟨.name, "d", 2⟩, ⟨.number, "6", 3⟩]
    let tail : List Token := [⟨.greater, ">", 6⟩, ⟨.number, "4", 7⟩, ⟨.plus, "+", 8⟩, ⟨.number, "1", 9⟩, endAt 10]
    let k : Token := ⟨.name, "cx", 4⟩
    ∃ e, Token.scan "2d6cx>4+1" = .ok (head ++ k :: tail) ∧ Modifier.bangs? k.lexeme = some ("!!", .doubleBang) ∧
      Apart "2d6cx>4+1" head k ∧
      Comes (.level .choice) (.start (head ++ k :: tail)) .diceModifier ⟨head.reverse, k :: tail⟩ ∧
      ofText "2d6cx>4+1" = .ok e ∧ respell "2d6cx>4+1" k "!!" = "2d6!!>4+1" ∧ ofText "2d6!!>4+1" = .ok e := by
  intro head tail k
  have hscan : Token.scan "2d6cx>4+1" = .ok (head ++ k :: tail) := by decide +kernel
  have hapart : Apart "2d6cx>4+1" head k := ⟨by decide, fun h => absurd h (by decide)⟩
  have hcount : Stops (.read (.level .sign)) (.start (head ++ k :: tail)) _ :=
    (advances_level .sign).stops _ 9 (by decide)
  have hfaces : Stops (.read (.call false)) ⟨head.reverse.tail, head.drop 2 ++ k :: tail⟩ _ :=
    (advances_call false).stops _ 9 (by decide)
  have hdice := comes_dice (.start (head ++ k :: tail))
  have hcomes : Comes (.level .choice) (.start (head ++ k :: tail)) .diceModifier ⟨head.reverse, k :: tail⟩ :=
    ComesToFaces.diceModifier ⟨hdice.tail (.next hcount (.here ..)), .andThen (.step .current _) (.give ..), hfaces⟩ rfl
  obtain ⟨e, hread⟩ : ∃ e, ofText "2d6cx>4+1" = .ok e := by
    rw [ofText, hscan]
    exact ⟨_, rfl⟩
  have hsame := ofText_respell hscan rfl rfl hapart hcomes hread
  have hsource : respell "2d6cx>4+1" k "!!" = "2d6!!>4+1" := by decide +kernel
  exact ⟨e, hscan, rfl, hapart, hcomes, hread, hsource, hsource ▸ hsame⟩

/-- Texts whose debug forms differ are different expressions, not only up to columns. -/
theorem ne_of_prefixTexts {source source' : String}
    (h : (ofText source).toOption.any (fun e => (ofText source').toOption.all fun e' =>
      (e'.prefixText .blank []).toOption ≠ (e.prefixText .blank []).toOption) = true) :
    ∃ e, ofText source = .ok e ∧ ∀ e', ofText source' = .ok e' → e'.unplaced ≠ e.unplaced := by
  cases hread : ofText source with
  | error failure => rw [hread] at h; cases h
  | ok e =>
    refine ⟨e, rfl, fun e' hread' hsame => ?_⟩
    rw [hread, hread'] at h
    refine absurd ?_ (of_decide_eq_true h)
    rw [← e'.prefixText_unplaced, hsame, e.prefixText_unplaced]

/-- Bangs that join what stands behind or before them: an equals sign or another bang behind an `x`, or a bang before
either keyword. Then the text is another expression, or none. -/
theorem ofText_respell_joined :
    let head : List Token := [⟨.number, "1", 1⟩, ⟨.name, "d", 2⟩, ⟨.number, "6", 3⟩]
    let tail : List Token := [⟨.assign, "=", 5⟩, ⟨.number, "3", 6⟩, endAt 7]
    let k : Token := ⟨.name, "x", 4⟩
    (Token.scan "1d6x=3" = .ok (head ++ k :: tail) ∧ Modifier.bangs? k.lexeme = some ("!", .bang) ∧
      Comes (.level .choice) (.start (head ++ k :: tail)) .diceModifier ⟨head.reverse, k :: tail⟩ ∧
      respell "1d6x=3" k "!" = "1d6!=3") ∧
    ∀ p ∈ [("1d6x=3", "1d6!=3"), ("1d6x==3", "1d6!==3"), ("1d6x!=3", "1d6!!=3"), ("1d!x", "1d!!"), ("1d!cx", "1d!!!")],
      ∃ e, ofText p.1 = .ok e ∧ ∀ e', ofText p.2 = .ok e' → e'.unplaced ≠ e.unplaced := by
  intro head tail k
  have hcount : Stops (.read (.level .sign)) (.start (head ++ k :: tail)) _ :=
    (advances_level .sign).stops _ 6 (by decide)
  have hfaces : Stops (.read (.call false)) ⟨head.reverse.tail, head.drop 2 ++ k :: tail⟩ _ :=
    (advances_call false).stops _ 6 (by decide)
  have hdice := comes_dice (.start (head ++ k :: tail))
  refine ⟨⟨by decide +kernel, rfl, ?_, by decide +kernel⟩, ?_⟩
  · exact ComesToFaces.diceModifier
      ⟨hdice.tail (.next hcount (.here ..)), .andThen (.step .current _) (.give ..), hfaces⟩ rfl
  · simp only [List.forall_mem_cons]
    refine ⟨?_, ?_, ?_, ?_, ?_, List.forall_mem_nil _⟩ <;> exact ne_of_prefixTexts (by decide +kernel)

end Expr

end DiceNotation
