import DiceNotation.Proofs.Tiling
import DiceNotation.Proofs.Columns
import Mathlib.Data.List.Forall2

/-!
The layout of a text: where its blanks stand.

A text is laid out anew when its tokens stay in their order, some blanks stand between neighbours, and any number of
them at both ends. No token has a blank in it, so a blank ends a token, however much further it could go otherwise,
and the new text has the same tokens in other columns. From there on columns matter no more, but for the place that a
failure tells.

Main statement: `Form.layout_irrelevant`.
-/

namespace DiceNotation

namespace Token

variable {cs rest text blanks : List Char} {column : Nat}
  {ts tokens tokens' : List Token}

/-! ### Blanks end tokens -/

/-- The text is at its end or goes on with a blank. -/
def Parted (rest : List Char) : Prop := ∀ c cs, rest = c :: cs → isSpace c = true

/-- No token goes on over a blank. -/
theorem longest_of_parted (hrest : Parted rest) : Longest text (text ++ rest) := by
  intro other kind v hother hprefix
  by_contra hlt
  obtain ⟨more, rfl⟩ := List.prefix_of_prefix_length_le (List.prefix_append text rest) hprefix (by omega)
  cases more with
  | nil => exact hlt (by rw [List.append_nil])
  | cons d ds =>
    obtain ⟨cs, hcs⟩ := (List.prefix_append_right_inj text).1 hprefix
    have hblank := hother.isSpace_eq_false (List.mem_append_right text List.mem_cons_self)
    rw [hrest d (ds ++ cs) hcs.symm] at hblank
    cases hblank

/-! ### Layouts -/

/-- The text is made of the lexemes of the tokens in their order, with blanks between neighbours and perhaps around
them. -/
inductive LaidOut : List Token → List Char → Prop where
  | nil {blanks : List Char} (hblanks : ∀ c ∈ blanks, isSpace c = true) : LaidOut [] blanks
  | cons {t : Token} {ts : List Token} {blanks rest : List Char} (hblanks : ∀ c ∈ blanks, isSpace c = true)
      (hgap : ts ≠ [] → ∃ c cs, rest = c :: cs ∧ isSpace c = true) (h : LaidOut ts rest) :
      LaidOut (t :: ts) (blanks ++ (t.lexeme.toList ++ rest))

theorem LaidOut.parted (hgap : ts ≠ [] → ∃ c cs, rest = c :: cs ∧ isSpace c = true) (h : LaidOut ts rest) :
    Parted rest := by
  rintro d ds rfl
  cases ts with
  | nil => cases h with | nil hblanks => exact hblanks d List.mem_cons_self
  | cons t ts =>
    obtain ⟨c, cs, hrest, hc⟩ := hgap (List.cons_ne_nil t ts)
    rw [(List.cons.inj hrest).1]
    exact hc

/-! ### Scanning -/

theorem scanFrom_blanks (hblanks : ∀ c ∈ blanks, isSpace c = true) (column : Nat) (rest : List Char) :
    scanFrom column (blanks ++ rest) = scanFrom (column + blanks.length) rest := by
  induction blanks generalizing column with
  | nil => rfl
  | cons c blanks ih =>
    obtain ⟨hc, hblanks⟩ := List.forall_mem_cons.1 hblanks
    rw [List.cons_append, scanFrom, if_pos hc, ih hblanks, List.length_cons, Nat.add_assoc, Nat.add_comm 1]

/-- Two tokens that differ in nothing but their columns. -/
def SameText (t t' : Token) : Prop := t'.kind = t.kind ∧ t'.lexeme = t.lexeme ∧ t'.literal? = t.literal?

theorem sameText_of_eq {t t' : Token} (hkind : t'.kind = t.kind) (hlexeme : t'.lexeme = t.lexeme) : SameText t t' := by
  obtain ⟨kind, lexeme, column⟩ := t
  obtain ⟨kind', lexeme', column'⟩ := t'
  obtain rfl : kind' = kind := hkind
  obtain rfl : lexeme' = lexeme := hlexeme
  exact ⟨rfl, rfl, rfl⟩

/-- A text in another layout has the same tokens, by induction on the layout. -/
theorem scanFrom_of_laidOut (h : LaidOut ts cs) (hts : ∀ t ∈ ts, Lexeme t.lexeme.toList t.kind t.literal?)
    (column last : Nat) : ∃ tokens', scanFrom column cs = .ok tokens' ∧
      List.Forall₂ SameText (ts ++ [endAt last]) tokens' := by
  induction h generalizing column with
  | @nil blanks hblanks =>
    refine ⟨[endAt (column + blanks.length)], ?_, .cons (sameText_of_eq rfl rfl) .nil⟩
    have hscan := scanFrom_blanks hblanks column []
    rwa [List.append_nil, scanFrom] at hscan
  | @cons t ts blanks rest hblanks hgap h ih =>
    obtain ⟨ht, hts⟩ := List.forall_mem_cons.1 hts
    obtain ⟨later, hlater, hsame⟩ := ih hts (column + blanks.length + t.lexeme.toList.length)
    have hscan := scanFrom_lexeme ht (longest_of_parted (h.parted hgap)) hlater
    rw [← scanFrom_blanks hblanks, String.ofList_toList] at hscan
    exact ⟨_, hscan, .cons (sameText_of_eq rfl rfl) hsame⟩

theorem scan_of_laidOut {source source' : String} (hscan : scan source = .ok tokens)
    (hlaid : LaidOut tokens.dropLast source'.toList) :
    ∃ tokens', scan source' = .ok tokens' ∧ List.Forall₂ SameText tokens tokens' := by
  obtain ⟨ts, rfl, -, htiles⟩ := scan_tiles hscan
  rw [List.dropLast_concat] at hlaid
  exact scanFrom_of_laidOut hlaid htiles.lexeme 1 _

/-! ### Columns -/

theorem column_pos_of_scan {source : String} (h : scan source = .ok tokens) {t : Token} (ht : t ∈ tokens) :
    0 < t.column := by
  obtain ⟨ts, rfl, -, htiles⟩ := scan_tiles h
  rcases List.mem_append.1 ht with ht | ht
  · exact htiles.first_le ht
  · rw [List.mem_singleton.1 ht]
    exact Nat.succ_pos _

theorem SameText.unplaced_eq {t t' : Token} (h : SameText t t') (ht : 0 < t.column) (ht' : 0 < t'.column) :
    t'.unplaced = t.unplaced := by
  obtain ⟨kind, lexeme, column⟩ := t
  obtain ⟨kind', lexeme', column'⟩ := t'
  obtain ⟨hkind, hlexeme, -⟩ := h
  obtain rfl : kind' = kind := hkind
  obtain rfl : lexeme' = lexeme := hlexeme
  have hone : min column' 1 = min column 1 := by
    rw [Nat.min_eq_right ht, Nat.min_eq_right ht']
  exact congrArg (Token.mk kind' lexeme') hone

theorem map_unplaced_eq (h : List.Forall₂ SameText tokens tokens') (hpos : ∀ t ∈ tokens, 0 < t.column)
    (hpos' : ∀ t ∈ tokens', 0 < t.column) : tokens'.map unplaced = tokens.map unplaced := by
  induction h with
  | nil => rfl
  | cons hsame _ ih =>
    obtain ⟨ht, hts⟩ := List.forall_mem_cons.1 hpos
    obtain ⟨ht', hts'⟩ := List.forall_mem_cons.1 hpos'
    rw [List.map_cons, List.map_cons, hsame.unplaced_eq ht ht', ih hts hts']

end Token

/-! ### Readings -/

/-- Two expressions that differ in nothing but the columns of their operators, and do the same: on every sheet they
are printed alike, and their evaluations do the same to the table and give the same, up to the columns of failures. -/
structure Expr.Same (e e' : Expr) : Prop where
  expr : e'.unplaced = e.unplaced
  prefixText : ∀ sheet context, e'.prefixText sheet context = e.prefixText sheet context
  rolledText : ∀ sheet, e'.rolledText sheet = e.rolledText sheet
  table : ∀ sheet setting script,
    (Form.evaluate ⟨e', sheet⟩ setting script).2 = (Form.evaluate ⟨e, sheet⟩ setting script).2
  outcome : ∀ sheet setting script, (Form.evaluate ⟨e', sheet⟩ setting script).1.mapError Failure.unplaced =
    (Form.evaluate ⟨e, sheet⟩ setting script).1.mapError Failure.unplaced

theorem Expr.same_of_unplaced_eq {e e' : Expr} (h : e'.unplaced = e.unplaced) : e.Same e' where
  expr := h
  prefixText sheet context := by rw [← e'.prefixText_unplaced, h, e.prefixText_unplaced]
  rolledText sheet := by rw [← e'.rolledText_unplaced, h, e.rolledText_unplaced]
  table sheet setting script := by
    have hbefore := (e'.evaluate_unplaced setting ⟨sheet, script, []⟩).1
    rw [h] at hbefore
    exact hbefore.trans (e.evaluate_unplaced setting ⟨sheet, script, []⟩).1.symm
  outcome sheet setting script := by
    have hbefore := (e'.evaluate_unplaced setting ⟨sheet, script, []⟩).2
    rw [h] at hbefore
    exact hbefore.trans (e.evaluate_unplaced setting ⟨sheet, script, []⟩).2.symm

/-- Two texts are read as the same expression, or refused for the same cause at the same token, up to columns. -/
inductive SameReading : Except ReadError Form → Except ReadError Form → Prop where
  | form {e e' : Expr} (h : e.Same e') : SameReading (.ok { expr := e }) (.ok { expr := e' })
  | refused {e e' : ParseError} (hcause : e'.cause = e.cause) (htoken : e.token.SameText e'.token) :
    SameReading (.error (.parse e)) (.error (.parse e'))

theorem sameReading_of_map_unplaced_eq {source source' : String} {tokens tokens' : List Token}
    (hscan : Token.scan source = .ok tokens) (hscan' : Token.scan source' = .ok tokens')
    (h : tokens'.map Token.unplaced = tokens.map Token.unplaced) :
    SameReading (Form.ofText source) (Form.ofText source') := by
  have hread := Expr.ofTokens_unplaced tokens'
  rw [h, Expr.ofTokens_unplaced tokens] at hread
  simp only [Form.ofText, Expr.ofText, hscan, hscan']
  cases hp : Expr.ofTokens tokens with
  | error e =>
    cases hp' : Expr.ofTokens tokens' with
    | error e' =>
      rw [hp, hp'] at hread
      have he : e.unplaced = e'.unplaced := Except.error.inj hread
      exact .refused (congrArg ParseError.cause he).symm (Token.sameText_of_eq
        (congrArg (·.token.kind) he).symm (congrArg (·.token.lexeme) he).symm)
    | ok e' => rw [hp, hp'] at hread; cases hread
  | ok e =>
    cases hp' : Expr.ofTokens tokens' with
    | error e' => rw [hp, hp'] at hread; cases hread
    | ok e' =>
      rw [hp, hp'] at hread
      have he : e.unplaced = e'.unplaced := Except.ok.inj hread
      exact .form (Expr.same_of_unplaced_eq he.symm)

/-- **Layout does not matter.** A text in another layout has tokens of the same classes with the same lexemes and
literals, and what it is read as is the same up to columns: an expression that is printed alike and does the same at
every table, or an error with the same cause at the same token. -/
theorem Form.layout_irrelevant {source source' : String} {tokens : List Token} (hscan : Token.scan source = .ok tokens)
    (hlaid : Token.LaidOut tokens.dropLast source'.toList) :
    (∃ tokens', Token.scan source' = .ok tokens' ∧ List.Forall₂ Token.SameText tokens tokens') ∧
      SameReading (Form.ofText source) (Form.ofText source') := by
  obtain ⟨tokens', hscan', hsame⟩ := Token.scan_of_laidOut hscan hlaid
  have hcolumns := Token.map_unplaced_eq hsame (fun _ => Token.column_pos_of_scan hscan)
    fun _ => Token.column_pos_of_scan hscan'
  exact ⟨⟨tokens', hscan', hsame⟩, sameReading_of_map_unplaced_eq hscan hscan' hcolumns⟩

theorem Form.layout_irrelevant_spread :
    let tokens : List Token := [⟨.number, "2", 1⟩, ⟨.name, "d", 2⟩, ⟨.number, "6", 3⟩, ⟨.plus, "+", 4⟩,
      ⟨.trueWord, "true", 5⟩, Token.endAt 9]
    let source' := "2\t d 6\r+ true "
    Token.scan "2d6+true" = .ok tokens ∧ Token.LaidOut tokens.dropLast source'.toList ∧
      (∃ tokens', Token.scan source' = .ok tokens' ∧ List.Forall₂ Token.SameText tokens tokens') ∧
      SameReading (Form.ofText "2d6+true") (Form.ofText source') := by
  intro tokens source'
  have hscan : Token.scan "2d6+true" = .ok tokens := by decide +kernel
  have hsource : source'.toList = [] ++ ("2".toList ++ (['\t', ' '] ++ ("d".toList ++ ([' '] ++ ("6".toList ++
      (['\r'] ++ ("+".toList ++ ([' '] ++ ("true".toList ++ [' ']))))))))) := by decide +kernel
  have hlaid : Token.LaidOut tokens.dropLast source'.toList := by
    rw [hsource]
    refine .cons ?_ ?_ (.cons ?_ ?_ (.cons ?_ ?_ (.cons ?_ ?_ (.cons ?_ ?_ (.nil ?_)))))
    all_goals simp [Token.isSpace]
  exact ⟨hscan, hlaid, Form.layout_irrelevant hscan hlaid⟩

end DiceNotation
