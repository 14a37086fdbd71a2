import DiceNotation.Proofs.Replay
import DiceNotation.Proofs.Wholes

/-!
The rolls that are shown say what dice come to.

A roll is kept twice: as the list of its entries, which is shown, and as its result, which the expression goes on with.
Every way of rolling keeps the two in step. So the result can be told from the entries alone, and their number from the
number of dice: one for each, and under `x` one more for each entry that hits.

Main statement: `Expr.evaluate_dice_shown`.
-/

namespace DiceNotation

open Number

/-- A face compares as the number that is recorded for it. -/
theorem Comparison.test_ofNat (c : Comparison) {face : Nat} (h : face ≤ exactBound) (target : Number) :
    c.test (Number.ofNat face) target = c.testFace face target := by
  cases c <;> simp only [test, testFace, compare?_ofNat h]

/-! ### The faces that are used -/

section Uses

variable {hit : Nat → Bool} {count : Nat} {shown used : List Nat}

theorem exists_uses_of_complete (h : (reroll hit count shown).complete = true) :
    ∃ used rest, shown = used ++ rest ∧ Uses hit count used := by
  have hmisses : count ≤ misses hit shown := by
    refine Nat.le_of_not_lt fun hlt => ?_
    rw [(reroll_short hlt).2] at h
    cases h
  obtain ⟨used, ⟨rest, hrest⟩, huses⟩ := exists_uses hmisses
  exact ⟨used, rest, hrest.symm, huses⟩

theorem length_missing (hit : Nat → Bool) (faces : List Nat) : (missing hit faces).length = misses hit faces :=
  List.countP_eq_length_filter.symm

theorem length_eq_misses_add (hit : Nat → Bool) (faces : List Nat) :
    faces.length = misses hit faces + faces.countP hit := by
  rw [List.length_eq_countP_add_countP hit, Nat.add_comm]
  congr 2
  funext face
  cases hit face <;> rfl

theorem IsChain.misses_eq {chain : List Nat} (h : IsChain hit chain) : misses hit chain = 1 := by
  obtain ⟨hits, miss, rfl, hhits, hmiss⟩ := h
  have : misses hit hits = 0 := List.countP_eq_zero.2 fun face hface => by simp [hhits face hface]
  rw [misses, List.countP_append, ← misses, this, List.countP_singleton, hmiss]
  rfl

theorem length_chains {chains : List (List Nat)} (h : ∀ chain ∈ chains, IsChain hit chain) :
    chains.length = misses hit chains.flatten := by
  induction chains with
  | nil => rfl
  | cons chain chains ih =>
    obtain ⟨hchain, hchains⟩ := List.forall_mem_cons.1 h
    rw [List.flatten_cons, misses, List.countP_append, ← misses, ← misses, hchain.misses_eq, ← ih hchains,
      List.length_cons, Nat.add_comm]

end Uses

/-! ### What is taken from the faces -/

/-- What dice take from the faces under a modifier, in whole numbers. -/
def Modifier.taken (m : Modifier) (hit : Nat → Bool) (count : Nat) (shown : List Nat) : Taken Nat :=
  match m with
  | .reroll => DiceNotation.reroll hit count shown
  | .explode => DiceNotation.explode hit count shown
  | .compoundExplode => compound hit id (· + ·) none count shown
  | _ => rollPlain count shown

section Taken

variable {m : Modifier} {hit : Nat → Bool} {count : Nat} {shown : List Nat}

theorem running?_eq_faceSum {chain : List Nat} (h : IsChain hit chain) :
    running? id (· + ·) chain = some (faceSum chain) := by
  obtain ⟨hits, miss, rfl, -⟩ := h
  cases hits with
  | nil => exact congrArg some (Nat.zero_add miss).symm
  | cons face hits => rw [List.cons_append, running?, foldl_add_eq, faceSum_cons]; rfl

/-- Under `cx` the sums of the chains are taken. -/
theorem values_taken_compound (h : (Modifier.compoundExplode.taken hit count shown).complete = true) :
    ∃ chains : List (List Nat), chains.flatten <+: shown ∧ Uses hit count chains.flatten ∧
      (∀ chain ∈ chains, IsChain hit chain) ∧
        (Modifier.compoundExplode.taken hit count shown).values = chains.map faceSum := by
  obtain ⟨used, rest, rfl, huses⟩ :=
    exists_uses_of_complete ((compound_alike id (· + ·) none hit count shown).2.symm.trans h)
  obtain ⟨chains, rfl, hall, hvalues⟩ := values_compound id (· + ·) huses rest [] (fun _ => rfl) (List.forall_mem_nil _)
  refine ⟨chains, List.prefix_append _ _, huses, hall, List.map_injective_iff.2 (Option.some_injective Nat) ?_⟩
  rw [List.map_map]
  exact hvalues.trans (List.map_congr_left fun chain hc => running?_eq_faceSum (hall chain hc))

/-- There is an entry for each die, and under `x` one for each entry that hits. -/
theorem length_taken (h : (m.taken hit count shown).complete = true) :
    (m.taken hit count shown).values.length =
      count + if m = .explode then (m.taken hit count shown).values.countP hit else 0 := by
  have plain : (rollPlain count shown).complete = true → (rollPlain count shown).values.length = count := by
    rw [rollPlain_eq, decide_eq_true_iff]
    exact List.length_take_of_le
  cases m with
  | reroll =>
    obtain ⟨used, rest, rfl, huses⟩ := exists_uses_of_complete h
    show (DiceNotation.reroll hit count (used ++ rest)).values.length = count
    rw [reroll_append huses, length_missing, huses.misses_eq]
  | explode =>
    obtain ⟨used, rest, rfl, huses⟩ := exists_uses_of_complete ((explode_alike hit count shown).2.symm.trans h)
    rw [if_pos rfl, Modifier.taken, values_explode huses, length_eq_misses_add hit, huses.misses_eq]
  | compoundExplode =>
    obtain ⟨chains, -, huses, hall, hvalues⟩ := values_taken_compound h
    rw [hvalues, List.length_map, length_chains hall, huses.misses_eq]
    rfl
  | _ => exact plain h

/-- But for `cx` the entries are faces. -/
theorem mem_taken (h : (m.taken hit count shown).complete = true) (hm : m ≠ .compoundExplode) {n : Nat}
    (hn : n ∈ (m.taken hit count shown).values) : n ∈ shown := by
  have plain : n ∈ (rollPlain count shown).values → n ∈ shown := by
    rw [rollPlain_eq]
    exact List.mem_of_mem_take
  cases m with
  | reroll =>
    obtain ⟨used, rest, rfl, huses⟩ := exists_uses_of_complete h
    rw [Modifier.taken, reroll_append huses] at hn
    exact List.mem_append_left _ (List.mem_of_mem_filter hn)
  | explode =>
    obtain ⟨used, rest, rfl, huses⟩ := exists_uses_of_complete ((explode_alike hit count shown).2.symm.trans h)
    rw [Modifier.taken, values_explode huses] at hn
    exact List.mem_append_left _ hn
  | compoundExplode => exact absurd rfl hm
  | _ => exact plain hn

/-- Faces from one on make entries from one on. -/
theorem pos_taken (h : (m.taken hit count shown).complete = true) (hshown : ∀ face ∈ shown, 0 < face) :
    ∀ n ∈ (m.taken hit count shown).values, 0 < n := by
  intro n hn
  by_cases hm : m = .compoundExplode
  · subst hm
    obtain ⟨chains, hp, -, hall, hvalues⟩ := values_taken_compound h
    rw [hvalues] at hn
    obtain ⟨chain, hchain, rfl⟩ := List.mem_map.1 hn
    obtain ⟨hits, miss, rfl, -⟩ := hall chain hchain
    have := hshown miss (hp.subset (List.mem_flatten.2 ⟨_, hchain, by simp⟩))
    rw [faceSum_append, faceSum_cons]
    omega
  · exact hshown n (mem_taken h hm hn)

/-- Dice that are not there take nothing. -/
theorem taken_zero (m : Modifier) (hit : Nat → Bool) (shown : List Nat) : m.taken hit 0 shown = .nothing true := by
  cases m <;> cases shown <;> rfl

end Taken

/-! ### Sums of chains as numbers -/

section Compound

variable {hit : Nat → Bool} {count : Nat} {shown : List Nat}

/-- A chain that was begun is among the sums at last. -/
theorem le_faceSum_compound {start : Nat}
    (h : (compound hit id (· + ·) (some start) (count + 1) shown).complete = true) :
    start ≤ faceSum (compound hit id (· + ·) (some start) (count + 1) shown).values := by
  induction shown generalizing start with
  | nil => cases h
  | cons face shown ih =>
    rw [compound_cons] at h ⊢
    by_cases hf : hit face
    · rw [if_pos hf] at h ⊢
      exact Nat.le_trans (Nat.le_add_right start face) (ih h)
    · rw [if_neg hf]
      show start ≤ faceSum ((start + face) :: _)
      rw [faceSum_cons]
      omega

/-- Sums of chains made from images of numbers are the images of the sums, as far as adding goes along with them. -/
theorem compound_map {α : Type} (f : Nat → α) (add : α → Nat → α) {bound : Nat}
    (hadd : ∀ m n, m + n ≤ bound → add (f m) n = f (m + n)) (start? : Option Nat)
    (h : (compound hit id (· + ·) start? count shown).complete = true)
    (hbound : faceSum (compound hit id (· + ·) start? count shown).values ≤ bound) :
    compound hit f add (start?.map f) count shown = (compound hit id (· + ·) start? count shown).map f := by
  induction shown generalizing start? count with
  | nil => cases count <;> rfl
  | cons face shown ih =>
    cases count with
    | zero => rfl
    | succ count =>
      have hextend (hsum : extend id (· + ·) start? face ≤ bound) :
          extend f add (start?.map f) face = f (extend id (· + ·) start? face) := by
        cases start? with
        | none => rfl
        | some start => exact hadd start face hsum
      rw [compound_cons] at h hbound
      rw [compound_cons, compound_cons]
      by_cases hf : hit face
      · rw [if_pos hf] at h hbound ⊢
        rw [if_pos hf, hextend (Nat.le_trans (le_faceSum_compound h) hbound)]
        exact congrArg Taken.skip (ih (some _) h hbound)
      · rw [if_neg hf] at h hbound ⊢
        simp only [Taken.push, faceSum_cons] at hbound
        rw [if_neg hf, hextend (by omega)]
        exact congrArg (Taken.push _) (ih none h (by omega))

/-- Up to the bound the sums of chains are made without rounding. -/
theorem compound_ofNat (h : (compound hit id (· + ·) none count shown).complete = true)
    (hbound : faceSum (compound hit id (· + ·) none count shown).values ≤ exactBound) :
    compound hit Number.ofNat (fun x face => x.add (.ofNat face)) none count shown =
      (compound hit id (· + ·) none count shown).map Number.ofNat := by
  have hadd (m n : Nat) (hsum : m + n ≤ exactBound) : (Number.ofNat m).add (.ofNat n) = .ofNat (m + n) :=
    ofNat_add (by omega) (by omega)
  exact compound_map Number.ofNat (fun x face => x.add (.ofNat face)) hadd none h hbound

end Compound

/-! ### Rolls -/

theorem le_faceSum {n : Nat} {faces : List Nat} (h : n ∈ faces) : n ≤ faceSum faces := by
  induction h with
  | head => simp
  | tail _ _ ih => exact Nat.le_trans ih (by simp)

theorem length_le_faceSum {faces : List Nat} (h : ∀ n ∈ faces, 0 < n) : faces.length ≤ faceSum faces := by
  induction faces with
  | nil => exact Nat.le_refl 0
  | cons face faces ih =>
    obtain ⟨hface, hfaces⟩ := List.forall_mem_cons.1 h
    have := ih hfaces
    rw [List.length_cons, faceSum_cons]
    omega

theorem faceSum_le_mul {sides : Nat} {faces : List Nat} (h : ∀ n ∈ faces, n ≤ sides) :
    faceSum faces ≤ faces.length * sides := by
  induction faces with
  | nil => exact Nat.zero_le _
  | cons face faces ih =>
    obtain ⟨hface, hfaces⟩ := List.forall_mem_cons.1 h
    have := ih hfaces
    rw [List.length_cons, faceSum_cons, Nat.succ_mul]
    omega

theorem countSuccesses_map_ofNat (c : Comparison) (target : Number) {faces : List Nat}
    (h : ∀ n ∈ faces, n ≤ exactBound) :
    countSuccesses c target (faces.map Number.ofNat) = countFaces c target faces := by
  rw [countSuccesses, List.countP_map]
  exact List.countP_congr fun n hn => by rw [Function.comp_apply, c.test_ofNat (h n hn)]

theorem margin_eq (c : Comparison) (total target : Number) :
    margin c total target = if c = .less ∨ c = .lessEqual then target.sub total else total.sub target := by
  cases c <;> rfl

/-- The result of dice, as it is read off the entries shown. -/
def Modifier.ReadsOff (m : Modifier) (c : Comparison) (target : Number) (rolls : List Number) (x : Number) : Prop :=
  match m with
  | .plain | .reroll | .explode | .compoundExplode => x = sum rolls
  | .countSuccesses => x = .ofNat (DiceNotation.countSuccesses c target rolls)
  | .marginOfSuccess => x = if c = .less ∨ c = .lessEqual then target.sub (sum rolls) else (sum rolls).sub target
  | .select s => s.score rolls target = .ok x

namespace Play

section Rolls

variable {modifier : Modifier} {c : Comparison} {target x : Number} {count faces : Nat} {shown : List Nat}

theorem ok_of_whole {taken : Taken Nat} {score : List Nat → Except Failure Number}
    (h : (Roll.whole faces taken score).outcome = .ok x) :
    taken.complete = true ∧ (Roll.whole faces taken score).recorded = taken.values.map .ofNat ∧
      score taken.values = .ok x := by
  unfold Roll.whole at h ⊢
  split at h
  next hc => exact ⟨hc, by rw [if_pos hc], h⟩
  next => cases h

theorem ok_of_running {taken : Taken Number} (h : (Roll.running faces taken).outcome = .ok x) :
    taken.complete = true ∧ x = sum taken.values := by
  unfold Roll.running at h
  split at h
  next hc => exact ⟨hc, (Except.ok.inj h).symm⟩
  next => cases h

theorem ok_of_total {fs : List Nat} (h : total fs = .ok x) : x = .ofNat (faceSum fs) := by
  unfold total at h
  generalize hsum : Number.ofInt? (fs.foldl (· + ·) 0 : Nat) = sum? at h
  cases sum? with
  | none => cases h
  | some y =>
    cases h
    simp only [Number.ofInt?] at hsum
    split at hsum
    next => exact (Option.some.inj hsum).symm
    next => cases hsum

theorem used_roll (modifier : Modifier) (c : Comparison) (target : Number) (count faces : Nat) (shown : List Nat) :
    (roll modifier c target count faces shown).used = (modifier.taken (c.testFace · target) count shown).used := by
  have whole (taken : Taken Nat) (score : List Nat → Except Failure Number) :
      (Roll.whole faces taken score).used = taken.used := by
    unfold Roll.whole
    split <;> rfl
  cases modifier with
  | reroll => rfl
  | explode => rfl
  | compoundExplode =>
    have hnumbers := compound_alike Number.ofNat (fun x face => x.add (.ofNat face)) none (c.testFace · target) count
      shown
    simp only [roll, Roll.running, Modifier.taken]
    rw [hnumbers.1, (compound_alike id (· + ·) none (c.testFace · target) count shown).1]
  | _ => simp only [roll, Modifier.taken, whole]

/-- A roll that has a result records what it took, and the result is read off these entries. -/
theorem roll_readsOff (h : (roll modifier c target count faces shown).outcome = .ok x)
    (hbound : faceSum (modifier.taken (c.testFace · target) count shown).values ≤ exactBound) :
    (modifier.taken (c.testFace · target) count shown).complete = true ∧
      (roll modifier c target count faces shown).recorded =
        (modifier.taken (c.testFace · target) count shown).values.map .ofNat ∧
      modifier.ReadsOff c target ((modifier.taken (c.testFace · target) count shown).values.map .ofNat) x := by
  cases modifier with
  | plain =>
    simp only [roll, Modifier.taken] at h hbound ⊢
    obtain ⟨hcomplete, hrecorded, hscore⟩ := ok_of_whole h
    exact ⟨hcomplete, hrecorded, (ok_of_total hscore).trans (sum_map_ofNat hbound).symm⟩
  | reroll =>
    obtain ⟨hcomplete, hx⟩ := ok_of_running h
    exact ⟨hcomplete, rfl, hx⟩
  | explode =>
    obtain ⟨hcomplete, hx⟩ := ok_of_running h
    exact ⟨hcomplete, rfl, hx⟩
  | compoundExplode =>
    have hnumbers := compound_alike Number.ofNat (fun x face => x.add (.ofNat face)) none (c.testFace · target) count
      shown
    have hfaces := compound_alike id (· + ·) none (c.testFace · target) count shown
    simp only [roll, Modifier.taken] at h hbound ⊢
    obtain ⟨hrunning, hx⟩ := ok_of_running h
    have hcomplete := hfaces.2.trans (hnumbers.2.symm.trans hrunning)
    have hsums := congrArg Taken.values (compound_ofNat hcomplete hbound)
    exact ⟨hcomplete, hsums, hx.trans (congrArg sum hsums)⟩
  | countSuccesses =>
    simp only [roll, Modifier.taken] at h hbound ⊢
    obtain ⟨hcomplete, hrecorded, hscore⟩ := ok_of_whole h
    refine ⟨hcomplete, hrecorded, ?_⟩
    simp only [Modifier.ReadsOff]
    rw [countSuccesses_map_ofNat c target fun n hn => Nat.le_trans (le_faceSum hn) hbound]
    exact (Except.ok.inj hscore).symm
  | marginOfSuccess =>
    simp only [roll, Modifier.taken] at h hbound ⊢
    obtain ⟨hcomplete, hrecorded, hscore⟩ := ok_of_whole h
    refine ⟨hcomplete, hrecorded, ?_⟩
    generalize htotal : total (rollPlain count shown).values = sum? at hscore
    cases sum? with
    | error failure => cases hscore
    | ok y =>
      cases hscore
      simp only [Modifier.ReadsOff]
      rw [ok_of_total htotal, sum_map_ofNat hbound, margin_eq]
  | select s =>
    simp only [roll, Modifier.taken] at h hbound ⊢
    obtain ⟨hcomplete, hrecorded, hscore⟩ := ok_of_whole h
    refine ⟨hcomplete, hrecorded, ?_⟩
    split at hscore
    next y hy => cases hscore; exact hy
    next => cases hscore

end Rolls

/-! ### Operands -/

section Operands

variable {modifier : Modifier} {o : Operands} {t u : Table}

/-- Where the operands of dice have their values, dice that are there have a face. -/
theorem faces_of_operands {count faces target : Play (Option Value)}
    (h : (operands modifier count faces target).on t = (.ok o, u)) (hcount : 0 < o.count) : 1 ≤ o.faces := by
  obtain ⟨n, t₁, -, h⟩ := on_bind_eq_ok h
  obtain ⟨f, t₂, -, h⟩ := on_bind_eq_ok h
  obtain ⟨_, t₃, hr, h⟩ := on_bind_eq_ok h
  obtain ⟨x, t₄, -, h⟩ := on_bind_eq_ok h
  cases h
  have hr := (on_lift_eq_ok hr).1
  unfold requireFaces at hr
  split at hr
  next => cases hr
  next hnot => exact Int.not_lt.1 fun hlt => hnot ⟨hcount, hlt⟩

theorem on_wholeOperand {x : Number} {n : Int} (role : Role) (what : String) (h : x.round? = some n) :
    (wholeOperand role what (pure (some (.number x)))).on t = (.ok n, t) := by
  show (lift (requireFinite what x)).on t = _
  rw [on_lift, requireFinite, h]
  rfl

/-- The operands of dice that are literals. -/
theorem on_operands_numbers {x y z : Number} {n f : Int} (hm : modifier ≠ .plain) (hx : x.round? = some n)
    (hy : y.round? = some f) (hf : 1 ≤ f) :
    (operands modifier (pure (some (.number x))) (pure (some (.number y))) (pure (some (.number z)))).on t =
      (.ok ⟨n, f, z⟩, t) := by
  have hr : requireFaces n f = .ok () := if_neg fun h => absurd h.2 (Int.not_lt.2 hf)
  rw [operands, on_bind_ok (on_wholeOperand _ _ hx), on_bind_ok (on_wholeOperand _ _ hy),
    on_bind_ok (by rw [hr]; rfl), targetNumber_of_ne hm]
  rfl

end Operands

end Play

/-! ### Dice -/

open Play

/-- What dice show and what they come to are in step. The operands are `o`, the entries shown are `rolls`, with the
values `entries`, the faces called are `asked`, and `x` is the result. -/
structure InStep (m : Modifier) (c : Comparison) (o : Operands) (rolls : List Number) (entries asked : List Nat)
    (x : Number) : Prop where
  /-- Every entry is a whole number. -/
  wholes : Wholes rolls (entries.map Int.ofNat)
  length_eq : rolls.length = o.count.toNat + if m = .explode then countSuccesses c o.target rolls else 0
  asked_eq : ∀ faces ∈ asked, (faces : Int) = o.faces
  pos : ∀ n ∈ entries, 1 ≤ n
  le : m ≠ .compoundExplode → ∀ n ∈ entries, (n : Int) ≤ o.faces
  readsOff : m.ReadsOff c o.target rolls x
  /-- The sum of the entries and the number of those that match are exact. -/
  sum_eq : (sum rolls).toInt? = some (faceSum entries : Int)
  count_eq : (Number.ofNat (countSuccesses c o.target rolls)).toInt? = some (countSuccesses c o.target rolls : Int)
  between : m = .plain → 0 ≤ o.count → ∃ total, x.toInt? = some total ∧ o.count ≤ total ∧ total ≤ o.count * o.faces

section InStep

variable {m : Modifier} {c : Comparison} {o : Operands} {script : List Int} {x : Number}

/-- A roll that has a result is in step. -/
theorem inStep_of_roll (hfaces : 0 < o.count → 1 ≤ o.faces)
    (h : (roll m c o.target o.count.toNat o.faces.toNat (script.map (faceOf o.faces.toNat))).outcome = .ok x) :
    let r := roll m c o.target o.count.toNat o.faces.toNat (script.map (faceOf o.faces.toNat))
    let taken := m.taken (c.testFace · o.target) o.count.toNat (script.map (faceOf o.faces.toNat))
    faceSum taken.values ≤ exactBound →
      InStep m c o r.recorded taken.values (List.replicate r.used o.faces.toNat) x := by
  intro r taken hbound
  obtain ⟨hcomplete, hrecorded, hread⟩ := roll_readsOff h hbound
  have hle : ∀ n ∈ taken.values, n ≤ exactBound := fun n hn => Nat.le_trans (le_faceSum hn) hbound
  have hlength : taken.values.length =
      o.count.toNat + if m = .explode then countFaces c o.target taken.values else 0 := length_taken hcomplete
  have hpos : ∀ n ∈ taken.values, 0 < n := pos_taken hcomplete fun face hface => by
    obtain ⟨entry, -, rfl⟩ := List.mem_map.1 hface
    exact faceOf_pos _ entry
  have hcount : countSuccesses c o.target r.recorded = countFaces c o.target taken.values := by
    rw [hrecorded, countSuccesses_map_ofNat c o.target hle]
  have hrecordedLength : r.recorded.length = taken.values.length := by rw [hrecorded, List.length_map]
  have hsum : sum r.recorded = Number.ofNat (faceSum taken.values) := by rw [hrecorded, sum_map_ofNat hbound]
  have hsides : o.count.toNat ≠ 0 → (o.faces.toNat : Int) = o.faces ∧ 0 < o.faces.toNat := fun hne => by
    have := hfaces (by omega)
    omega
  have hface : m ≠ .compoundExplode → ∀ n ∈ taken.values, (n : Int) ≤ o.faces := by
    intro hm n hn
    obtain ⟨entry, -, rfl⟩ := List.mem_map.1 (mem_taken hcomplete hm hn)
    have hne : o.count.toNat ≠ 0 := fun hzero => by
      simp only [taken, hzero, taken_zero] at hn
      cases hn
    have := faceOf_le (hsides hne).2 entry
    have := (hsides hne).1
    omega
  constructor
  case wholes => rw [hrecorded]; exact wholes_map_ofNat hle
  case length_eq => rw [hrecordedLength, hlength, hcount]
  case asked_eq =>
    intro faces hasked
    obtain ⟨hused, rfl⟩ := List.mem_replicate.1 hasked
    refine (hsides fun hzero => hused ?_).1
    rw [used_roll, hzero, taken_zero]
    rfl
  case pos => exact hpos
  case le => exact hface
  case readsOff => rwa [← hrecorded] at hread
  case sum_eq => rw [hsum]; exact toInt?_ofNat hbound
  case count_eq =>
    have := List.countP_le_length (p := fun y => c.test y o.target) (l := r.recorded)
    have := length_le_faceSum hpos
    refine toInt?_ofNat ?_
    unfold countSuccesses
    omega
  case between =>
    rintro rfl hcount
    have hx : x = sum r.recorded := by rwa [← hrecorded] at hread
    rw [if_neg nofun, Nat.add_zero] at hlength
    have hleast := length_le_faceSum hpos
    have hmost := faceSum_le_mul fun n hn => Int.toNat_le_toNat (hface nofun n hn)
    refine ⟨faceSum taken.values, by rw [hx, hsum]; exact toInt?_ofNat hbound, by omega, ?_⟩
    rw [hlength] at hmost
    have hcast : o.count * o.faces = (o.count.toNat * o.faces.toNat : Nat) := by
      rcases Nat.eq_zero_or_pos o.count.toNat with hzero | hpositive
      · rw [hzero, Nat.zero_mul, show o.count = 0 by omega, Int.zero_mul]
        rfl
      · rw [Int.natCast_mul, (hsides (by omega)).1, Int.toNat_of_nonneg hcount]
    rw [hcast]
    exact_mod_cast hmost

end InStep

namespace Expr

variable {setting : Setting} {slot : Slot} {count faces : Expr} {label : Option String} {modifier : Modifier}
  {comparison : Comparison} {target : Target Expr} {t t' : Table} {v : Option Value}

/-- **The result of dice is what the rolls shown say.** The dice have neither a result nor rolls at first, no dice
among their operands share their slot, and their evaluation has a value. Then their operands have values `o`, at a
table `u`, and where the exact sum of the entries is within the bound, entries and result are in step. -/
theorem evaluate_dice_shown (hslot : slot ∉ count.slots ++ (faces.slots ++ targetSlots target))
    (hopen : t.sheet.result slot = none) (hrolls : t.sheet.rolls slot = [])
    (h : ((Expr.dice slot count faces label modifier comparison target).evaluate setting).on t = (.ok v, t')) :
    ∃ o u x, (count.evaluateOperands setting faces modifier target).on t = (.ok o, u) ∧
      v = some (.number x) ∧ t'.sheet.result slot = some x ∧
      let taken := modifier.taken (comparison.testFace · o.target) o.count.toNat (u.script.map (faceOf o.faces.toNat))
      (faceSum taken.values ≤ exactBound → ∃ asked, t'.calls = u.calls ++ asked ∧
        InStep modifier comparison o (t'.sheet.rolls slot) taken.values asked x) := by
  have hvalue := h
  rw [evaluate_dice, on_bind, on_once_open hopen] at hvalue
  generalize hplay : (evaluateOperands setting count faces modifier target >>= fun o =>
    make slot o.faces.toNat (roll modifier comparison o.target o.count.toNat o.faces.toNat)).on t = r at hvalue
  obtain ⟨failure | x, t''⟩ := r
  · cases hvalue
  cases hvalue
  obtain ⟨o, u, ho, hmake⟩ := on_bind_eq_ok hplay
  -- the operands have left the slot of the dice as it was
  obtain ⟨-, hsame, hopen'⟩ :=
    ((evaluateOperands_orderly setting count faces modifier target).grows t).outside slot hslot
  rw [ho] at hsame hopen'
  refine ⟨o, u, x, ho, rfl, Replays.result_make hmake, fun hbound => ?_⟩
  generalize hrule : roll modifier comparison o.target o.count.toNat o.faces.toNat = rule at hmake
  have houtcome : (rule (u.script.map (faceOf o.faces.toNat))).outcome = .ok x := by
    have hfst : ((make slot o.faces.toNat rule).on u).1 = _ := fst_on_make
    rw [← hfst, hmake]
  have hcalls : ((make slot o.faces.toNat rule).on u).2.calls = _ := calls_on_make
  have hrecorded : ((make slot o.faces.toNat rule).on u).2.sheet.rolls slot = _ := rolls_on_make
  rw [hmake] at hcalls hrecorded
  rw [hsame, hrolls, List.nil_append] at hrecorded
  refine ⟨_, hcalls, ?_⟩
  rw [hrecorded]
  subst hrule
  exact inStep_of_roll (faces_of_operands ho) houtcome hbound

/-- Two dice that go on at sixes show a chain of three faces as one entry. -/
theorem evaluate_dice_shown_sixes :
    let literal (n : Nat) : Expr := .literal (some (.number (.ofNat n))) none
    let t : Table := ⟨.blank, [6, 6, 2, 5], []⟩
    let run := ((Expr.dice 1 (literal 2) (literal 6) none .compoundExplode .equal (.value (literal 6))).evaluate
      ⟨[], .standard⟩).on t
    1 ∉ (literal 2).slots ++ ((literal 6).slots ++ targetSlots (.value (literal 6))) ∧
      t.sheet.result 1 = none ∧ t.sheet.rolls 1 = [] ∧ run.1 = .ok (some (.number (.ofNat 19))) ∧
      InStep .compoundExplode .equal ⟨2, 6, .ofNat 6⟩ (run.2.sheet.rolls 1) [14, 5] [6, 6, 6, 6] (.ofNat 19) := by
  intro literal t run
  have hslot : 1 ∉ (literal 2).slots ++ ((literal 6).slots ++ targetSlots (.value (literal 6))) := by decide
  have hvalue : run.1 = .ok (some (.number (.ofNat 19))) := by
    refine eq_ok_of_toOption ?_
    decide +kernel
  have hcalled : run.2.calls = [6, 6, 6, 6] := by decide +kernel
  refine ⟨hslot, rfl, rfl, hvalue, ?_⟩
  have hrun : run = (.ok (some (.number (.ofNat 19))), run.2) := by rw [← hvalue]
  obtain ⟨o, u, x, ho, hx, -, hshown⟩ := evaluate_dice_shown hslot rfl rfl hrun
  obtain rfl : .ofNat 19 = x := Value.number.inj (Option.some.inj hx)
  have htwo : (Number.ofNat 2).round? = some 2 := by decide +kernel
  have hsix : (Number.ofNat 6).round? = some 6 := by decide +kernel
  have hoperands : ((literal 2).evaluateOperands ⟨[], .standard⟩ (literal 6) .compoundExplode
      (.value (literal 6))).on t = (.ok ⟨2, 6, .ofNat 6⟩, t) := on_operands_numbers (by decide) htwo hsix (by decide)
  obtain ⟨ho', rfl⟩ := Prod.mk.inj (ho.symm.trans hoperands)
  obtain rfl : o = ⟨2, 6, .ofNat 6⟩ := Except.ok.inj ho'
  have htaken : (Modifier.compoundExplode.taken (Comparison.equal.testFace · (.ofNat 6)) (2 : Int).toNat
      (t.script.map (faceOf (6 : Int).toNat))).values = [14, 5] := by decide +kernel
  have hbound : faceSum [14, 5] ≤ exactBound := by decide +kernel
  dsimp only at hshown
  rw [htaken] at hshown
  obtain ⟨asked, hasked, hstep⟩ := hshown hbound
  obtain rfl : asked = [6, 6, 6, 6] := hasked.symm.trans hcalled
  exact hstep

end Expr

end DiceNotation
