import DiceNotation.Proofs.Course
import DiceNotation.Proofs.Numerals

/-!
The modifiers that roll on while a die hits read the dice alike.

Under `r`, `x` and `cx` a die that hits is rolled again. So all three use the faces up to the one at which as many
have missed as there are dice, and they differ in what they record: the faces that miss, all faces, or the sum of each
chain, which is a face that misses with the hits before it.

Main statement: `Expr.evaluate_dice_alike`.
-/

namespace DiceNotation

/-! ### The faces that are used -/

/-- The modifiers under which a die that hits is rolled again. -/
def Modifier.rollingOn : List Modifier := [.reroll, .explode, .compoundExplode]

section Ways

variable (hit : Nat → Bool)

/-- How many of the faces miss. -/
def misses (faces : List Nat) : Nat := faces.countP fun face => !hit face

/-- The faces that miss. -/
def missing (faces : List Nat) : List Nat := faces.filter fun face => !hit face

/-- The shortest of the lists that `shown` begins with of which `count` faces miss. -/
structure Shortest (count : Nat) (shown used : List Nat) : Prop where
  isPrefix : used <+: shown
  misses_eq : misses hit used = count
  le : ∀ {faces}, faces <+: shown → misses hit faces = count → used.length ≤ faces.length

/-- The faces that dice use up, each of them rolled until it misses. -/
inductive Uses : Nat → List Nat → Prop where
  | none : Uses 0 []
  | hit {count face faces} (h : hit face = true) (rest : Uses (count + 1) faces) : Uses (count + 1) (face :: faces)
  | miss {count face faces} (h : hit face = false) (rest : Uses count faces) : Uses (count + 1) (face :: faces)

/-- Faces that hit, and behind them one that misses. -/
def IsChain (faces : List Nat) : Prop :=
  ∃ hits miss, faces = hits ++ [miss] ∧ (∀ face ∈ hits, hit face = true) ∧ hit miss = false

variable {hit} {count face : Nat} {faces shown used : List Nat}

theorem misses_cons_hit (h : hit face = true) : misses hit (face :: faces) = misses hit faces := by
  simp [misses, h]

theorem misses_cons_miss (h : hit face = false) : misses hit (face :: faces) = misses hit faces + 1 := by
  simp [misses, h]

namespace Uses

theorem misses_eq (h : Uses hit count used) : misses hit used = count := by
  induction h with
  | none => rfl
  | hit h _ ih => rw [misses_cons_hit h, ih]
  | miss h _ ih => rw [misses_cons_miss h, ih]

theorem length_le (h : Uses hit count used) {rest : List Nat} (hp : faces <+: used ++ rest)
    (hm : misses hit faces = count) : used.length ≤ faces.length := by
  induction h generalizing faces with
  | none => exact Nat.zero_le _
  | @hit count face used hf _ ih =>
    cases faces with
    | nil => cases hm
    | cons face' faces =>
      obtain ⟨rfl, htail⟩ := List.cons_prefix_cons.1 hp
      rw [misses_cons_hit hf] at hm
      exact Nat.succ_le_succ (ih htail hm)
  | @miss count face used hf _ ih =>
    cases faces with
    | nil => cases hm
    | cons face' faces =>
      obtain ⟨rfl, htail⟩ := List.cons_prefix_cons.1 hp
      rw [misses_cons_miss hf] at hm
      exact Nat.succ_le_succ (ih htail (Nat.succ.inj hm))

theorem shortest (h : Uses hit count used) (hp : used <+: shown) : Shortest hit count shown used := by
  refine ⟨hp, h.misses_eq, fun hfaces hm => ?_⟩
  obtain ⟨rest, rfl⟩ := hp
  exact h.length_le hfaces hm

end Uses

theorem exists_uses (h : count ≤ misses hit shown) : ∃ used, used <+: shown ∧ Uses hit count used := by
  induction shown generalizing count with
  | nil =>
    cases Nat.le_zero.1 h
    exact ⟨[], List.prefix_refl _, .none⟩
  | cons face shown ih =>
    cases count with
    | zero => exact ⟨[], List.nil_prefix, .none⟩
    | succ count =>
      cases hf : hit face with
      | true =>
        rw [misses_cons_hit hf] at h
        obtain ⟨used, hp, hu⟩ := ih h
        exact ⟨face :: used, List.cons_prefix_cons.2 ⟨rfl, hp⟩, .hit hf hu⟩
      | false =>
        rw [misses_cons_miss hf] at h
        obtain ⟨used, hp, hu⟩ := ih (Nat.le_of_succ_le_succ h)
        exact ⟨face :: used, List.cons_prefix_cons.2 ⟨rfl, hp⟩, .miss hf hu⟩

theorem exists_shortest (h : count ≤ misses hit shown) : ∃ used, Shortest hit count shown used := by
  obtain ⟨used, hp, hu⟩ := exists_uses h
  exact ⟨used, hu.shortest hp⟩

theorem Shortest.uses (h : Shortest hit count shown used) : Uses hit count used := by
  obtain ⟨faces, hp, hu⟩ := exists_uses (h.misses_eq ▸ h.isPrefix.sublist.countP_le : count ≤ misses hit shown)
  have hle := h.le hp hu.misses_eq
  have hge := (hu.shortest hp).le h.isPrefix h.misses_eq
  rwa [(List.prefix_of_prefix_length_le h.isPrefix hp hle).eq_of_length (Nat.le_antisymm hle hge)]

/-! ### Three ways of rolling -/

/-- As many faces are used, and they suffice or they do not. -/
def Taken.Alike {α β : Type} (t : Taken α) (u : Taken β) : Prop := t.used = u.used ∧ t.complete = u.complete

theorem reroll_append (h : Uses hit count used) (rest : List Nat) :
    reroll hit count (used ++ rest) = ⟨missing hit used, used.length, true⟩ := by
  induction h with
  | none => simp [reroll, missing, Taken.nothing]
  | hit h _ ih => simp [reroll, missing, h, ih, Taken.skip]
  | miss h _ ih => simp [reroll, missing, h, ih, Taken.push]

theorem reroll_short (h : misses hit shown < count) :
    (reroll hit count shown).used = shown.length ∧ (reroll hit count shown).complete = false := by
  induction shown generalizing count with
  | nil =>
    obtain ⟨count, rfl⟩ := Nat.exists_eq_add_of_lt h
    exact ⟨rfl, rfl⟩
  | cons face shown ih =>
    obtain ⟨count, rfl⟩ : ∃ n, count = n + 1 := Nat.exists_eq_add_one.2 (Nat.zero_lt_of_lt h)
    cases hf : hit face with
    | true =>
      rw [misses_cons_hit hf] at h
      simpa [reroll, hf, Taken.skip] using ih h
    | false =>
      rw [misses_cons_miss hf] at h
      simpa [reroll, hf, Taken.push] using ih (Nat.lt_of_succ_lt_succ h)

theorem explode_alike (hit : Nat → Bool) (count : Nat) (shown : List Nat) :
    (explode hit count shown).Alike (reroll hit count shown) := by
  induction shown generalizing count with
  | nil => cases count <;> exact ⟨rfl, rfl⟩
  | cons face shown ih =>
    cases count with
    | zero => exact ⟨rfl, rfl⟩
    | succ count =>
      cases hf : hit face with
      | true => simpa [explode, reroll, hf, Taken.Alike, Taken.push, Taken.skip] using ih (count + 1)
      | false => simpa [explode, reroll, hf, Taken.Alike, Taken.push] using ih count

theorem compound_alike {α : Type} (first : Nat → α) (add : α → Nat → α) (start? : Option α) (hit : Nat → Bool)
    (count : Nat) (shown : List Nat) :
    (compound hit first add start? count shown).Alike (reroll hit count shown) := by
  induction shown generalizing start? count with
  | nil => cases count <;> exact ⟨rfl, rfl⟩
  | cons face shown ih =>
    cases count with
    | zero => exact ⟨rfl, rfl⟩
    | succ count =>
      cases hf : hit face with
      | true => simpa [compound, reroll, hf, Taken.Alike, Taken.skip] using ih _ (count + 1)
      | false => simpa [compound, reroll, hf, Taken.Alike, Taken.push] using ih none count

theorem values_explode (h : Uses hit count used) (rest : List Nat) :
    (explode hit count (used ++ rest)).values = used := by
  induction h with
  | none => simp [explode, Taken.nothing]
  | hit h _ ih => simp [explode, h, ih, Taken.push]
  | miss h _ ih => simp [explode, h, ih, Taken.push]

/-! ### Sums of chains -/

section Sums

variable {α : Type} (first : Nat → α) (add : α → Nat → α)

/-- A sum with one face more, or the first one. -/
def extend : Option α → Nat → α
  | none, face => first face
  | some sum, face => add sum face

/-- The sum of faces from the left, unless there are none. -/
def running? : List Nat → Option α
  | [] => none
  | face :: faces => some (faces.foldl add (first face))

theorem running?_concat (opened : List Nat) (face : Nat) :
    running? first add (opened ++ [face]) = some (extend first add (running? first add opened) face) := by
  cases opened <;> simp [running?, extend, List.foldl_append]

theorem compound_cons (start? : Option α) (count face : Nat) (faces : List Nat) :
    compound hit first add start? (count + 1) (face :: faces) =
      if hit face then (compound hit first add (some (extend first add start? face)) (count + 1) faces).skip
      else (compound hit first add none count faces).push (extend first add start? face) := by
  cases start? <;> rfl

/-- What is taken are the sums of the chains of the faces used; the first of them began with the faces `opened`. -/
theorem values_compound (h : Uses hit count used) (rest opened : List Nat)
    (hopen : count = 0 → opened = []) (hits : ∀ face ∈ opened, hit face = true) :
    ∃ chains : List (List Nat), chains.flatten = opened ++ used ∧ (∀ chain ∈ chains, IsChain hit chain) ∧
      (compound hit first add (running? first add opened) count (used ++ rest)).values.map some =
        chains.map (running? first add) := by
  induction h generalizing opened with
  | none =>
    rw [hopen rfl]
    exact ⟨[], rfl, by simp, by simp [compound, Taken.nothing]⟩
  | @hit count face used hf _ ih =>
    obtain ⟨chains, hflat, hall, hvalues⟩ := ih (opened ++ [face]) (by simp)
      (by simpa [or_imp, forall_and, hf] using hits)
    refine ⟨chains, by simpa using hflat, hall, ?_⟩
    rw [running?_concat] at hvalues
    rw [List.cons_append, compound_cons, if_pos hf]
    exact hvalues
  | @miss count face used hf _ ih =>
    obtain ⟨chains, hflat, hall, hvalues⟩ := ih [] (fun _ => rfl) (by simp)
    have hchain : IsChain hit (opened ++ [face]) := ⟨opened, face, rfl, hits, hf⟩
    refine ⟨(opened ++ [face]) :: chains, by simpa using hflat, List.forall_mem_cons.2 ⟨hchain, hall⟩, ?_⟩
    rw [List.map_cons, running?_concat, ← hvalues, List.cons_append, compound_cons, if_neg (by simp [hf])]
    rfl

end Sums

end Ways

/-! ### Exact sums -/

/-- The sum of faces. -/
def faceSum (faces : List Nat) : Nat := faces.foldl (· + ·) 0

@[simp] theorem faceSum_nil : faceSum [] = 0 := rfl

theorem foldl_add_eq (faces : List Nat) (n : Nat) : faces.foldl (· + ·) n = n + faceSum faces := by
  induction faces generalizing n with
  | nil => rfl
  | cons face faces ih => rw [faceSum, List.foldl_cons, List.foldl_cons, ih, ih (0 + face)]; omega

@[simp] theorem faceSum_cons (face : Nat) (faces : List Nat) : faceSum (face :: faces) = face + faceSum faces := by
  rw [faceSum, List.foldl_cons, foldl_add_eq, Nat.zero_add]

@[simp] theorem faceSum_append (faces faces' : List Nat) :
    faceSum (faces ++ faces') = faceSum faces + faceSum faces' := by
  rw [faceSum, List.foldl_append, foldl_add_eq]
  rfl

theorem faceSum_flatten (chains : List (List Nat)) : faceSum chains.flatten = faceSum (chains.map faceSum) := by
  induction chains with
  | nil => rfl
  | cons chain chains ih => rw [List.flatten_cons, faceSum_append, ih, List.map_cons, faceSum_cons]

theorem faceSum_filter_le (p : Nat → Bool) (faces : List Nat) : faceSum (faces.filter p) ≤ faceSum faces := by
  induction faces with
  | nil => exact Nat.le_refl _
  | cons face faces ih =>
    rw [List.filter_cons]
    split
    · simpa using ih
    · exact Nat.le_trans ih (by simp)

theorem faceSum_le_of_mem {chain : List Nat} {chains : List (List Nat)} (h : chain ∈ chains) :
    faceSum chain ≤ faceSum chains.flatten := by
  induction h with
  | head => simp
  | tail _ _ ih => exact Nat.le_trans ih (by simp)

namespace Number

/-- The sum of faces as `cx` makes it: from the left, rounded at every step. -/
def running (faces : List Nat) : Number := (running? ofNat (fun x face => x.add (ofNat face)) faces).getD zero

/-- The greatest whole number up to which all are numbers. -/
def exactBound : Nat := Nat.pow 2 53

theorem representable_of_le {n : Nat} (h : n ≤ exactBound) : Representable (n * unitQuanta) := by
  refine ⟨?_, Nat.lt_of_le_of_lt (Nat.mul_le_mul_right _ h) (by decide +kernel)⟩
  unfold unitQuanta
  generalize 1074 = e
  exact lastPlace_dvd_of_le h

theorem ofNat_eq_ofQuotient (n : Nat) : ofNat n = ofQuotient false (n * unitQuanta) 1 := by
  have hsign : (if (n * unitQuanta : Int) = 0 then false else decide ((n * unitQuanta : Int) < 0)) = false := by
    have : ¬ (n * unitQuanta : Int) < 0 := by
      rw [← Int.natCast_mul]
      exact Int.not_lt.2 (Int.natCast_nonneg _)
    rw [decide_eq_false this, ite_self]
  rw [ofNat, ofInt, ofQuanta, hsign, ← Int.natCast_mul, Int.natAbs_natCast]

/-- A natural number whose magnitude is representable is not rounded. -/
theorem ofNat_exact {n : Nat} (h : Representable (n * unitQuanta)) :
    ofNat n = .finite false (n * unitQuanta) h := by
  have := ofQuotient_mul false Nat.one_pos h
  rwa [Nat.mul_one, ← ofNat_eq_ofQuotient] at this

theorem ofNat_eq_finite {n : Nat} (h : n ≤ exactBound) :
    ofNat n = .finite false (n * unitQuanta) (representable_of_le h) :=
  ofNat_exact (representable_of_le h)

theorem add_finite {p q : Nat} (hp : Representable p) (hq : Representable q) :
    (finite false p hp).add (finite false q hq) = ofQuanta false (p + q : Nat) := by
  simp [add, signed]

theorem ofNat_add {m n : Nat} (hm : m ≤ exactBound) (hn : n ≤ exactBound) :
    (ofNat m).add (ofNat n) = ofNat (m + n) := by
  rw [ofNat_eq_finite hm, ofNat_eq_finite hn, add_finite, ← Nat.add_mul, Int.natCast_mul]
  rfl

theorem foldl_add_ofNat {faces : List Nat} {n : Nat} (h : n + faceSum faces ≤ exactBound) :
    faces.foldl (fun x face => x.add (ofNat face)) (ofNat n) = ofNat (n + faceSum faces) := by
  induction faces generalizing n with
  | nil => rw [List.foldl_nil, faceSum_nil, Nat.add_zero]
  | cons face faces ih =>
    rw [faceSum_cons, ← Nat.add_assoc] at h ⊢
    rw [List.foldl_cons, ofNat_add (by omega) (by omega), ih h]

theorem running_eq_ofNat {faces : List Nat} (h : faceSum faces ≤ exactBound) : running faces = ofNat (faceSum faces) := by
  cases faces with
  | nil => decide +kernel
  | cons face faces =>
    rw [faceSum_cons] at h ⊢
    rw [running, running?, Option.getD_some, foldl_add_ofNat h]

theorem sum_map_ofNat {faces : List Nat} (h : faceSum faces ≤ exactBound) :
    sum (faces.map ofNat) = ofNat (faceSum faces) := by
  have hzero : zero = ofNat 0 := by decide +kernel
  rw [sum, List.foldl_map, hzero, foldl_add_ofNat (by rwa [Nat.zero_add]), Nat.zero_add]

theorem sum_map_running {chains : List (List Nat)} (h : faceSum chains.flatten ≤ exactBound) :
    sum (chains.map running) = ofNat (faceSum chains.flatten) := by
  have hrunning : chains.map running = (chains.map faceSum).map ofNat := by
    rw [List.map_map]
    refine List.map_congr_left fun chain hc => ?_
    rw [running_eq_ofNat (Nat.le_trans (faceSum_le_of_mem hc) h), Function.comp_apply]
  rw [faceSum_flatten] at h ⊢
  rw [hrunning, sum_map_ofNat h]

end Number

/-! ### Rolls -/

namespace Play

open Modifier

section Roll

variable {modifier : Modifier} (c : Comparison) (target : Number) (count faces : Nat) (shown : List Nat)

/-- The modifiers that roll on use as many faces as `r` does, and run out of them where it does. -/
theorem roll_alike (hm : modifier ∈ rollingOn) :
    (roll modifier c target count faces shown).used = (reroll (c.testFace · target) count shown).used ∧
      ((reroll (c.testFace · target) count shown).complete = false →
        (roll modifier c target count faces shown).outcome = .error (.outOfRolls faces)) := by
  obtain ⟨hx, hxc⟩ := explode_alike (c.testFace · target) count shown
  obtain ⟨hcx, hcxc⟩ := compound_alike Number.ofNat (fun x face => x.add (.ofNat face)) none (c.testFace · target)
    count shown
  simp only [rollingOn, List.mem_cons, List.not_mem_nil, or_false] at hm
  rcases hm with rfl | rfl | rfl
  · exact ⟨rfl, fun h => by simp [roll, Roll.running, Taken.map, h]⟩
  · exact ⟨hx, fun h => by simp [roll, Roll.running, Taken.map, hxc, h]⟩
  · exact ⟨hcx, fun h => by simp [roll, Roll.running, hcxc, h]⟩

variable {used : List Nat} (h : Uses (c.testFace · target) count used) (rest : List Nat)

include h

theorem roll_reroll : roll .reroll c target count faces (used ++ rest) =
    ⟨used.length, (missing (c.testFace · target) used).map .ofNat,
      .ok (.sum ((missing (c.testFace · target) used).map .ofNat))⟩ := by
  simp only [roll, reroll_append h, Taken.map, Roll.running, if_true]

theorem roll_explode : roll .explode c target count faces (used ++ rest) =
    ⟨used.length, used.map .ofNat, .ok (.sum (used.map .ofNat))⟩ := by
  obtain ⟨hused, hcomplete⟩ := explode_alike (c.testFace · target) count (used ++ rest)
  rw [reroll_append h] at hused hcomplete
  simp only [roll, Taken.map, Roll.running, hused, hcomplete, values_explode h, if_true]

theorem roll_compound : ∃ chains : List (List Nat), chains.flatten = used ∧
    (∀ chain ∈ chains, IsChain (c.testFace · target) chain) ∧
      roll .compoundExplode c target count faces (used ++ rest) =
        ⟨used.length, chains.map .running, .ok (.sum (chains.map .running))⟩ := by
  obtain ⟨chains, hflat, hall, hvalues⟩ := values_compound Number.ofNat (fun x face => x.add (.ofNat face)) h rest
    [] (fun _ => rfl) (List.forall_mem_nil _)
  obtain ⟨hused, hcomplete⟩ := compound_alike Number.ofNat (fun x face => x.add (.ofNat face)) none
    (c.testFace · target) count (used ++ rest)
  rw [reroll_append h] at hused hcomplete
  have hsums : (compound (c.testFace · target) Number.ofNat (fun x face => x.add (.ofNat face)) none count
      (used ++ rest)).values = chains.map .running := by
    have := congrArg (List.map fun x? : Option Number => x?.getD .zero) hvalues
    simp only [List.map_map, Function.comp_def, Option.getD_some, List.map_id'] at this
    exact this
  refine ⟨chains, hflat, hall, ?_⟩
  simp only [roll, Roll.running, hused, hcomplete, hsums, if_true]

end Roll

/-! ### Operands -/

section Operands

variable {modifier modifier' : Modifier} {o : Operands} {t t' : Table}

theorem targetNumber_of_ne (h : modifier ≠ .plain) (target : Play (Option Value)) :
    targetNumber modifier target = target >>= fun v => lift (requireRole .target v) :=
  if_neg h

theorem operands_eq_of_ne (h : modifier ≠ .plain) (h' : modifier' ≠ .plain) (count faces target : Play (Option Value)) :
    operands modifier' count faces target = operands modifier count faces target := by
  simp only [operands, targetNumber_of_ne h, targetNumber_of_ne h']

theorem operands_throw_ne_ok (h : modifier ≠ .plain) (count faces : Play (Option Value)) (failure : Failure) :
    (operands modifier count faces (throw failure)).on t ≠ (.ok o, t') := by
  simp only [operands, targetNumber_of_ne h, on_bind, on_throw]
  split
  · split
    · split <;> simp
    · simp
  · simp

/-- Where dice have their operands under one modifier, they have them under every other. -/
theorem evaluateOperands_of_ne {setting : Setting} {count faces : Expr} {target : Target Expr}
    (h : modifier ≠ .plain) (h' : modifier' ≠ .plain)
    (ho : (count.evaluateOperands setting faces modifier target).on t = (.ok o, t')) :
    (count.evaluateOperands setting faces modifier' target).on t = (.ok o, t') := by
  rw [Expr.evaluateOperands] at ho ⊢
  cases target with
  | absent => exact absurd ho (operands_throw_ne_ok h _ _ _)
  | faces => rwa [operands_eq_of_ne h h']
  | value target => rwa [operands_eq_of_ne h h']

end Operands

end Play

/-! ### Dice -/

open Play Modifier

/-- What dice come to under the modifiers that roll on, where `used` are the faces that they use: `t` is the table
before the roll. -/
structure RollsAlike (run : Modifier → Except Failure (Option Value) × Table) (t : Table) (slot : Slot)
    (sides : Nat) (hit : Nat → Bool) (used : List Nat) : Prop where
  script : ∀ m ∈ rollingOn, (run m).2.script = t.script.drop used.length
  calls : ∀ m ∈ rollingOn, (run m).2.calls = t.calls ++ List.replicate used.length sides
  ends : ∀ m ∈ rollingOn, ∃ x, (run m).1 = .ok (some (.number x))
  exploded : (run .explode).2.sheet.rolls slot = t.sheet.rolls slot ++ used.map .ofNat
  rerolled : (run .reroll).2.sheet.rolls slot = t.sheet.rolls slot ++ (missing hit used).map .ofNat
  compounded : ∃ chains : List (List Nat), chains.flatten = used ∧ (∀ chain ∈ chains, IsChain hit chain) ∧
    (run .compoundExplode).2.sheet.rolls slot = t.sheet.rolls slot ++ chains.map .running ∧
      ∀ chain ∈ chains, faceSum chain ≤ Number.exactBound → Number.running chain = .ofNat (faceSum chain)
  summed : faceSum used ≤ Number.exactBound →
    (run .explode).1 = .ok (some (.number (.ofNat (faceSum used)))) ∧
      (run .compoundExplode).1 = .ok (some (.number (.ofNat (faceSum used)))) ∧
        (run .reroll).1 = .ok (some (.number (.ofNat (faceSum (missing hit used)))))

namespace Expr

variable {setting : Setting} {slot : Slot} {count faces : Expr} {label : Option String} {modifier : Modifier}
  {comparison : Comparison} {target : Target Expr} {o : Operands} {t t' : Table}

/-- Dice whose operands have their values come to what their roll does. -/
theorem on_evaluate_dice (hopen : t.sheet.result slot = none)
    (ho : (count.evaluateOperands setting faces modifier target).on t = (.ok o, t')) :
    let sides := o.faces.toNat
    ((Expr.dice slot count faces label modifier comparison target).evaluate setting).on t =
      let r := (make slot sides (roll modifier comparison o.target o.count.toNat sides)).on t'
      (r.1.map fun x => some (.number x), r.2) := by
  intro sides
  rw [evaluate_dice, on_bind, on_once_open hopen, on_bind_ok ho]
  dsimp only
  generalize (make slot sides (roll modifier comparison o.target o.count.toNat sides)).on t' = r
  rcases r with ⟨failure | x, t''⟩ <;> rfl

end Expr

/-- What a roll comes to, and what it leaves of a table. -/
structure Rolls (r : Roll) (slot : Slot) (sides : Nat) (t : Table) (run : Except Failure (Option Value) × Table) :
    Prop where
  outcome : run.1 = r.outcome.map fun x => some (.number x)
  script : run.2.script = t.script.drop r.used
  calls : run.2.calls = t.calls ++ List.replicate r.used sides
  rolls : run.2.sheet.rolls slot = t.sheet.rolls slot ++ r.recorded

theorem rolls_make (slot : Slot) (sides : Nat) (rule : List Nat → Roll) (t : Table) :
    let r := (make slot sides rule).on t
    Rolls (rule (t.script.map (faceOf sides))) slot sides t (r.1.map fun x => some (.number x), r.2) :=
  ⟨congrArg (Except.map _) fst_on_make, script_on_make, calls_on_make, rolls_on_make⟩

section Alike

variable {run : Modifier → Except Failure (Option Value) × Table} {comparison : Comparison} {x : Number}
  {n sides : Nat} {slot : Slot} {t : Table}
  (hrun : ∀ m ∈ rollingOn, Rolls (roll m comparison x n sides (t.script.map (faceOf sides))) slot sides t (run m))

include hrun

theorem rollsAlike_of_uses {used : List Nat} (h : Uses (comparison.testFace · x) n used)
    (hp : used <+: t.script.map (faceOf sides)) : RollsAlike run t slot sides (comparison.testFace · x) used := by
  obtain ⟨rest, hshown⟩ := hp
  rw [← hshown] at hrun
  have hused : ∀ m ∈ rollingOn, (roll m comparison x n sides (used ++ rest)).used = used.length := by
    intro m hm
    rw [(roll_alike comparison x n sides _ hm).1, reroll_append h]
  have hr := hrun .reroll (by simp [rollingOn])
  have hx := hrun .explode (by simp [rollingOn])
  have hcx := hrun .compoundExplode (by simp [rollingOn])
  rw [roll_reroll comparison x n sides h] at hr
  rw [roll_explode comparison x n sides h] at hx
  obtain ⟨chains, hflat, hall, hcompound⟩ := roll_compound comparison x n sides h rest
  rw [hcompound] at hcx
  have hle : faceSum (missing (comparison.testFace · x) used) ≤ faceSum used := faceSum_filter_le _ _
  constructor
  case script => exact fun m hm => hused m hm ▸ (hrun m hm).script
  case calls => exact fun m hm => hused m hm ▸ (hrun m hm).calls
  case ends =>
    intro m hm
    simp only [rollingOn, List.mem_cons, List.not_mem_nil, or_false] at hm
    rcases hm with rfl | rfl | rfl
    · exact ⟨_, hr.outcome⟩
    · exact ⟨_, hx.outcome⟩
    · exact ⟨_, hcx.outcome⟩
  case exploded => exact hx.rolls
  case rerolled => exact hr.rolls
  case compounded => exact ⟨chains, hflat, hall, hcx.rolls, fun chain _ => Number.running_eq_ofNat⟩
  case summed =>
    intro hsum
    refine ⟨?_, ?_, ?_⟩
    · rw [hx.outcome, Number.sum_map_ofNat hsum]; rfl
    · rw [hcx.outcome, Number.sum_map_running (hflat ▸ hsum), hflat]; rfl
    · rw [hr.outcome, Number.sum_map_ofNat (Nat.le_trans hle hsum)]; rfl

/-- Where too few faces miss, all are used and the rolls run out. -/
theorem outOfRolls_of_misses_lt (h : misses (comparison.testFace · x) (t.script.map (faceOf sides)) < n) :
    ∀ m ∈ rollingOn, (run m).1 = .error (.outOfRolls sides) ∧ (run m).2.script = [] ∧
      (run m).2.calls = t.calls ++ List.replicate t.script.length sides := by
  obtain ⟨hused, hcomplete⟩ := reroll_short h
  intro m hm
  obtain ⟨hsame, hfails⟩ := roll_alike comparison x n sides (t.script.map (faceOf sides)) hm
  rw [hused, List.length_map] at hsame
  have hr := hrun m hm
  refine ⟨?_, ?_, ?_⟩
  · rw [hr.outcome, hfails hcomplete]; rfl
  · rw [hr.script, hsame, List.drop_length]
  · rw [hr.calls, hsame]

end Alike

namespace Expr

variable {setting : Setting} {slot : Slot} {count faces : Expr} {modifier : Modifier} {target : Target Expr}
  {o : Operands} {t t' : Table}

/-- **The modifiers that roll on read the dice alike.** Where the operands have their values and the dice no result
yet, `r`, `x` and `cx` all use the shortest beginning of what the dice show of which as many faces miss as there are
dice. Where there is none they use up the rolls and fail, so that no script ends a roll of which every face hits. -/
theorem evaluate_dice_alike (label : Option String) (comparison : Comparison) (hm : modifier ≠ .plain)
    (hopen : t.sheet.result slot = none)
    (ho : (count.evaluateOperands setting faces modifier target).on t = (.ok o, t')) :
    let sides := o.faces.toNat
    let hit := fun face => comparison.testFace face o.target
    let shown := t'.script.map (faceOf sides)
    let run := fun m => ((Expr.dice slot count faces label m comparison target).evaluate setting).on t
    (∀ used, Shortest hit o.count.toNat shown used → RollsAlike run t' slot sides hit used) ∧
      (o.count.toNat ≤ misses hit shown → ∃ used, Shortest hit o.count.toNat shown used) ∧
      (misses hit shown < o.count.toNat → ∀ m ∈ rollingOn, (run m).1 = .error (.outOfRolls sides) ∧
        (run m).2.script = [] ∧ (run m).2.calls = t'.calls ++ List.replicate t'.script.length sides) ∧
      (0 < o.count → 0 < o.faces → (∀ face, 0 < face → face ≤ sides → hit face = true) →
        ∀ m ∈ rollingOn, (run m).1 = .error (.outOfRolls sides)) := by
  intro sides hit shown run
  have hrun : ∀ m ∈ rollingOn,
      Rolls (roll m comparison o.target o.count.toNat sides shown) slot sides t' (run m) := by
    intro m hm'
    have hne : m ≠ .plain := by
      rintro rfl
      simp [rollingOn] at hm'
    rw [show run m = _ from on_evaluate_dice hopen (evaluateOperands_of_ne hm hne ho)]
    exact rolls_make slot sides _ t'
  refine ⟨fun used hused => rollsAlike_of_uses hrun hused.uses hused.isPrefix, exists_shortest,
    outOfRolls_of_misses_lt hrun, fun hcount hfaces hall m hm' => ?_⟩
  have hnone : misses hit shown = 0 := by
    refine List.countP_eq_zero.2 fun face hface => ?_
    obtain ⟨entry, -, rfl⟩ := List.mem_map.1 hface
    have := hall _ (faceOf_pos sides entry) (faceOf_le (by omega) entry)
    simp [this]
  exact (outOfRolls_of_misses_lt hrun (hnone ▸ (by omega)) m hm').1

/-- Two dice that are rolled again at sixes use five of six rolls. -/
theorem evaluate_dice_alike_sixes :
    let literal (n : Nat) : Expr := .literal (some (.number (.ofNat n))) none
    let t : Table := ⟨.blank, [6, 2, 6, 6, 3, 5], []⟩
    let hit := fun face => Comparison.equal.testFace face (.ofNat 6)
    let run := fun m => ((Expr.dice 1 (literal 2) (literal 6) none m .equal (.value (literal 6))).evaluate
      ⟨[], .standard⟩).on t
    t.sheet.result 1 = none ∧
      ((literal 2).evaluateOperands ⟨[], .standard⟩ (literal 6) .reroll (.value (literal 6))).on t =
        (.ok ⟨2, 6, .ofNat 6⟩, t) ∧
      Shortest hit 2 [6, 2, 6, 6, 3, 5] [6, 2, 6, 6, 3] ∧ RollsAlike run t 1 6 hit [6, 2, 6, 6, 3] := by
  intro literal t hit run
  have hopen : t.sheet.result 1 = none := rfl
  have hwhole : ∀ {x : Number} {n : Int} (role : Role) (what : String), x.round? = some n →
      (wholeOperand role what (pure (some (.number x)))).on t = (.ok n, t) := by
    intro x n role what hx
    show (lift (requireFinite what x)).on t = _
    rw [on_lift, requireFinite, hx]
    rfl
  have htwo : (Number.ofNat 2).round? = some 2 := by decide +kernel
  have hsix : (Number.ofNat 6).round? = some 6 := by decide +kernel
  have ho : ((literal 2).evaluateOperands ⟨[], .standard⟩ (literal 6) .reroll (.value (literal 6))).on t =
      (.ok ⟨2, 6, .ofNat 6⟩, t) := by
    show (operands .reroll (pure (some (.number (.ofNat 2)))) (pure (some (.number (.ofNat 6))))
      (pure (some (.number (.ofNat 6))))).on t = _
    generalize Number.ofNat 2 = x at htwo ⊢
    generalize Number.ofNat 6 = y at hsix ⊢
    rw [operands, on_bind_ok (hwhole _ _ htwo), on_bind_ok (hwhole _ _ hsix)]
    rfl
  have huses : Uses hit 2 [6, 2, 6, 6, 3] :=
    .hit (by decide +kernel) (.miss (by decide +kernel) (.hit (by decide +kernel) (.hit (by decide +kernel)
      (.miss (by decide +kernel) .none))))
  have hshortest : Shortest hit 2 [6, 2, 6, 6, 3, 5] [6, 2, 6, 6, 3] := huses.shortest ⟨[5], rfl⟩
  have halike := (evaluate_dice_alike none .equal (by decide) hopen ho).1 [6, 2, 6, 6, 3]
  dsimp only at halike
  exact ⟨hopen, ho, hshortest, halike hshortest⟩

end Expr

end DiceNotation
