import DiceNotation.Evaluate

/-!
A roll looks only at the faces that it uses.

Main statement: `decided_roll`, a roll that did not run out of faces is the same however the faces go on after those
it used.
-/

namespace DiceNotation

/-! ### Ways of rolling -/

/-- A way of rolling, once complete, has used no more faces than there were and is the same for all others that begin
with those used. -/
def Taken.Determined {α : Type} (way : List Nat → Taken α) : Prop :=
  ∀ faces, (way faces).complete = true →
    (way faces).used ≤ faces.length ∧ ∀ rest, way (faces.take (way faces).used ++ rest) = way faces

section Ways

variable (hit : Nat → Bool)

theorem determined_reroll (count : Nat) : Taken.Determined (reroll hit count) := by
  intro faces
  induction faces generalizing count with
  | nil => cases count <;> simp [reroll, Taken.nothing]
  | cons face faces ih =>
    cases count with
    | zero => simp [reroll, Taken.nothing]
    | succ count =>
      intro h
      by_cases hf : hit face
      · obtain ⟨hle, hrest⟩ := ih (count + 1) (by simpa [reroll, hf, Taken.skip] using h)
        refine ⟨by simpa [reroll, hf, Taken.skip] using hle, fun rest => ?_⟩
        simp [reroll, hf, Taken.skip, hrest]
      · obtain ⟨hle, hrest⟩ := ih count (by simpa [reroll, hf, Taken.push] using h)
        refine ⟨by simpa [reroll, hf, Taken.push] using hle, fun rest => ?_⟩
        simp [reroll, hf, Taken.push, hrest]

theorem determined_explode (count : Nat) : Taken.Determined (explode hit count) := by
  intro faces
  induction faces generalizing count with
  | nil => cases count <;> simp [explode, Taken.nothing]
  | cons face faces ih =>
    cases count with
    | zero => simp [explode, Taken.nothing]
    | succ count =>
      intro h
      obtain ⟨hle, hrest⟩ := ih (if hit face then count + 1 else count) h
      refine ⟨by simpa [explode, Taken.push] using hle, fun rest => ?_⟩
      simp [explode, Taken.push, hrest]

theorem determined_compound {α : Type} (first : Nat → α) (add : α → Nat → α) (start? : Option α) (count : Nat) :
    Taken.Determined (compound hit first add start? count) := by
  intro faces
  induction faces generalizing start? count with
  | nil => cases count <;> simp [compound, Taken.nothing]
  | cons face faces ih =>
    cases count with
    | zero => simp [compound, Taken.nothing]
    | succ count =>
      intro h
      by_cases hf : hit face
      · obtain ⟨hle, hrest⟩ := ih _ (count + 1) (by simpa [compound, hf, Taken.skip] using h)
        refine ⟨by simpa [compound, hf, Taken.skip] using hle, fun rest => ?_⟩
        simp [compound, hf, Taken.skip, hrest]
      · obtain ⟨hle, hrest⟩ := ih none count (by simpa [compound, hf, Taken.push] using h)
        refine ⟨by simpa [compound, hf, Taken.push] using hle, fun rest => ?_⟩
        simp [compound, hf, Taken.push, hrest]

theorem Taken.Determined.map {α β : Type} {way : List Nat → Taken α} (h : Taken.Determined way) (f : α → β) :
    Taken.Determined fun faces => (way faces).map f := fun faces hc =>
  ⟨(h faces hc).1, fun rest => congrArg (Taken.map f) ((h faces hc).2 rest)⟩

end Ways

/-! ### Rolls -/

namespace Play

/-- An outcome that more rolls would not have changed: anything but a lack of rolls. -/
def Ended {α : Type} (r : Except Failure α) : Prop := ∀ faces, r ≠ .error (.outOfRolls faces)

/-- A rule for rolls, where it does not run out of faces, has used no more than there were and is the same for all
others that begin with those used. -/
def Roll.Decided (rule : List Nat → Roll) : Prop :=
  ∀ shown, Ended (rule shown).outcome →
    (rule shown).used ≤ shown.length ∧ ∀ rest, rule (shown.take (rule shown).used ++ rest) = rule shown

/-- A rule for rolls, where it has a result, has used no more faces than there were and is the same for all others
that begin with those used. -/
def Roll.Determined (rule : List Nat → Roll) : Prop :=
  ∀ shown x, (rule shown).outcome = .ok x →
    (rule shown).used ≤ shown.length ∧ ∀ rest, rule (shown.take (rule shown).used ++ rest) = rule shown

variable {faces : Nat} {α β : Type}

theorem ended_ok (a : α) : Ended (.ok a) := by
  intro faces h
  cases h

theorem Ended.of_error {failure : Failure} (h : Ended (.error failure : Except Failure α)) :
    Ended (.error failure : Except Failure β) := by
  rintro faces ⟨⟩
  exact h faces rfl

/-- The entries that a roll uses make it, whatever stands behind them. -/
theorem Roll.Decided.exists_entries {rule : List Nat → Roll} (h : Roll.Decided rule) {faces : Nat}
    {script : List Int} (hended : Ended (rule (script.map (faceOf faces))).outcome) :
    ∃ entries, script = entries ++ script.drop (rule (script.map (faceOf faces))).used ∧
      (rule (script.map (faceOf faces))).used = entries.length ∧
      ∀ rest, rule ((entries ++ rest).map (faceOf faces)) = rule (script.map (faceOf faces)) := by
  obtain ⟨hle, hsame⟩ := h _ hended
  rw [List.length_map] at hle
  refine ⟨script.take _, (List.take_append_drop _ _).symm, (List.length_take_of_le hle).symm, fun rest => ?_⟩
  rw [List.map_append, List.map_take]
  exact hsame _

theorem Roll.Decided.determined {rule : List Nat → Roll} (h : Roll.Decided rule) : Roll.Determined rule :=
  fun shown x hx => h shown (hx ▸ ended_ok x)

theorem decided_whole {way : List Nat → Taken Nat} (h : Taken.Determined way)
    (score : List Nat → Except Failure Number) : Roll.Decided fun shown => .whole faces (way shown) score := by
  intro shown hx
  cases hc : (way shown).complete with
  | false => exact absurd (by simp [Roll.whole, hc]) (hx faces)
  | true =>
    obtain ⟨hle, hrest⟩ := h shown hc
    have hused : (Roll.whole faces (way shown) score).used = (way shown).used := by simp [Roll.whole, hc]
    rw [hused]
    exact ⟨hle, fun rest => congrArg (Roll.whole faces · score) (hrest rest)⟩

theorem decided_running {way : List Nat → Taken Number} (h : Taken.Determined way) :
    Roll.Decided fun shown => .running faces (way shown) := by
  intro shown hx
  cases hc : (way shown).complete with
  | false => exact absurd (by simp [Roll.running, hc]) (hx faces)
  | true =>
    obtain ⟨hle, hrest⟩ := h shown hc
    exact ⟨hle, fun rest => congrArg (Roll.running faces) (hrest rest)⟩

theorem decided_roll (modifier : Modifier) (c : Comparison) (target : Number) (count faces : Nat) :
    Roll.Decided (roll modifier c target count faces) := by
  have plain : Taken.Determined (rollPlain count) := determined_reroll _ count
  have ofHit : ∀ {way : (Nat → Bool) → Nat → List Nat → Taken Nat}, (∀ hit n, Taken.Determined (way hit n)) →
      Roll.Decided fun shown => .running faces ((way (c.testFace · target) count shown).map Number.ofNat) :=
    fun h => decided_running ((h _ count).map Number.ofNat)
  unfold roll
  cases modifier with
  | plain => exact decided_whole plain _
  | countSuccesses => exact decided_whole plain _
  | marginOfSuccess => exact decided_whole plain _
  | select s => exact decided_whole plain _
  | reroll => exact ofHit determined_reroll
  | explode => exact ofHit determined_explode
  | compoundExplode => exact decided_running (determined_compound _ _ _ none count)

theorem determined_roll (modifier : Modifier) (c : Comparison) (target : Number) (count faces : Nat) :
    Roll.Determined (roll modifier c target count faces) :=
  (decided_roll modifier c target count faces).determined

/-! ### Rolls that fail -/

theorem error_of_whole {taken : Taken Nat} {score : List Nat → Except Failure Number} {failure : Failure}
    (h : (Roll.whole faces taken score).outcome = .error failure) :
    failure = .outOfRolls faces ∨ score taken.values = .error failure := by
  unfold Roll.whole at h
  split at h
  · exact .inr h
  · cases h
    exact .inl rfl

theorem error_of_running {taken : Taken Number} {failure : Failure}
    (h : (Roll.running faces taken).outcome = .error failure) : failure = .outOfRolls faces := by
  unfold Roll.running at h
  split at h <;> cases h
  rfl

theorem error_of_total {fs : List Nat} {failure : Failure} (h : total fs = .error failure) : failure = .overflow := by
  rw [total] at h
  cases hx : Number.ofInt? (fs.foldl (· + ·) 0 : Nat) with
  | none => rw [hx] at h; cases h; rfl
  | some x => rw [hx] at h; cases h

theorem error_of_score {s : Selection} {xs : List Number} {number : Number} {cause : Fault}
    (h : s.score xs number = .error cause) : cause = .notFinite "Keep/drop count" number := by
  unfold Selection.score requireFinite at h
  cases hr : number.round? with
  | none => rw [hr] at h; cases h; rfl
  | some n => rw [hr] at h; cases h

/-- What a roll fails for: it runs out of rolls, its sum is too large, or the number to keep or drop is not finite. -/
theorem outcome_error_roll {modifier : Modifier} {c : Comparison} {target : Number} {count : Nat} {shown : List Nat}
    {failure : Failure} (h : (roll modifier c target count faces shown).outcome = .error failure) :
    failure = .outOfRolls faces ∨ failure = .overflow ∨
      failure = .fault (.notFinite "Keep/drop count" target) none := by
  unfold roll at h
  cases modifier with
  | plain => exact (error_of_whole h).imp_right fun hs => .inl (error_of_total hs)
  | countSuccesses =>
    rcases error_of_whole h with h | hs
    · exact .inl h
    · cases hs
  | marginOfSuccess =>
    rcases error_of_whole h with h | hs
    · exact .inl h
    · refine .inr (.inl ?_)
      generalize ht : total _ = sum at hs
      cases sum with
      | ok x => cases hs
      | error e => cases hs; exact error_of_total ht
  | select s =>
    rcases error_of_whole h with h | hs
    · exact .inl h
    · refine .inr (.inr ?_)
      generalize hx : s.score _ target = score at hs
      cases score with
      | ok x => cases hs
      | error cause => cases hs; rw [error_of_score hx]
  | reroll => exact .inl (error_of_running h)
  | explode => exact .inl (error_of_running h)
  | compoundExplode => exact .inl (error_of_running h)

end Play

end DiceNotation
