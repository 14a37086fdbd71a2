import DiceNotation.Expr.Walk

/-!
The parts of an expression: induction over them, what holds of all of them, and the slots that stand in them.

Main statements:
* `Expr.ind`: an induction in which the parts of a list count like any other part;
* `everywhere_iff`: a property holds everywhere iff it holds of the whole and everywhere in the direct parts.
-/

namespace DiceNotation.Expr

/-! ### Induction -/

theorem size_le_sizes {c : Expr} {es : List Expr} (h : c ∈ es) : c.size ≤ sizes es := by
  induction es with
  | nil => cases h
  | cons e es ih =>
    simp only [sizes]
    cases h with
    | head => omega
    | tail _ h => have := ih h; omega

theorem size_lt_of_children {c e : Expr} {es : List Expr} (h : e.children = .ok es) (hc : c ∈ es) :
    c.size < e.size := by
  have := size_le_sizes hc
  rw [size_eq_of_children h]
  omega

/-- The direct parts in the place of an expression are smaller. -/
theorem sizes_append_lt {e : Expr} {cs : List Expr} (h : e.children = .ok cs) (es : List Expr) :
    sizes (cs ++ es) < sizes (e :: es) := by
  simp only [sizes, sizes_append, size_eq_of_children h]
  omega

/-- Induction over an expression by its direct parts. -/
theorem ind_children {motive : Expr → Prop}
    (h : ∀ e, (∀ es c, e.children = .ok es → c ∈ es → motive c) → motive e) (e : Expr) : motive e := by
  induction hn : e.size using Nat.strongRecOn generalizing e with
  | ind n ih =>
    subst hn
    exact h e fun es c he hc => ih _ (size_lt_of_children he hc) c rfl

/-- Induction over an expression, with the members of its lists among its parts. -/
theorem ind {motive : Expr → Prop}
    (literal : ∀ v label, motive (.literal v label))
    (substitution : ∀ slot key label, motive (.substitution slot key label))
    (group : ∀ inner, motive inner → motive (.group inner))
    (unary : ∀ op operand, motive operand → motive (.unary op operand))
    (binary : ∀ op left right, motive left → motive right → motive (.binary op left right))
    (choice : ∀ condition consequent alternative, motive condition → motive consequent → motive alternative →
      motive (.choice condition consequent alternative))
    (call : ∀ callee token arguments, motive callee → (∀ a ∈ arguments, motive a) →
      motive (.call callee token arguments))
    (dice : ∀ slot count faces label modifier comparison target, motive count → motive faces →
      (∀ e, target = .value e → motive e) → motive (.dice slot count faces label modifier comparison target))
    (pool : ∀ entries modifier comparison target, (∀ a ∈ entries, motive a) → (∀ e, target = some e → motive e) →
      motive (.pool entries modifier comparison target))
    (foreign : ∀ text, motive (.foreign text)) (e : Expr) : motive e := by
  induction e using ind_children with
  | h e ih =>
    have part : ∀ {c : Expr} {es : List Expr}, e.children = .ok es → c ∈ es → motive c := fun h hc => ih _ _ h hc
    cases e with
    | literal v label => exact literal v label
    | substitution slot key label => exact substitution slot key label
    | group inner => exact group inner (part rfl (by simp))
    | unary op operand => exact unary op operand (part rfl (by simp))
    | binary op left right => exact binary op left right (part rfl (by simp)) (part rfl (by simp))
    | choice c t e => exact choice c t e (part rfl (by simp)) (part rfl (by simp)) (part rfl (by simp))
    | call callee token arguments =>
      exact call callee token arguments (part rfl (by simp)) fun a ha => part rfl (by simp [ha])
    | dice slot count faces label modifier comparison target =>
      cases target with
      | absent => exact dice _ _ _ _ _ _ _ (part rfl (by simp)) (part rfl (by simp)) fun _ h => by cases h
      | faces => exact dice _ _ _ _ _ _ _ (part rfl (by simp)) (part rfl (by simp)) fun _ h => by cases h
      | value target =>
        refine dice _ _ _ _ _ _ _ (part rfl (by simp)) (part rfl (by simp)) fun _ h => ?_
        cases h
        exact part rfl (by simp)
    | pool entries modifier comparison target =>
      cases target with
      | none => exact pool _ _ _ _ (fun a ha => part rfl ha) fun _ h => by cases h
      | some target =>
        refine pool _ _ _ _ (fun a ha => part rfl (by simp [ha])) fun _ h => ?_
        cases h
        exact part rfl (by simp)
    | foreign text => exact foreign text

/-! ### Walks -/

theorem walkFrom_cons (e : Expr) (rest : List Expr) :
    walkFrom (e :: rest) = do
      let es ← e.children
      let ds ← walkFrom (es ++ rest)
      return e :: ds := by
  rw [walkFrom]
  split
  · next h => rw [h]; rfl
  · next es h =>
    rw [h]
    show _ = walkFrom (es ++ rest) >>= fun ds => pure (e :: ds)
    cases walkFrom (es ++ rest) <;> rfl

/-! ### Parts -/

theorem exists_children_of_ne {e : Expr} (h : ∀ text, e ≠ .foreign text) : ∃ es, e.children = .ok es := by
  cases e with
  | foreign text => exact absurd rfl (h text)
  | dice slot count faces label modifier comparison target => cases target <;> exact ⟨_, rfl⟩
  | pool entries modifier comparison target => cases target <;> exact ⟨_, rfl⟩
  | _ => exact ⟨_, rfl⟩

/-- The first expression is the second one or a part of it, at any depth. -/
inductive PartOf : Expr → Expr → Prop where
  | self (e : Expr) : PartOf e e
  | child {d c e : Expr} {es : List Expr} (h : e.children = .ok es) (hc : c ∈ es) (hd : PartOf d c) : PartOf d e

theorem PartOf.trans {c d e : Expr} (h : c.PartOf d) (h' : d.PartOf e) : c.PartOf e := by
  induction h' with
  | self => exact h
  | child he hc _ ih => exact .child he hc ih

theorem partOf_iff {d e : Expr} {es : List Expr} (he : e.children = .ok es) :
    d.PartOf e ↔ d = e ∨ ∃ c ∈ es, d.PartOf c := by
  constructor
  · intro h
    cases h with
    | self => exact .inl rfl
    | child he' hc hd =>
      rw [he] at he'
      cases he'
      exact .inr ⟨_, hc, hd⟩
  · rintro (rfl | ⟨c, hc, hd⟩)
    · exact .self d
    · exact .child he hc hd

/-- A property of every part, the whole included. -/
def Everywhere (P : Expr → Prop) (e : Expr) : Prop := ∀ d, PartOf d e → P d

variable {P : Expr → Prop} {e : Expr}

theorem Everywhere.self (h : e.Everywhere P) : P e := h e (.self e)

theorem Everywhere.of_partOf {d : Expr} (h : e.Everywhere P) (hd : d.PartOf e) : d.Everywhere P :=
  fun c hc => h c (hc.trans hd)

theorem everywhere_iff {es : List Expr} (he : e.children = .ok es) :
    e.Everywhere P ↔ P e ∧ ∀ c ∈ es, c.Everywhere P := by
  constructor
  · intro h
    exact ⟨h.self, fun c hc d hd => h d (.child he hc hd)⟩
  · rintro ⟨h, hs⟩ d hd
    rcases (partOf_iff he).1 hd with rfl | ⟨c, hc, hd⟩
    · exact h
    · exact hs c hc d hd

section Everywhere

variable {inner operand left right condition consequent alternative callee count faces : Expr}
  {arguments entries : List Expr} {v key : Option Value} {label : Option String} {op token : Option Token} {slot : Slot}
  {modifier : Modifier} {comparison : Comparison}

@[simp] theorem everywhere_literal : (literal v label).Everywhere P ↔ P (.literal v label) := by
  simp [everywhere_iff (e := literal v label) rfl]

@[simp] theorem everywhere_substitution :
    (substitution slot key label).Everywhere P ↔ P (.substitution slot key label) := by
  simp [everywhere_iff (e := substitution slot key label) rfl]

@[simp] theorem everywhere_group : (group inner).Everywhere P ↔ P (.group inner) ∧ inner.Everywhere P := by
  simp [everywhere_iff (e := group inner) rfl]

@[simp] theorem everywhere_unary :
    (unary op operand).Everywhere P ↔ P (.unary op operand) ∧ operand.Everywhere P := by
  simp [everywhere_iff (e := unary op operand) rfl]

@[simp] theorem everywhere_binary : (binary op left right).Everywhere P ↔
    P (.binary op left right) ∧ left.Everywhere P ∧ right.Everywhere P := by
  simp [everywhere_iff (e := binary op left right) rfl]

@[simp] theorem everywhere_choice : (choice condition consequent alternative).Everywhere P ↔
    P (.choice condition consequent alternative) ∧ condition.Everywhere P ∧ consequent.Everywhere P ∧
      alternative.Everywhere P := by
  simp [everywhere_iff (e := choice condition consequent alternative) rfl]

@[simp] theorem everywhere_call : (call callee token arguments).Everywhere P ↔
    P (.call callee token arguments) ∧ callee.Everywhere P ∧ ∀ a ∈ arguments, a.Everywhere P := by
  simp [everywhere_iff (e := call callee token arguments) rfl]

@[simp] theorem everywhere_dice {target : Target Expr} :
    (dice slot count faces label modifier comparison target).Everywhere P ↔
      P (.dice slot count faces label modifier comparison target) ∧ count.Everywhere P ∧ faces.Everywhere P ∧
        ∀ e, target = .value e → e.Everywhere P := by
  cases target with
  | absent => rw [everywhere_iff rfl]; simp
  | faces => rw [everywhere_iff rfl]; simp
  | value target => rw [everywhere_iff rfl]; simp

@[simp] theorem everywhere_pool {target : Option Expr} : (pool entries modifier comparison target).Everywhere P ↔
    P (.pool entries modifier comparison target) ∧ (∀ a ∈ entries, a.Everywhere P) ∧
      ∀ e, target = some e → e.Everywhere P := by
  cases target with
  | none => rw [everywhere_iff rfl]; simp
  | some target => rw [everywhere_iff rfl]; simp [or_imp, forall_and]

end Everywhere

/-! ### Slots -/

mutual
/-- The slots of an expression, in the order of its text. -/
def slots : Expr → List Slot
  | .literal .. | .foreign _ => []
  | .substitution slot _ _ => [slot]
  | .group inner => inner.slots
  | .unary _ operand => operand.slots
  | .binary _ left right => left.slots ++ right.slots
  | .choice c t e => c.slots ++ (t.slots ++ e.slots)
  | .call callee _ arguments => callee.slots ++ slotsOf arguments
  | .dice slot count faces _ _ _ (.value target) => count.slots ++ slot :: (faces.slots ++ target.slots)
  | .dice slot count faces _ _ _ _ => count.slots ++ slot :: faces.slots
  | .pool entries _ _ (some target) => slotsOf entries ++ target.slots
  | .pool entries _ _ none => slotsOf entries
  termination_by structural e => e

/-- The slots of all expressions of a list. -/
def slotsOf : List Expr → List Slot
  | [] => []
  | e :: es => e.slots ++ slotsOf es
  termination_by structural es => es
end

theorem slotsOf_append (es fs : List Expr) : slotsOf (es ++ fs) = slotsOf es ++ slotsOf fs := by
  induction es with
  | nil => rfl
  | cons e es ih => simp [slotsOf, ih]

/-- The slots of a target that is an expression of its own. -/
def targetSlots : Target Expr → List Slot
  | .value e => e.slots
  | _ => []

theorem slots_dice (slot : Slot) (count faces : Expr) (label : Option String) (modifier : Modifier)
    (comparison : Comparison) (target : Target Expr) :
    (Expr.dice slot count faces label modifier comparison target).slots =
      count.slots ++ slot :: (faces.slots ++ targetSlots target) := by
  cases target <;> simp [slots, targetSlots]

theorem slots_sublist_slotsOf {a : Expr} {es : List Expr} (h : a ∈ es) : a.slots.Sublist (slotsOf es) := by
  induction es with
  | nil => cases h
  | cons e es ih =>
    simp only [slotsOf]
    cases h with
    | head => exact List.sublist_append_left _ _
    | tail _ h => exact (ih h).trans (List.sublist_append_right _ _)

theorem slots_sublist_of_children {c e : Expr} {es : List Expr} (h : e.children = .ok es) (hc : c ∈ es) :
    c.slots.Sublist e.slots := by
  have hs := slots_sublist_slotsOf hc
  refine hs.trans ?_
  unfold children at h
  split at h <;> cases h <;> simp [slots, slotsOf, slotsOf_append]

theorem PartOf.slots_sublist {d e : Expr} (h : d.PartOf e) : d.slots.Sublist e.slots := by
  induction h with
  | self => exact List.Sublist.refl _
  | child he hc _ ih => exact ih.trans (slots_sublist_of_children he hc)

end DiceNotation.Expr
