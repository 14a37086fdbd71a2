import DiceNotation.Proofs.Parts

/-!
Slots and the parts that have them.

A part with a slot of its own is a substitution or dice. In an expression whose slots are all different, as in every
expression that is read from a text, a slot leads to one part and to one path down to it.

Main statements:
* `slots_perm`: the slots of an expression are its own one and those of its direct parts;
* `eq_of_children`: where all slots are different, one direct part holds a slot;
* `coherent_of_nodup`: where all slots are different, one part has a slot.
-/

namespace DiceNotation.Expr

/-- The slot of a substitution or of dice. -/
def slot? : Expr → Option Slot
  | .substitution slot _ _ => some slot
  | .dice slot _ _ _ _ _ _ => some slot
  | _ => none

/-- Parts that have one slot are one part, though it may stand in several places. -/
def Coherent (e : Expr) : Prop :=
  ∀ (d d' : Expr) (slot : Slot), d.PartOf e → d'.PartOf e → d.slot? = some slot → d'.slot? = some slot → d = d'

variable {e d d' a b : Expr} {es : List Expr} {slot : Slot}

/-- The slots of an expression are its own one and those of its direct parts. -/
theorem slots_perm (h : e.children = .ok es) : e.slots.Perm (e.slot?.toList ++ slotsOf es) := by
  cases e with
  | dice slot count faces label modifier comparison target =>
    rw [slots_dice]
    refine List.perm_middle.trans ?_
    cases target <;> cases h <;> simp [slot?, slotsOf, targetSlots]
  | pool entries modifier comparison target =>
    cases target <;> cases h <;> simp [slot?, slots, slotsOf, slotsOf_append]
  | _ => cases h <;> simp [slot?, slots, slotsOf]

theorem mem_slotsOf_iff : slot ∈ slotsOf es ↔ ∃ a ∈ es, slot ∈ a.slots := by
  induction es with
  | nil => simp [slotsOf]
  | cons e es ih => simp [slotsOf, ih]

theorem mem_slots_of_slot? (h : e.slot? = some slot) : slot ∈ e.slots := by
  cases e with
  | substitution slot' key label => cases h; simp [slots]
  | dice slot' count faces label modifier comparison target => cases h; simp [slots_dice]
  | _ => cases h

theorem PartOf.mem_slots (h : d.PartOf e) (hd : d.slot? = some slot) : slot ∈ e.slots :=
  h.slots_sublist.subset (mem_slots_of_slot? hd)

/-! ### Direct parts of dice and pools -/

theorem children_dice (slot : Slot) (count faces : Expr) (label : Option String) (modifier : Modifier)
    (comparison : Comparison) (target : Target Expr) :
    ∃ es, (Expr.dice slot count faces label modifier comparison target).children = .ok es ∧
      ∀ a, a ∈ es ↔ a = count ∨ a = faces ∨ target = .value a := by
  cases target with
  | absent => exact ⟨_, rfl, by simp⟩
  | faces => exact ⟨_, rfl, by simp⟩
  | value target => exact ⟨_, rfl, by simp [eq_comm]⟩

theorem children_pool (entries : List Expr) (modifier : Modifier) (comparison : Comparison) (target : Option Expr) :
    ∃ es, (Expr.pool entries modifier comparison target).children = .ok es ∧
      ∀ a, a ∈ es ↔ a ∈ entries ∨ target = some a := by
  cases target with
  | none => exact ⟨_, rfl, by simp⟩
  | some target => exact ⟨_, rfl, by simp [eq_comm]⟩

/-! ### Different slots -/

theorem nodup_of_children (h : e.children = .ok es) (hn : e.slots.Nodup) :
    (slotsOf es).Nodup ∧ ∀ slot, e.slot? = some slot → slot ∉ slotsOf es := by
  obtain ⟨-, hes, hdisjoint⟩ := List.nodup_append.1 ((slots_perm h).nodup_iff.1 hn)
  refine ⟨hes, fun slot hslot hmem => ?_⟩
  exact hdisjoint slot (Option.mem_toList.2 hslot) slot hmem rfl

theorem nodup_of_mem (hn : (slotsOf es).Nodup) (ha : a ∈ es) : a.slots.Nodup :=
  (slots_sublist_slotsOf ha).nodup hn

/-- Where all slots are different, one member of a list holds a slot. -/
theorem eq_of_mem (hn : (slotsOf es).Nodup) (ha : a ∈ es) (hb : b ∈ es) (has : slot ∈ a.slots)
    (hbs : slot ∈ b.slots) : a = b := by
  induction es with
  | nil => cases ha
  | cons e es ih =>
    obtain ⟨-, hes, hdisjoint⟩ := List.nodup_append.1 hn
    rcases List.mem_cons.1 ha with rfl | ha' <;> rcases List.mem_cons.1 hb with rfl | hb'
    · rfl
    · exact absurd rfl (hdisjoint slot has slot (mem_slotsOf_iff.2 ⟨b, hb', hbs⟩))
    · exact absurd rfl (hdisjoint slot hbs slot (mem_slotsOf_iff.2 ⟨a, ha', has⟩))
    · exact ih hes ha' hb'

/-- Where all slots are different, one direct part holds a slot. -/
theorem eq_of_children (h : e.children = .ok es) (hn : e.slots.Nodup) (ha : a ∈ es) (hb : b ∈ es)
    (has : slot ∈ a.slots) (hbs : slot ∈ b.slots) : a = b :=
  eq_of_mem (nodup_of_children h hn).1 ha hb has hbs

/-- Where all slots are different, one part has a slot. -/
theorem coherent_of_nodup (hn : e.slots.Nodup) : e.Coherent := by
  intro d d' slot hd
  induction hd with
  | self =>
    intro hd' hslot hslot'
    cases hd' with
    | self => rfl
    | child he ha hd' =>
      -- the slot of the whole does not stand below it
      refine absurd ?_ ((nodup_of_children he hn).2 slot hslot)
      exact mem_slotsOf_iff.2 ⟨_, ha, hd'.mem_slots hslot'⟩
  | child he ha hd ih =>
    intro hd' hslot hslot'
    cases hd' with
    | self =>
      refine absurd ?_ ((nodup_of_children he hn).2 slot hslot')
      exact mem_slotsOf_iff.2 ⟨_, ha, hd.mem_slots hslot⟩
    | child he' ha' hd' =>
      rw [he] at he'
      cases he'
      cases eq_of_children he hn ha ha' (hd.mem_slots hslot) (hd'.mem_slots hslot')
      exact ih (nodup_of_mem (nodup_of_children he hn).1 ha) hd' hslot hslot'

end DiceNotation.Expr
