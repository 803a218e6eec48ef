import TensorIR.Inference.Context
import TensorIR.Proofs.Fallible
import TensorIR.Proofs.Related

/-!
# Refinement of types

One type refines another if it knows at least as much: it has the same element kind and rank, and
every extent that the other knows. What a shape rule is given and what it infers are ordered
accordingly. A rule is *monotone* if refined inputs lead to a refined answer wherever both answers
exist (`Rule.Monotone`).
-/

namespace TensorIR

/-! ## Types -/

/-- Every extent that is known to `d` is known to `d'`. -/
def Dim.Refines (d d' : Dim) : Prop :=
  ∀ n, d = .known n → d' = .known n

namespace Dim

theorem Refines.refl (d : Dim) : Refines d d := fun _ h => h

theorem refines_dynamic (d : Dim) : Refines .dynamic d := by
  intro n h
  cases h

@[simp] theorem known_refines_iff {n : Nat} {d : Dim} : Refines (.known n) d ↔ d = .known n := by
  constructor
  · intro h
    exact h n rfl
  · rintro rfl
    exact .refl _

/-- A refinement is an equality or replaces a dynamic dimension. -/
theorem Refines.eq_or_dynamic {d d' : Dim} (h : Refines d d') : d' = d ∨ d = .dynamic := by
  cases d with
  | known n => exact .inl (known_refines_iff.1 h)
  | dynamic => exact .inr rfl

theorem refines_iff {d d' : Dim} : Refines d d' ↔ d' = d ∨ d = .dynamic := by
  constructor
  · exact Refines.eq_or_dynamic
  · rintro (rfl | rfl)
    · exact .refl _
    · exact refines_dynamic _

instance : DecidableRel Refines :=
  fun _ _ => decidable_of_iff _ refines_iff.symm

end Dim

/-- Shapes of one rank, refined axis by axis. -/
abbrev DimsRefine (ds ds' : List Dim) : Prop :=
  List.Forall₂ Dim.Refines ds ds'

theorem DimsRefine.refl (ds : List Dim) : DimsRefine ds ds :=
  List.forall₂_same.2 fun d _ => .refl d

/-- A shape without dynamic dimensions has no other refinement. -/
theorem DimsRefine.eq_of_static {ds ds' : List Dim} (h : DimsRefine ds ds')
    (hs : .dynamic ∉ ds) : ds' = ds := by
  induction h with
  | nil => rfl
  | cons hd _ ih =>
    rw [List.mem_cons, not_or] at hs
    rw [ih hs.2]
    congr 1
    exact hd.eq_or_dynamic.resolve_right (Ne.symm hs.1)

/-- Choosing dimensions by their axes, in the same way on both sides. -/
theorem filterMap_zipIdx_refines {ds ds' : List Dim} (h : DimsRefine ds ds')
    {choose : Dim × Nat → Option Dim}
    (hchoose : ∀ d d' axis, d.Refines d' →
      Option.Rel Dim.Refines (choose (d, axis)) (choose (d', axis))) :
    DimsRefine (ds.zipIdx.filterMap choose) (ds'.zipIdx.filterMap choose) := by
  refine List.rel_filterMap ?_ (forall₂_zipIdx h 0)
  rintro ⟨d, axis⟩ ⟨d', axis'⟩ ⟨hd, haxis⟩
  cases haxis
  exact hchoose d d' axis hd

/-- The same element kind, both scalars or both tensors of one rank, and a refined shape. -/
inductive Ty.Refines : Ty → Ty → Prop where
  | scalar (e : Element) : Refines (.scalar e) (.scalar e)
  | tensor (e : Element) {ds ds' : List Dim} (h : DimsRefine ds ds') :
    Refines (.tensor ⟨e, ds⟩) (.tensor ⟨e, ds'⟩)

namespace Ty.Refines

variable {ty ty' : Ty}

theorem refl (ty : Ty) : Refines ty ty := by
  cases ty with
  | scalar e => exact .scalar e
  | tensor t => exact .tensor t.element (.refl t.dims)

theorem dims (h : Refines ty ty') : DimsRefine ty.dims ty'.dims := by
  cases h with
  | scalar e => exact .nil
  | tensor e h => exact h

theorem element (h : Refines ty ty') : ty'.element = ty.element := by
  cases h <;> rfl

theorem tensor_iff {e e' : Element} {ds ds' : List Dim} :
    Refines (.tensor ⟨e, ds⟩) (.tensor ⟨e', ds'⟩) ↔ e' = e ∧ DimsRefine ds ds' := by
  constructor
  · intro h
    exact ⟨h.element, h.dims⟩
  · intro hx
    obtain ⟨rfl, h⟩ := hx
    exact .tensor e' h

instance : DecidableRel Ty.Refines
  | .scalar e, .scalar e' => decidable_of_iff (e' = e) ⟨fun h => h ▸ .scalar e, element⟩
  | .tensor ⟨_, _⟩, .tensor ⟨_, _⟩ => decidable_of_iff _ tensor_iff.symm
  | .scalar _, .tensor _ => .isFalse nofun
  | .tensor _, .scalar _ => .isFalse nofun

end Ty.Refines

/-- The same element kind, where the rule sets one, and a refined shape. -/
structure Component.Refines (c c' : Component) : Prop where
  element : c'.element = c.element
  dims : DimsRefine c.dims c'.dims

/-- Refined components give refined types. -/
theorem Component.Refines.resolve {c c' : Component} {ty ty' : Ty} (hc : c.Refines c')
    (hty : ty.Refines ty') : (c.resolve ty).Refines (c'.resolve ty') := by
  obtain ⟨dims, element⟩ := c
  obtain ⟨dims', element'⟩ := c'
  obtain ⟨rfl, hdims⟩ : element' = element ∧ DimsRefine dims dims' := ⟨hc.element, hc.dims⟩
  cases hty with
  | scalar e =>
    cases hdims with
    | nil => exact .scalar _
    | cons hd hds => exact .tensor _ (.cons hd hds)
  | tensor e h => exact .tensor _ hdims

/-- The same attributes, and operands of refined types. -/
structure Inputs.Refines (i i' : Inputs) : Prop where
  attributes : i'.attributes = i.attributes
  operands : List.Forall₂ (Option.Rel Ty.Refines) i.operands i'.operands

namespace Inputs.Refines

open Fallible (Agree)

variable {i i' : Inputs}

theorem refl (i : Inputs) : Refines i i where
  attributes := rfl
  operands := by
    refine List.forall₂_same.2 fun ty _ => ?_
    cases ty with
    | none => exact .none
    | some ty => exact .some (.refl ty)

theorem operandCount (h : Refines i i') : i'.operandCount = i.operandCount :=
  h.operands.length_eq.symm

theorem operandTy (h : Refines i i') (k : Nat) :
    Agree Ty.Refines (i.operandTy k) (i'.operandTy k) := by
  have hrel := forall₂_getElem? h.operands k
  unfold Inputs.operandTy
  generalize i.operands[k]? = x at hrel
  generalize i'.operands[k]? = x' at hrel
  cases hrel with
  | none => exact .error_left
  | some hrel =>
    cases hrel with
    | none => exact .error_left
    | some hty => exact .ok hty

theorem operandDims (h : Refines i i') (k : Nat) :
    Agree DimsRefine (i.operandDims k) (i'.operandDims k) := by
  have hdims : ∀ {i : Inputs} {ds}, i.operandDims k = .ok ds →
      ∃ e, i.operandTy k = .ok (.tensor ⟨e, ds⟩) := by
    intro i ds hds
    obtain ⟨t, ht, rfl⟩ := Fallible.map_eq_ok_iff.1 hds
    unfold Inputs.operandTensor at ht
    cases hty : i.operandTy k with
    | error e =>
      rw [hty] at ht
      cases ht
    | ok ty =>
      rw [hty] at ht
      cases ty with
      | scalar e => cases ht
      | tensor t' =>
        cases ht
        exact ⟨t.element, rfl⟩
  intro ds ds' hds hds'
  obtain ⟨e, he⟩ := hdims hds
  obtain ⟨e', he'⟩ := hdims hds'
  exact (h.operandTy k _ _ he he').dims

theorem attr_eq {α : Type} (h : Refines i i') : i'.attr (α := α) = i.attr := by
  unfold Inputs.attr
  rw [h.attributes]

theorem attrD_eq {α : Type} (h : Refines i i') : i'.attrD (α := α) = i.attrD := by
  unfold Inputs.attrD
  rw [h.attributes]

theorem attr?_eq {α : Type} (h : Refines i i') : i'.attr? (α := α) = i.attr? := by
  unfold Inputs.attr?
  rw [h.attrD_eq]

end Inputs.Refines

end TensorIR
