import Mathlib.Data.Finset.Filter
import Mathlib.Data.Finset.Range
import Mathlib.Data.List.Basic
import TensorIR.Proofs.Fallible
import TensorIR.Proofs.Relay.Operators

/-!
# The axes that a list names

An axis has two names, one counted from the front and one from the back, and a list may name it more
than once. What the rules make of a list depends on the set of positions alone (`namedAxes`), as
long as every entry names an axis (`exists_positions`). So `squeeze` with a list of axes takes away
the axes of a set (`squeezeDims_listed`), and without one those of extent 1 (`squeezeDims_all`).
-/

namespace TensorIR.Relay

variable {rank : Nat} {axes : List Int} {dims : List Dim}

/-! ## Positions -/

/-- An axis counted from the front. It is the position of an axis only if it is less than the rank
and not negative any more. -/
def fromFront (rank : Nat) (axis : Int) : Int :=
  if axis < 0 then axis + rank else axis

theorem normalizeAxis_eq_ok_iff {axis : Int} {k : Nat} :
    normalizeAxis axis rank = .ok k ↔ fromFront rank axis = k ∧ k < rank := by
  change (if fromFront rank axis < 0 ∨ (rank : Int) ≤ fromFront rank axis then
    Except.error (Defect.axisOutOfRange axis rank) else .ok (fromFront rank axis).toNat) = .ok k ↔ _
  generalize fromFront rank axis = place
  split
  · refine iff_of_false (by simp) ?_
    omega
  · rw [Except.ok.injEq]
    omega

theorem normalizeAxes_eq_ok_iff {ks : List Nat} :
    normalizeAxes axes rank = .ok ks ↔
      axes.map (fromFront rank) = ks.map (fun k : Nat => (k : Int)) ∧ ∀ k ∈ ks, k < rank := by
  rw [normalizeAxes, Fallible.mapM_eq_ok_iff]
  simp only [normalizeAxis_eq_ok_iff]
  induction axes generalizing ks with
  | nil => cases ks <;> simp
  | cons axis axes ih =>
    cases ks with
    | nil => simp
    | cons k ks =>
      rw [List.forall₂_cons, ih, List.map_cons, List.map_cons, List.cons.injEq,
        List.forall_mem_cons, and_and_and_comm]

/-- Every entry names an axis of a shape of this rank, from the front or from the back. -/
def InRange (rank : Nat) (axes : List Int) : Prop :=
  ∀ axis ∈ axes, -(rank : Int) ≤ axis ∧ axis < rank

instance (rank : Nat) (axes : List Int) : Decidable (InRange rank axes) :=
  inferInstanceAs (Decidable (∀ axis ∈ axes, _ ∧ _))

theorem exists_fromFront {axis : Int} (h : -(rank : Int) ≤ axis ∧ axis < rank) :
    ∃ k < rank, fromFront rank axis = k := by
  refine ⟨(fromFront rank axis).toNat, ?_, ?_⟩ <;>
  · unfold fromFront
    split <;> omega

/-- The positions of the axes that are listed. -/
def namedAxes (rank : Nat) (axes : List Int) : Finset Nat :=
  (Finset.range rank).filter fun k => (k : Int) ∈ axes.map (fromFront rank)

theorem mem_namedAxes {k : Nat} :
    k ∈ namedAxes rank axes ↔ k < rank ∧ ∃ axis ∈ axes, fromFront rank axis = k := by
  simp [namedAxes]

/-- Axes that are found one by one, each at its position, are found at the positions that the list
names. -/
theorem exists_positions {find : Int → Except Defect Nat} (hrange : InRange rank axes)
    (hfind : ∀ axis ∈ axes, ∀ k < rank, fromFront rank axis = k → find axis = .ok k) :
    ∃ ks, axes.mapM find = .ok ks ∧ ∀ k, k ∈ ks ↔ k ∈ namedAxes rank axes := by
  induction axes with
  | nil => exact ⟨[], rfl, by simp [mem_namedAxes]⟩
  | cons axis axes ih =>
    obtain ⟨haxis, hrange⟩ := List.forall_mem_cons.1 hrange
    obtain ⟨hhere, hfind⟩ := List.forall_mem_cons.1 hfind
    obtain ⟨k, hk, hplace⟩ := exists_fromFront haxis
    obtain ⟨ks, hks, hmem⟩ := ih hrange hfind
    refine ⟨k :: ks, ?_, fun k' => ?_⟩
    · rw [List.mapM_cons, hhere k hk hplace, hks]
      rfl
    · have hhead : k' = k ↔ k' < rank ∧ fromFront rank axis = k' := by omega
      rw [List.mem_cons, hmem, mem_namedAxes, mem_namedAxes, hhead, List.exists_mem_cons_iff,
        and_or_left]

/-! ## Shapes -/

/-- The shape without the axes at some positions. -/
def dropAxes (dims : List Dim) (s : Finset Nat) : List Dim :=
  dims.zipIdx.filterMap fun p => if p.2 ∈ s then none else some p.1

/-- The shape with extent 1 along the axes at some positions. -/
def unitAxes (dims : List Dim) (s : Finset Nat) : List Dim :=
  dims.zipIdx.map fun p => if p.2 ∈ s then .known 1 else p.1

theorem length_unitAxes (dims : List Dim) (s : Finset Nat) :
    (unitAxes dims s).length = dims.length := by
  simp [unitAxes]

theorem getElem?_unitAxes {s : Finset Nat} {k : Nat} (hk : k ∈ s) (hlt : k < dims.length) :
    (unitAxes dims s)[k]? = some (.known 1) := by
  simp [unitAxes, hk, hlt]

/-- It makes no difference what the extents are that are taken away. -/
theorem dropAxes_unitAxes (dims : List Dim) (s : Finset Nat) :
    dropAxes (unitAxes dims s) s = dropAxes dims s := by
  have hplaces : (unitAxes dims s).zipIdx =
      dims.zipIdx.map fun p => (if p.2 ∈ s then .known 1 else p.1, p.2) := by
    refine List.ext_getElem? fun k => ?_
    simp [unitAxes, Function.comp_def]
  rw [dropAxes, hplaces, List.filterMap_map, dropAxes]
  refine List.filterMap_congr fun p _ => ?_
  by_cases hp : p.2 ∈ s <;> simp [hp]

/-! ## Taking axes away -/

/-- An axis can be taken away unless its extent is known to be another one than 1. -/
theorem unitAxis_of_fromFront {axis : Int} {k : Nat} (hk : k < dims.length)
    (hplace : fromFront dims.length axis = k)
    (hunit : ∀ n, dims[k]? = some (.known n) → n = 1) : unitAxis dims axis = .ok k := by
  unfold unitAxis
  refine Fallible.bind_eq_ok_iff.2 ⟨k, normalizeAxis_eq_ok_iff.2 ⟨hplace, hk⟩, ?_⟩
  split
  · next n hn =>
    rw [if_pos (hunit n hn)]
    rfl
  · rfl

theorem squeezeDims_listed (hrange : InRange dims.length axes)
    (hunits : ∀ k ∈ namedAxes dims.length axes, ∀ n, dims[k]? = some (.known n) → n = 1) :
    squeezeDims dims (some axes) = .ok (dropAxes dims (namedAxes dims.length axes)) := by
  have hfind : ∀ axis ∈ axes, ∀ k < dims.length, fromFront dims.length axis = k →
      unitAxis dims axis = .ok k := by
    intro axis haxis k hk hplace
    have hnamed : k ∈ namedAxes dims.length axes := mem_namedAxes.2 ⟨hk, axis, haxis, hplace⟩
    exact unitAxis_of_fromFront hk hplace (hunits k hnamed)
  obtain ⟨removed, hremoved, hmem⟩ := exists_positions hrange hfind
  unfold squeezeDims
  refine Fallible.bind_eq_ok_iff.2 ⟨removed, hremoved, ?_⟩
  refine congrArg Except.ok (List.filterMap_congr fun p _ => ?_)
  simp [hmem]

theorem squeezeDims_all (h : .dynamic ∉ dims) :
    squeezeDims dims none = .ok (dims.filter (· ≠ .known 1)) := by
  unfold squeezeDims
  rw [if_neg (by simpa using h)]
  refine congrArg Except.ok (List.filter_congr fun d _ => Bool.eq_iff_iff.2 ?_)
  simp

/-- An operation that takes axes of its operand away: the listed ones, or all of extent 1. -/
structure Squeezes (i : Inputs) (dims : List Dim) (axes : Option (List Int)) : Prop where
  operand : i.operandDims 0 = .ok dims
  axes : i.attr? Attr.toInts "axis" = .ok axes

theorem Squeezes.infers {i : Inputs} {axes : Option (List Int)} {out : List Dim}
    (h : Squeezes i dims axes) (hout : squeezeDims dims axes = .ok out) :
    squeeze i = .ok (single out) := by
  unfold squeeze
  rw [h.operand, h.axes]
  change (Defect.lift (squeezeDims dims axes) >>= fun out => .ok (single out)) = _
  rw [hout]
  rfl

theorem rule?_squeeze : registry.rule? "relay.squeeze" = some (ShapeRule.ofInputs squeeze) :=
  rule?_of_mem (o := operator "squeeze" .injective (.ofInputs squeeze)) (by simp [operators])

end TensorIR.Relay
