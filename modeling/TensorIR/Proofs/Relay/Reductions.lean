import Mathlib.Data.Finset.SDiff
import TensorIR.Proofs.Relay.Axes

/-!
# What reductions leave

A reduction with a list of axes reduces a set of positions (`reducedAxes`): those that the list
names, or all others. The axes at these positions are taken away, or stay with extent 1
(`Reduces.infers`). Since `squeeze` takes axes of extent 1 away, nothing is lost by keeping them
first (`reduction_axisSet`).
-/

namespace TensorIR.Relay

variable {i : Inputs} {dims : List Dim} {axes : List Int} {keep exclude : Bool}

/-- A reduction by listed axes, as its attributes ask for it. -/
structure Reduces (i : Inputs) (dims : List Dim) (axes : List Int) (keep exclude : Bool) :
    Prop where
  operand : i.operandDims 0 = .ok dims
  axes : i.attr? Attr.toInts "axis" = .ok (some axes)
  keepdims : i.attrD Attr.toBool "keepdims" false = .ok keep
  exclude : i.attrD Attr.toBool "exclude" false = .ok exclude

/-- The positions of the axes to reduce: the listed ones, or all but these. -/
def reducedAxes (rank : Nat) (axes : List Int) (exclude : Bool) : Finset Nat :=
  if exclude then Finset.range rank \ namedAxes rank axes else namedAxes rank axes

theorem mem_reducedAxes {rank k : Nat} (hk : k < rank) :
    k ∈ reducedAxes rank axes exclude ↔ (decide (k ∈ namedAxes rank axes) != exclude) = true := by
  cases exclude <;> simp [reducedAxes, hk]

/-- The shape after reducing the axes at some positions. -/
def reducedShape (dims : List Dim) (s : Finset Nat) (keep : Bool) : List Dim :=
  if keep then unitAxes dims s else dropAxes dims s

theorem reduceDims_eq {reduced : Nat → Bool} {s : Finset Nat}
    (h : ∀ k < dims.length, k ∈ s ↔ reduced k = true) (keep : Bool) :
    reduceDims dims reduced keep = reducedShape dims s keep := by
  have hplace : ∀ p ∈ dims.zipIdx, p.2 ∈ s ↔ reduced p.2 = true :=
    fun p hp => h p.2 (List.snd_lt_of_mem_zipIdx hp)
  unfold reduceDims reducedShape
  cases keep with
  | false =>
    refine List.filterMap_congr fun p hp => ?_
    simp [hplace p hp]
  | true =>
    refine List.filterMap_eq_map_iff_forall_eq_some.2 fun p hp => ?_
    by_cases hreduced : reduced p.2 = true <;> simp [hplace p hp, hreduced]

theorem Reduces.infers (h : Reduces i dims axes keep exclude) (hrange : InRange dims.length axes) :
    reduction i = .ok (single (reducedShape dims (reducedAxes dims.length axes exclude) keep)) := by
  obtain ⟨listed, hlisted, hmem⟩ := exists_positions hrange fun axis _ k hk hplace =>
    normalizeAxis_eq_ok_iff.2 ⟨hplace, hk⟩
  have hreduced : ∀ k < dims.length, k ∈ reducedAxes dims.length axes exclude ↔
      (listed.contains k != exclude) = true := by
    intro k hk
    simp [mem_reducedAxes hk, ← hmem]
  unfold reduction
  simp only [Fallible.bind_eq_ok_iff]
  refine ⟨dims, h.operand, keep, h.keepdims, exclude, h.exclude, some axes, h.axes, ?_⟩
  refine Fallible.bind_eq_ok_iff.2 ⟨listed, Fallible.mapError_eq_ok_iff.2 hlisted, ?_⟩
  rw [reduceDims_eq hreduced]
  rfl

theorem rule?_reduction {base : String} (h : base ∈ ["sum", "mean", "max"]) :
    registry.rule? (dialectName ++ "." ++ base) = some (ShapeRule.ofInputs reduction) := by
  have hmem : operator base .reduction (.ofInputs reduction) ∈ operators := by
    simp only [List.mem_cons, List.not_mem_nil, or_false] at h
    rcases h with rfl | rfl | rfl <;> simp [operators]
  exact rule?_of_mem (o := operator base .reduction (.ofInputs reduction)) hmem

theorem squeezeDims_unitAxes {s : Finset Nat} (hrange : InRange dims.length axes)
    (hs : namedAxes dims.length axes = s) :
    squeezeDims (unitAxes dims s) (some axes) = .ok (dropAxes dims s) := by
  rw [← length_unitAxes dims s] at hrange hs
  rw [squeezeDims_listed hrange, hs, dropAxes_unitAxes]
  intro k hk n hn
  have hlt : k < dims.length := by
    rw [← length_unitAxes dims s]
    exact (mem_namedAxes.1 hk).1
  rw [getElem?_unitAxes (hs ▸ hk) hlt] at hn
  cases hn
  rfl

/-- **Reductions go by sets of axes.** A reduction by listed axes, all of them in range, infers the
operand's shape with the axes to reduce taken away, or kept with extent 1. So it infers the same for
every list that names the same axes; to exclude the listed axes is to reduce all others; and
`squeeze` takes the axes that were kept away again, whichever list names them, and leaves what the
reduction leaves without them. -/
theorem reduction_axisSet {dims : List Dim} {axes : List Int} (hrange : InRange dims.length axes) :
    (∀ base ∈ ["sum", "mean", "max"],
      registry.rule? (dialectName ++ "." ++ base) = some (ShapeRule.ofInputs reduction)) ∧
    registry.rule? "relay.squeeze" = some (ShapeRule.ofInputs squeeze) ∧
    (∀ i keep exclude, Reduces i dims axes keep exclude →
      reduction i = .ok (single (reducedShape dims (reducedAxes dims.length axes exclude) keep)) ∧
      ∀ i' axes', Reduces i' dims axes' keep exclude → InRange dims.length axes' →
        namedAxes dims.length axes' = namedAxes dims.length axes → reduction i' = reduction i) ∧
    (∀ i i' axes' keep, Reduces i dims axes keep true → Reduces i' dims axes' keep false →
      InRange dims.length axes' →
      namedAxes dims.length axes' = Finset.range dims.length \ namedAxes dims.length axes →
      reduction i' = reduction i) ∧
    ∀ i i' exclude, Reduces i dims axes true exclude → Reduces i' dims axes false exclude →
      ∃ kept out, reduction i = .ok (single kept) ∧ kept.length = dims.length ∧
        reduction i' = .ok (single out) ∧
        ∀ j axes', Squeezes j kept (some axes') → InRange dims.length axes' →
          namedAxes dims.length axes' = reducedAxes dims.length axes exclude →
          squeeze j = .ok (single out) := by
  refine ⟨fun base hbase => rule?_reduction hbase, rule?_squeeze, fun i keep exclude h => ?_,
    fun i i' axes' keep h h' hrange' hset => ?_, fun i i' exclude h h' => ?_⟩
  · refine ⟨h.infers hrange, fun i' axes' h' hrange' hset => ?_⟩
    rw [h.infers hrange, h'.infers hrange', reducedAxes, reducedAxes, hset]
  · rw [h.infers hrange, h'.infers hrange', reducedAxes, hset]
    rfl
  · refine ⟨_, _, h.infers hrange, length_unitAxes _ _, h'.infers hrange,
      fun j axes' hj hrange' hset => ?_⟩
    exact hj.infers (squeezeDims_unitAxes hrange' hset)

/-- Two axes, one of them open and one named from both ends: in another order, by excluding the
other two, and with the axes kept first and taken away then. -/
theorem reduction_axisSet_open :
    let dims : List Dim := [.known 2, .dynamic, .known 3, .known 5]
    let request (axes : List Int) (keep exclude : Bool) : Inputs :=
      ⟨[some (.tensor ⟨.f32, dims⟩)], StringMap.ofList
        [("axis", .ints axes), ("keepdims", .bool keep), ("exclude", .bool exclude)]⟩
    let kept : List Dim := [.known 2, .known 1, .known 3, .known 1]
    let squeezed : Inputs :=
      ⟨[some (.tensor ⟨.f32, kept⟩)], StringMap.ofList [("axis", .ints [-1, 1])]⟩
    InRange 4 [3, 1, -1] ∧
      reduction (request [3, 1, -1] true false) = .ok (single kept) ∧
      reduction (request [-3, -1] true false) = reduction (request [3, 1, -1] true false) ∧
      reduction (request [-2, 0] false false) = reduction (request [3, 1, -1] false true) ∧
      reduction (request [3, 1, -1] false false) = .ok (single [.known 2, .known 3]) ∧
      squeeze squeezed = .ok (single [.known 2, .known 3]) := by
  intro dims request kept squeezed
  have hrequest : ∀ axes keep exclude,
      Reduces (request axes keep exclude) dims axes keep exclude := by
    intro axes keep exclude
    constructor
    · rfl
    all_goals
      simp [request, Inputs.attr?, Inputs.attrD, StringMap.ofList, Attr.toInts, Attr.toBool,
        Except.map, Except.mapError]
  have hrange : InRange dims.length [3, 1, -1] := by decide
  obtain ⟨-, -, hsame, hexclude, hsqueeze⟩ := reduction_axisSet hrange
  have hkept := (hsame _ _ _ (hrequest [3, 1, -1] true false)).1
  have hout := (hsame _ _ _ (hrequest [3, 1, -1] false false)).1
  refine ⟨hrange, hkept, ?_, ?_, hout, ?_⟩
  · exact (hsame _ _ _ (hrequest _ _ _)).2 _ _ (hrequest [-3, -1] true false) (by decide)
      (by decide)
  · exact hexclude _ _ _ _ (hrequest _ _ _) (hrequest [-2, 0] false false) (by decide) (by decide)
  · obtain ⟨kept', out, hkept', -, hout', hagain⟩ :=
      hsqueeze _ _ false (hrequest _ _ _) (hrequest _ _ _)
    cases hkept.symm.trans hkept'
    cases hout.symm.trans hout'
    exact hagain squeezed [-1, 1] ⟨rfl, rfl⟩ (by decide) (by decide)

end TensorIR.Relay
