import Mathlib.Order.Interval.Finset.Nat
import TensorIR.Proofs.Relay.Axes
import TensorIR.Proofs.Relay.Products

/-!
# New axes are taken away again

`expand_dims` puts axes of extent 1 side by side (`expandedShape`), so their positions make up an
interval. `squeeze` with any list that names this interval gives the operand back
(`squeezeDims_expandedShape`), even if there are open extents, or more extents of 1 beside the new
ones. Without a list it takes away all extents of 1, new ones and others, so that nothing is left to
take away (`squeeze_expand`).
-/

namespace TensorIR.Relay

variable {i : Inputs} {dims : List Dim} {axis : Int} {k n : Nat}

/-! ## Putting axes in -/

/-- An operation that puts in `count` axes at `axis`, as its attributes ask for it. -/
structure Expands (i : Inputs) (dims : List Dim) (axis count : Int) : Prop where
  operand : i.operandDims 0 = .ok dims
  axis : i.attr Attr.toInt "axis" = .ok axis
  count : i.attrD Attr.toInt "num_newaxis" 1 = .ok count

/-- The shape with `n` axes of extent 1 in front of the axis at position `k`. -/
def expandedShape (dims : List Dim) (k n : Nat) : List Dim :=
  dims.take k ++ List.replicate n (.known 1) ++ dims.drop k

theorem length_expandedShape (hk : k ≤ dims.length) (n : Nat) :
    (expandedShape dims k n).length = dims.length + n := by
  simp only [expandedShape, List.length_append, List.length_take, List.length_replicate,
    List.length_drop]
  omega

theorem expandDims_eq (hrank : dims.length + n ≤ maxRank) (k : Nat) :
    expandDims dims k n = .ok (expandedShape dims k n) := by
  unfold expandDims
  rw [if_neg (by omega), if_neg (by omega), Int.toNat_natCast, expandedShape]

theorem Expands.infers (h : Expands i dims axis n) (hrank : dims.length + n ≤ maxRank)
    (hplace : fromFront (dims.length + 1) axis = k) (hk : k ≤ dims.length) :
    expand i = .ok (single (expandedShape dims k n)) := by
  have hposition : normalizeAxis axis (dims.length + 1) = .ok k :=
    normalizeAxis_eq_ok_iff.2 ⟨hplace, Nat.lt_succ_of_le hk⟩
  unfold expand
  simp only [Fallible.bind_eq_ok_iff, Defect.lift, Fallible.mapError_eq_ok_iff]
  exact ⟨dims, h.operand, axis, h.axis, k, hposition, n, h.count, _, expandDims_eq hrank k, rfl⟩

/-! ## Taking them away -/

/-- Nothing is taken away where no position is chosen. -/
theorem filterMap_zipIdx_of_notMem {s : Finset Nat} (ds : List Dim) (start : Nat)
    (h : ∀ p, start ≤ p → p < start + ds.length → p ∉ s) :
    ((ds.zipIdx start).filterMap fun p => if p.2 ∈ s then none else some p.1) = ds := by
  have hkeep : ∀ p ∈ ds.zipIdx start, (if p.2 ∈ s then none else some p.1) = some p.1 := by
    intro p hp
    have hle := List.le_snd_of_mem_zipIdx hp
    have hlt := List.snd_lt_of_mem_zipIdx hp
    rw [if_neg (h p.2 hle (by omega))]
  rw [List.filterMap_eq_map_iff_forall_eq_some.2 hkeep, List.zipIdx_map_fst]

theorem dropAxes_expandedShape (hk : k ≤ dims.length) (n : Nat) :
    dropAxes (expandedShape dims k n) (Finset.Ico k (k + n)) = dims := by
  have htake : (dims.take k).length = k := List.length_take_of_le hk
  -- three parts: no position in front or behind is in the interval, and all between are
  have hfront := filterMap_zipIdx_of_notMem (s := Finset.Ico k (k + n)) (dims.take k) 0
    fun p _ hlt => by
      rw [Finset.mem_Ico]
      omega
  have hback := filterMap_zipIdx_of_notMem (s := Finset.Ico k (k + n)) (dims.drop k) (k + n)
    fun p hle _ => by
      rw [Finset.mem_Ico]
      omega
  have hnew : (((List.replicate n (Dim.known 1)).zipIdx k).filterMap fun p =>
      if p.2 ∈ Finset.Ico k (k + n) then none else some p.1) = [] := by
    refine List.filterMap_eq_nil_iff.2 fun p hp => if_pos (Finset.mem_Ico.2 ?_)
    have hlt := List.snd_lt_of_mem_zipIdx hp
    rw [List.length_replicate] at hlt
    exact ⟨List.le_snd_of_mem_zipIdx hp, by omega⟩
  rw [dropAxes, expandedShape, List.zipIdx_append, List.zipIdx_append, List.filterMap_append,
    List.filterMap_append, hfront, List.length_append, htake, List.length_replicate, Nat.zero_add,
    Nat.zero_add, hnew, hback, List.append_nil, List.take_append_drop]

/-- Along the new axes the extent is 1. -/
theorem getElem?_expandedShape (hk : k ≤ dims.length) {p : Nat} (hp : p ∈ Finset.Ico k (k + n)) :
    (expandedShape dims k n)[p]? = some (.known 1) := by
  rw [Finset.mem_Ico] at hp
  have htake : (dims.take k).length = k := List.length_take_of_le hk
  rw [expandedShape, List.getElem?_append_left, List.getElem?_append_right, htake,
    List.getElem?_replicate, if_pos (by omega)]
  · omega
  · rw [List.length_append, htake, List.length_replicate]
    omega

theorem squeezeDims_expandedShape {axes : List Int} (hk : k ≤ dims.length)
    (hrange : InRange (dims.length + n) axes)
    (hset : namedAxes (dims.length + n) axes = Finset.Ico k (k + n)) :
    squeezeDims (expandedShape dims k n) (some axes) = .ok dims := by
  rw [← length_expandedShape hk n] at hrange hset
  rw [squeezeDims_listed hrange, hset, dropAxes_expandedShape hk]
  intro p hp m hm
  rw [getElem?_expandedShape hk (hset ▸ hp)] at hm
  cases hm
  rfl

/-! ## All extents of 1 -/

theorem dynamic_notMem_expandedShape (h : .dynamic ∉ dims) (k n : Nat) :
    .dynamic ∉ expandedShape dims k n := by
  simp only [expandedShape, List.mem_append, List.mem_replicate, not_or]
  exact ⟨⟨fun hd => h (List.mem_of_mem_take hd), by simp⟩, fun hd => h (List.mem_of_mem_drop hd)⟩

/-- Of the new extents nothing is left, and the others stand as before. -/
theorem filter_expandedShape (dims : List Dim) (k n : Nat) :
    (expandedShape dims k n).filter (· ≠ .known 1) = dims.filter (· ≠ .known 1) := by
  have hnew : (List.replicate n (Dim.known 1)).filter (· ≠ .known 1) = [] := by
    simp
  rw [expandedShape, List.filter_append, List.filter_append, hnew, List.append_nil,
    ← List.filter_append, List.take_append_drop]

theorem rule?_expand : registry.rule? "relay.expand_dims" = some (ShapeRule.ofInputs expand) :=
  rule?_of_mem (o := operator "expand_dims" .injective (.ofInputs expand)) (by simp [operators])

/-- **Squeezing undoes expanding.** Axes of extent 1 can be put in at every place of every shape, up
to the greatest rank, and `squeeze` gives the operand back if its list names just these axes, in any
order and from either end. Without a list, and with no open extent, `squeeze` leaves the extents
other than 1 in their order, whether axes have been put in before or not, and leaves these as they
are when it is applied again. -/
theorem squeeze_expand (dims : List Dim) :
    (registry.rule? "relay.expand_dims" = some (ShapeRule.ofInputs expand) ∧
      registry.rule? "relay.squeeze" = some (ShapeRule.ofInputs squeeze)) ∧
    (∀ (i : Inputs) (axis : Int) (n : Nat), Expands i dims axis n →
      -(dims.length + 1 : Int) ≤ axis → axis ≤ dims.length → dims.length + n ≤ maxRank →
      ∃ (k : Nat) (out : List Dim), (fromFront (dims.length + 1) axis = k ∧ k ≤ dims.length) ∧
        expand i = .ok (single out) ∧ out.length = dims.length + n ∧
        (∀ j axes, Squeezes j out (some axes) → InRange out.length axes →
          namedAxes out.length axes = Finset.Ico k (k + n) → squeeze j = .ok (single dims)) ∧
        (DimsStatic dims → ∀ j j', Squeezes j dims none → Squeezes j' out none →
          squeeze j' = squeeze j)) ∧
    (DimsStatic dims → ∀ j, Squeezes j dims none →
      ∃ rest, squeeze j = .ok (single rest) ∧ rest = dims.filter (· ≠ .known 1) ∧
        ∀ j', Squeezes j' rest none → squeeze j' = .ok (single rest)) := by
  refine ⟨⟨rule?_expand, rule?_squeeze⟩, fun i axis n h hlow hhigh hrank => ?_,
    fun hstatic j hj => ?_⟩
  · have hrange : -((dims.length + 1 : Nat) : Int) ≤ axis ∧ axis < (dims.length + 1 : Nat) := by
      omega
    obtain ⟨k, hk, hplace⟩ := exists_fromFront hrange
    have hk := Nat.le_of_lt_succ hk
    have hlength := length_expandedShape hk n
    refine ⟨k, expandedShape dims k n, ⟨hplace, hk⟩, h.infers hrank hplace hk, hlength,
      fun j axes hj hrange hset => ?_, fun hstatic j j' hj hj' => ?_⟩
    · rw [hlength] at hrange hset
      exact hj.infers (squeezeDims_expandedShape hk hrange hset)
    · have hopen := dimsStatic_iff.1 hstatic
      have hexpanded := squeezeDims_all (dynamic_notMem_expandedShape hopen k n)
      rw [filter_expandedShape] at hexpanded
      rw [hj.infers (squeezeDims_all hopen), hj'.infers hexpanded]
  · have hopen := dimsStatic_iff.1 hstatic
    refine ⟨_, hj.infers (squeezeDims_all hopen), rfl, fun j' hj' => ?_⟩
    have hopen' : .dynamic ∉ dims.filter (· ≠ .known 1) :=
      fun hd => hopen (List.mem_of_mem_filter hd)
    have hagain := squeezeDims_all hopen'
    rw [List.filter_filter] at hagain
    simp only [Bool.and_self] at hagain
    exact hj'.infers hagain

/-- Two axes beside an extent of 1 and an open one, put in from the back and taken away from both
ends; and two axes behind a static shape. -/
theorem squeeze_expand_beside :
    let ty (dims : List Dim) : Option Ty := some (.tensor ⟨.f32, dims⟩)
    let expanded (dims : List Dim) (axis : Int) : Inputs :=
      ⟨[ty dims], StringMap.ofList [("axis", .int axis), ("num_newaxis", .int 2)]⟩
    let squeezed (dims : List Dim) : Inputs := ⟨[ty dims], ∅⟩
    let mixed : List Dim := [.dynamic, .known 1, .known 3]
    let wide : List Dim := [.dynamic, .known 1, .known 1, .known 1, .known 3]
    let static : List Dim := [.known 1, .known 3, .known 1, .known 2]
    let longer : List Dim := [.known 1, .known 3, .known 1, .known 2, .known 1, .known 1]
    let rest : List Dim := [.known 3, .known 2]
    (expand (expanded mixed (-2)) = .ok (single wide) ∧
      squeeze ⟨[ty wide], StringMap.ofList [("axis", .ints [-2, 2])]⟩ = .ok (single mixed)) ∧
    expand (expanded static 4) = .ok (single longer) ∧
      squeeze (squeezed static) = .ok (single rest) ∧
      squeeze (squeezed longer) = squeeze (squeezed static) ∧
      squeeze (squeezed rest) = .ok (single rest) := by
  intro ty expanded squeezed mixed wide static longer rest
  have hexpands : ∀ dims axis, Expands (expanded dims axis) dims axis (2 : Nat) := by
    intro dims axis
    constructor
    · rfl
    all_goals
      simp [expanded, Inputs.attr, Inputs.attrD, StringMap.ofList, Attr.toInt, Except.mapError]
  have hsqueezed : ∀ dims, Squeezes (squeezed dims) dims none := fun dims => ⟨rfl, rfl⟩
  have hstatic : DimsStatic static := dimsStatic_iff.2 (by decide)
  have hwide : expand (expanded mixed (-2)) = .ok (single wide) := by decide +kernel
  have hlonger : expand (expanded static 4) = .ok (single longer) := by decide +kernel
  refine ⟨⟨hwide, ?_⟩, hlonger, ?_⟩
  · obtain ⟨k, out, ⟨hk, -⟩, hout, -, hback, -⟩ := (squeeze_expand mixed).2.1 _ _ 2
      (hexpands mixed (-2)) (by decide) (by decide) (by decide)
    cases hwide.symm.trans hout
    cases Int.ofNat.inj hk
    exact hback _ [-2, 2] ⟨rfl, rfl⟩ (by decide) (by decide)
  · obtain ⟨k, out, -, hout, -, -, hsame⟩ := (squeeze_expand static).2.1 _ _ 2
      (hexpands static 4) (by decide) (by decide) (by decide)
    cases hlonger.symm.trans hout
    obtain ⟨left, hleft, hfilter, hagain⟩ :=
      (squeeze_expand static).2.2 hstatic _ (hsqueezed static)
    have hrest : left = rest := hfilter.trans (by decide)
    subst hrest
    exact ⟨hleft, hsame hstatic _ _ (hsqueezed static) (hsqueezed longer), hagain _ (hsqueezed _)⟩

end TensorIR.Relay
