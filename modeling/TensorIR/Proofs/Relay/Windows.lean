import Mathlib.Data.Set.Card
import TensorIR.Proofs.Func.History
import TensorIR.Proofs.Machine.Inputs
import TensorIR.Proofs.Relay.Operators

/-!
# Where windows stop

A window fails to have an output extent only if it, or the padded axis, is too large for 64 bits, or
if it does not fit on the axis: every check on the way is implied by one of these
(`outputExtent_eq`). Otherwise the extent is the number of places where the window fits or, rounded
up, the least number of places at which it gets to the end of the axis (`outputDim_exact`).

Rounding up adds a place at which a part of the window may lie behind the axis. If the stride is
larger than the window, all of it may (`Overshoots`), and in no other case does a place of pooling
lie outside (`pool_inside_iff`).
-/

namespace TensorIR.Relay

/-! ## Checks in a row -/

/-- A number that must fit in 64 bits. -/
def fitting (n : Nat) : Except Defect Nat :=
  if n < extentLimit then .ok n else .error .overflow

theorem fitting_of_lt {n : Nat} (h : n < extentLimit) : fitting n = .ok n :=
  if_pos h

theorem fitting_of_le {n : Nat} (h : extentLimit ≤ n) : fitting n = .error .overflow :=
  if_neg (Nat.not_lt.2 h)

/-- A check of a number that can only grow is implied by the check of the final number. -/
theorem fitting_bind_fitting {m : Nat} {next : Nat → Nat} (h : m ≤ next m) :
    (fitting m >>= fun r => fitting (next r)) = fitting (next m) := by
  rcases Nat.lt_or_ge m extentLimit with hlt | hge
  · rw [fitting_of_lt hlt]
    rfl
  · rw [fitting_of_le hge, fitting_of_le (Nat.le_trans hge h)]
    rfl

namespace Window

variable {w : Window} {input n : Nat}

/-- The number of places that the window covers, from its first element to its last. -/
def effective (w : Window) : Nat :=
  w.dilation * (w.size - 1) + 1

/-- The extent of the axis with its padding. -/
def padded (w : Window) (input : Nat) : Nat :=
  input + w.before + w.after

/-- The number of steps that the window makes along a span. -/
def steps (w : Window) (span : Nat) : Nat :=
  if w.ceil then (span + w.stride - 1) / w.stride else span / w.stride

/-- Only the final extents of the window and of the axis need to fit. -/
theorem outputExtent_eq (hsize : w.size ≠ 0) (input : Nat) :
    w.outputExtent input = do
      let effective ← fitting w.effective
      let padded ← fitting (w.padded input)
      if padded < effective then .error (.windowTooLarge effective padded)
      else return w.steps (padded - effective) + 1 := by
  have heffective : (fitting (w.dilation * (w.size - 1)) >>= fun reach => fitting (reach + 1)) =
      fitting w.effective :=
    fitting_bind_fitting (Nat.le_succ _)
  have hpadded : (fitting (input + w.before) >>= fun front => fitting (front + w.after)) =
      fitting (w.padded input) :=
    fitting_bind_fitting (Nat.le_add_right _ _)
  unfold outputExtent
  rw [if_neg hsize, ← heffective, ← hpadded]
  simp only [bind_assoc]
  rfl

theorem outputExtent_eq_ok_iff (hsize : w.size ≠ 0) :
    w.outputExtent input = .ok n ↔
      (w.effective < extentLimit ∧ w.padded input < extentLimit ∧
        w.effective ≤ w.padded input) ∧
      n = w.steps (w.padded input - w.effective) + 1 := by
  rw [outputExtent_eq hsize]
  simp only [Fallible.bind_eq_ok_iff]
  constructor
  · rintro ⟨effective, heffective, padded, hpadded, h⟩
    unfold fitting at heffective hpadded
    split at heffective
    case isFalse => cases heffective
    split at hpadded
    case isFalse => cases hpadded
    cases heffective
    cases hpadded
    split at h
    · cases h
    · cases h
      exact ⟨⟨‹_›, ‹_›, by omega⟩, rfl⟩
  · rintro ⟨⟨heffective, hpadded, hle⟩, rfl⟩
    exact ⟨_, fitting_of_lt heffective, _, fitting_of_lt hpadded, if_neg (by omega)⟩

theorem outputExtent_eq_overflow_iff (hsize : w.size ≠ 0) :
    w.outputExtent input = .error .overflow ↔
      extentLimit ≤ w.effective ∨ extentLimit ≤ w.padded input := by
  rw [outputExtent_eq hsize]
  rcases Nat.lt_or_ge w.effective extentLimit with heffective | heffective
  · rw [fitting_of_lt heffective]
    rcases Nat.lt_or_ge (w.padded input) extentLimit with hpadded | hpadded
    · rw [fitting_of_lt hpadded]
      refine iff_of_false ?_ (by omega)
      change ¬(if w.padded input < w.effective then _ else _) = _
      split <;> rintro ⟨⟩
    · rw [fitting_of_le hpadded]
      exact iff_of_true rfl (.inr hpadded)
  · rw [fitting_of_le heffective]
    exact iff_of_true rfl (.inl heffective)

theorem outputDim_known_eq_ok_iff {d : Dim} :
    w.outputDim (.known input) = .ok d ↔ ∃ n, w.outputExtent input = .ok n ∧ .known n = d :=
  Fallible.map_eq_ok_iff

/-! ## Steps -/

theorem le_steps_iff (hstride : 0 < w.stride) (hceil : w.ceil = false) {k span : Nat} :
    k ≤ w.steps span ↔ k * w.stride ≤ span := by
  rw [steps, hceil]
  exact Nat.le_div_iff_mul_le hstride

theorem steps_le_iff (hstride : 0 < w.stride) (hceil : w.ceil = true) {k span : Nat} :
    w.steps span ≤ k ↔ span ≤ k * w.stride := by
  rw [steps, hceil, if_pos rfl, Nat.div_le_iff_le_mul_add_pred hstride, Nat.mul_comm]
  omega

/-- Rounding up adds a step if a rest of the span is left, and never more than one. -/
theorem steps_eq (hstride : 0 < w.stride) (span : Nat) :
    w.steps span =
      span / w.stride + if w.ceil = true ∧ 0 < span % w.stride then 1 else 0 := by
  cases hceil : w.ceil with
  | false => simp [steps, hceil]
  | true => simp [steps, hceil, Machine.ceilDiv_eq span (Nat.ne_of_gt hstride)]

/-- The window covers at least one place, so there is room to count the place where it starts. -/
theorem steps_lt (hstride : 0 < w.stride) (hle : w.effective ≤ w.padded input) :
    w.steps (w.padded input - w.effective) + 1 ≤ w.padded input := by
  have hsteps : w.steps (w.padded input - w.effective) ≤ w.padded input - w.effective :=
    Machine.stepCount_le w.ceil _ (Nat.ne_of_gt hstride)
  have hpos : 0 < w.effective := Nat.succ_pos _
  omega

/-- The places at which the window fits are those up to the last step. -/
theorem lt_steps_succ_iff (hstride : 0 < w.stride) (hceil : w.ceil = false)
    (hle : w.effective ≤ w.padded input) (k : Nat) :
    k < w.steps (w.padded input - w.effective) + 1 ↔
      k * w.stride + w.effective ≤ w.padded input := by
  rw [Nat.lt_succ_iff, le_steps_iff hstride hceil]
  omega

/-- Rounded up, the window stops as soon as it gets to the end of the axis. -/
theorem isLeast_steps_succ (hstride : 0 < w.stride) (hceil : w.ceil = true)
    (hle : w.effective ≤ w.padded input) :
    IsLeast {m | 0 < m ∧ w.padded input ≤ (m - 1) * w.stride + w.effective}
      (w.steps (w.padded input - w.effective) + 1) := by
  constructor
  · have hlast := (steps_le_iff hstride hceil).1
      (Nat.le_refl (w.steps (w.padded input - w.effective)))
    refine ⟨Nat.succ_pos _, ?_⟩
    rw [Nat.add_sub_cancel]
    omega
  · rintro m ⟨hpos, hm⟩
    have hsteps : w.steps (w.padded input - w.effective) ≤ m - 1 :=
      (steps_le_iff hstride hceil).2 (by omega)
    omega

/-- The same window, with a last place only where all of it fits. -/
def roundedDown (w : Window) : Window :=
  { w with ceil := false }

/-- **Output extents of windows are exact.** A window has an output extent on a known extent exactly
if the window and the padded extent fit in 64 bits and the window fits on the padded extent, and
fails with an overflow exactly if one of the two does not fit in 64 bits. The output extent fits in
64 bits, too. It is the number of places at which the window fits on the padded extent or, rounded
up, the least positive number of places the last of which gets to its end, which is at most one
more. -/
theorem outputDim_exact (w : Window) (input : Nat) (hsize : 0 < w.size) (hstride : 0 < w.stride) :
    ((∃ d, w.outputDim (.known input) = .ok d) ↔
      w.effective < extentLimit ∧ w.padded input < extentLimit ∧
        w.effective ≤ w.padded input) ∧
    (w.outputDim (.known input) = .error .overflow ↔
      extentLimit ≤ w.effective ∨ extentLimit ≤ w.padded input) ∧
    ∀ d, w.outputDim (.known input) = .ok d → ∃ n < extentLimit, d = .known n ∧
      (w.ceil = false →
        (∀ k, k < n ↔ k * w.stride + w.effective ≤ w.padded input) ∧
        {k | k * w.stride + w.effective ≤ w.padded input}.encard = n) ∧
      (w.ceil = true →
        IsLeast {m | 0 < m ∧ w.padded input ≤ (m - 1) * w.stride + w.effective} n ∧
        ∃ m, w.roundedDown.outputDim (.known input) = .ok (.known m) ∧ (n = m ∨ n = m + 1)) := by
  have hsize : w.size ≠ 0 := Nat.ne_of_gt hsize
  refine ⟨?_, ?_, fun d hd => ?_⟩
  · simp only [outputDim_known_eq_ok_iff, outputExtent_eq_ok_iff hsize]
    constructor
    · rintro ⟨d, n, ⟨hfits, -⟩, -⟩
      exact hfits
    · intro hfits
      exact ⟨_, _, ⟨hfits, rfl⟩, rfl⟩
  · rw [← outputExtent_eq_overflow_iff hsize]
    exact Fallible.map_eq_error_iff
  · obtain ⟨n, hn, rfl⟩ := outputDim_known_eq_ok_iff.1 hd
    obtain ⟨⟨heffective, hpadded, hle⟩, rfl⟩ := (outputExtent_eq_ok_iff hsize).1 hn
    refine ⟨_, Nat.lt_of_le_of_lt (steps_lt hstride hle) hpadded, rfl, fun hceil => ?_,
      fun hceil => ⟨isLeast_steps_succ hstride hceil hle, ?_⟩⟩
    · have hplaces := lt_steps_succ_iff hstride hceil hle
      have hset : {k | k * w.stride + w.effective ≤ w.padded input} =
          ↑(Finset.range (w.steps (w.padded input - w.effective) + 1)) := by
        ext k
        simp [← hplaces]
      refine ⟨hplaces, ?_⟩
      rw [hset, Set.encard_coe_eq_coe_finsetCard, Finset.card_range]
    · have hdown : w.roundedDown.outputExtent input =
          .ok ((w.padded input - w.effective) / w.stride + 1) :=
        (outputExtent_eq_ok_iff (w := w.roundedDown) hsize).2 ⟨⟨heffective, hpadded, hle⟩, rfl⟩
      refine ⟨_, outputDim_known_eq_ok_iff.2 ⟨_, hdown, rfl⟩, ?_⟩
      rw [steps_eq hstride]
      split <;> omega

/-- Three elements with gaps between them on the greatest padded extent there is, which is larger
than what two places of the window cover. -/
theorem outputDim_exact_widest :
    let up : Window := ⟨3, 2 ^ 63, 2, 2 ^ 62, 2, true⟩
    let input := 2 ^ 64 - 2 ^ 62 - 3
    up.effective = 5 ∧ up.padded input = 2 ^ 64 - 1 ∧
      up.outputDim (.known input) = .ok (.known 3) ∧
      IsLeast {m | 0 < m ∧ 2 ^ 64 - 1 ≤ (m - 1) * 2 ^ 63 + 5} 3 ∧
      up.roundedDown.outputDim (.known input) = .ok (.known 2) ∧
      (∀ k, k < 2 ↔ k * 2 ^ 63 + 5 ≤ 2 ^ 64 - 1) ∧
      up.outputDim (.known (input + 1)) = .error .overflow := by
  intro up input
  have hpadded : up.padded input = 2 ^ 64 - 1 := by decide +kernel
  have hlarger : extentLimit ≤ up.padded (input + 1) := by decide +kernel
  have hup : up.outputDim (.known input) = .ok (.known 3) := by decide +kernel
  have hdown : up.roundedDown.outputDim (.known input) = .ok (.known 2) := by decide +kernel
  refine ⟨rfl, hpadded, hup, ?_, hdown, ?_, ?_⟩
  · obtain ⟨n, -, hn, -, hleast⟩ := (outputDim_exact up input (by decide) (by decide)).2.2 _ hup
    cases hn
    rw [← hpadded]
    exact (hleast rfl).1
  · obtain ⟨n, -, hn, hplaces, -⟩ :=
      (outputDim_exact up.roundedDown input (by decide) (by decide)).2.2 _ hdown
    cases hn
    rw [← hpadded]
    exact (hplaces rfl).1
  · exact (outputDim_exact up (input + 1) (by decide) (by decide)).2.1.2 (.inr hlarger)

/-! ## Places behind the axis -/

/-- Rounding up adds a place that lies behind the padded extent as a whole: the rest of the extent
behind the last place where the window fits, and that place, take no more than one stride. -/
def Overshoots (w : Window) (input : Nat) : Prop :=
  w.ceil = true ∧ 0 < (w.padded input - w.effective) % w.stride ∧
    w.effective + (w.padded input - w.effective) % w.stride ≤ w.stride

instance (w : Window) (input : Nat) : Decidable (w.Overshoots input) :=
  inferInstanceAs (Decidable (_ ∧ _ ∧ _))

/-- All places lie inside if the last one does. -/
theorem forall_place_lt_iff {steps : Nat} :
    (∀ k < steps + 1, k * w.stride < w.padded input) ↔ steps * w.stride < w.padded input := by
  constructor
  · intro h
    exact h steps (Nat.lt_succ_self steps)
  · intro h k hk
    exact Nat.lt_of_le_of_lt (Nat.mul_le_mul_right _ (Nat.le_of_lt_succ hk)) h

/-- Before the last step, the window fits. -/
theorem fits_of_lt_steps (hstride : 0 < w.stride) (hle : w.effective ≤ w.padded input) {k : Nat}
    (hk : k < w.steps (w.padded input - w.effective)) :
    k * w.stride + w.effective ≤ w.padded input := by
  have hdown : k ≤ (w.padded input - w.effective) / w.stride := by
    rw [steps_eq hstride] at hk
    split at hk <;> omega
  have hspan := (Nat.le_div_iff_mul_le hstride).1 hdown
  omega

theorem last_place_lt_iff (hstride : 0 < w.stride) (hle : w.effective ≤ w.padded input) :
    w.steps (w.padded input - w.effective) * w.stride < w.padded input ↔ ¬w.Overshoots input := by
  have hpos : 0 < w.effective := Nat.succ_pos _
  have hspan : (w.padded input - w.effective) / w.stride * w.stride +
      (w.padded input - w.effective) % w.stride = w.padded input - w.effective := by
    rw [Nat.mul_comm]
    exact Nat.div_add_mod _ _
  rw [steps_eq hstride]
  split
  · next hmore =>
    -- one step more than fits: it leads behind the axis if it is longer than all that is left
    rw [Nat.succ_mul]
    constructor
    · rintro hlt ⟨-, -, hover⟩
      omega
    · intro hover
      have hshort : ¬w.effective + (w.padded input - w.effective) % w.stride ≤ w.stride :=
        fun hshort => hover ⟨hmore.1, hmore.2, hshort⟩
      omega
  · next hdown =>
    rw [Nat.add_zero]
    refine iff_of_true (by omega) ?_
    rintro ⟨hceil, hrest, -⟩
    exact hdown ⟨hceil, hrest⟩

/-- How the places of a window lie on an axis of a known extent: the window fits at all places but
the last, and all places lie inside the padded extent unless the window overshoots. -/
def Places (w : Window) (d out : Dim) : Prop :=
  ∀ input, d = .known input → ∃ n, out = .known n ∧
    (∀ k, k + 1 < n → k * w.stride + w.effective ≤ w.padded input) ∧
    ((∀ k < n, k * w.stride < w.padded input) ↔ ¬w.Overshoots input)

theorem places_of_outputDim (hsize : w.size ≠ 0) (hstride : w.stride ≠ 0) {d out : Dim}
    (h : w.outputDim d = .ok out) : w.Places d out := by
  rintro input rfl
  have hpos : 0 < w.stride := Nat.pos_of_ne_zero hstride
  obtain ⟨n, hn, rfl⟩ := outputDim_known_eq_ok_iff.1 h
  obtain ⟨⟨-, -, hle⟩, rfl⟩ := (outputExtent_eq_ok_iff hsize).1 hn
  refine ⟨_, rfl, fun k hk => ?_, forall_place_lt_iff.trans (last_place_lt_iff hpos hle)⟩
  exact fits_of_lt_steps hpos hle (Nat.lt_of_succ_lt_succ hk)

end Window

/-! ## Pooling -/

/-- The windows that the attributes of pooling ask for, along the vertical and along the horizontal
axis. -/
def poolWindows (i : Inputs) : Except Fault (Window × Window) := do
  let size ← Defect.lift (Spatial.ofList "pool_size" (← i.attr Attr.toInts "pool_size"))
  let strides ← Defect.lift (Spatial.ofList "strides" (← i.attrD Attr.toInts "strides" [1]))
  let pad ← Defect.lift (Padding.ofList (← i.attrD Attr.toInts "padding" [0]))
  let ceil ← i.attrD Attr.toBool "ceil_mode" false
  return (⟨size.height, strides.height, 1, pad.top, pad.bottom, ceil⟩,
    ⟨size.width, strides.width, 1, pad.left, pad.right, ceil⟩)

/-- What pooling infers, and from what. -/
theorem exists_of_pool2d {i : Inputs} {cs : List Component} (hcs : pool2d i = .ok cs) :
    ∃ batch channels h w vertical horizontal height width,
      i.operandDims 0 = .ok [batch, channels, h, w] ∧
      poolWindows i = .ok (vertical, horizontal) ∧
      vertical.outputDim h = .ok height ∧ horizontal.outputDim w = .ok width ∧
      cs = single [batch, channels, height, width] := by
  obtain ⟨data, hdata, hcs⟩ := Fallible.bind_eq_ok_iff.1 hcs
  split at hcs
  case h_2 => cases hcs
  next batch channels h w =>
  simp only [Fallible.bind_eq_ok_iff] at hcs
  obtain ⟨sizes, hsizes, size, hsize, numbers, hnumbers, strides, hstrides, sides, hsides, pad,
    hpad, ceil, hceil, height, hheight, width, hwidth, hcs⟩ := hcs
  cases hcs
  refine ⟨batch, channels, h, w, _, _, height, width, hdata, ?_,
    Fallible.mapError_eq_ok_iff.1 hheight, Fallible.mapError_eq_ok_iff.1 hwidth, rfl⟩
  simp only [poolWindows, Fallible.bind_eq_ok_iff]
  exact ⟨sizes, hsizes, size, hsize, numbers, hnumbers, strides, hstrides, sides, hsides, pad, hpad,
    ceil, hceil, rfl⟩

theorem poolWindows_pos {i : Inputs} {vertical horizontal : Window}
    (h : poolWindows i = .ok (vertical, horizontal)) :
    (vertical.size ≠ 0 ∧ vertical.stride ≠ 0) ∧ horizontal.size ≠ 0 ∧ horizontal.stride ≠ 0 := by
  simp only [poolWindows, Fallible.bind_eq_ok_iff] at h
  obtain ⟨sizes, -, size, hsize, numbers, -, strides, hstrides, sides, -, pad, -, ceil, -, h⟩ := h
  cases h
  have hsize := Machine.spatial_pos (Fallible.mapError_eq_ok_iff.1 hsize)
  have hstrides := Machine.spatial_pos (Fallible.mapError_eq_ok_iff.1 hstrides)
  exact ⟨⟨hsize.1, hstrides.1⟩, hsize.2, hstrides.2⟩

theorem rule?_pool2d {base : String} (h : base ∈ ["nn.max_pool2d", "nn.avg_pool2d"]) :
    registry.rule? (dialectName ++ "." ++ base) = some (ShapeRule.ofInputs pool2d) := by
  have hmem : operator base .outputFusable (.ofInputs pool2d) ∈ operators := by
    simp only [List.mem_cons, List.not_mem_nil, or_false] at h
    rcases h with rfl | rfl <;> simp [operators]
  exact rule?_of_mem (o := operator base .outputFusable (.ofInputs pool2d)) hmem

/-- **Where pooling looks.** If pooling infers a shape, then along each of the two spatial axes the
window fits at all places but the last, and every place at which it stops lies inside the padded
extent, so that the window there has a part in it, unless it overshoots: rounding up then adds a
place with an empty window. -/
theorem pool_inside_iff {base : String} {c : Context} {rule : ShapeRule} {cs : List Component}
    (hbase : base ∈ ["nn.max_pool2d", "nn.avg_pool2d"])
    (hrule : registry.rule? (dialectName ++ "." ++ base) = some rule) (hcs : rule c = .ok cs) :
    ∃ batch channels h w height width vertical horizontal,
      c.inputs.operandDims 0 = .ok [batch, channels, h, w] ∧
      poolWindows c.inputs = .ok (vertical, horizontal) ∧
      cs = single [batch, channels, height, width] ∧
      vertical.Places h height ∧ horizontal.Places w width := by
  rw [rule?_pool2d hbase] at hrule
  cases hrule
  obtain ⟨batch, channels, h, w, vertical, horizontal, height, width, hdata, hwindows, hheight,
    hwidth, rfl⟩ := exists_of_pool2d (ShapeRule.ofInputs_eq_ok_iff.1 hcs)
  obtain ⟨⟨hsize, hstride⟩, hsize', hstride'⟩ := poolWindows_pos hwindows
  exact ⟨batch, channels, h, w, height, width, vertical, horizontal, hdata, hwindows, rfl,
    Window.places_of_outputDim hsize hstride hheight,
    Window.places_of_outputDim hsize' hstride' hwidth⟩

/-- Rounded up, the window stops a third time along both axes: partly inside along the vertical one,
and behind the horizontal one. -/
theorem pool_inside_iff_third :
    let ty : Ty := .tensor ⟨.f32, [.known 1, .known 4, .known 5, .known 9]⟩
    let op : Operation :=
      { name := ⟨"relay.nn.avg_pool2d"⟩, operands := [0]
        attributes := StringMap.ofList
          [("pool_size", .int 2), ("strides", .ints [2, 5]), ("ceil_mode", .bool true)] }
    let c : Context := ⟨op, (Func.empty "main").after [.addArgument ty]⟩
    ShapeRule.ofInputs pool2d c = .ok (single [.known 1, .known 4, .known 3, .known 3]) ∧
      (∀ k < 3, k * 2 < 5) ∧ (∀ k, k + 1 < 3 → k * 5 + 2 ≤ 9) ∧ ¬∀ k < 3, k * 5 < 9 := by
  intro ty op c
  have hcs : ShapeRule.ofInputs pool2d c =
      .ok (single [.known 1, .known 4, .known 3, .known 3]) := by decide +kernel
  have hdims : c.inputs.operandDims 0 = .ok [.known 1, .known 4, .known 5, .known 9] := rfl
  have hasked : poolWindows c.inputs = .ok (⟨2, 2, 1, 0, 0, true⟩, ⟨2, 5, 1, 0, 0, true⟩) := by
    decide +kernel
  have hbase : "nn.avg_pool2d" ∈ ["nn.max_pool2d", "nn.avg_pool2d"] := by simp
  obtain ⟨_, _, _, _, _, _, _, _, hdata, hwindows, heq, hvertical, hhorizontal⟩ :=
    pool_inside_iff hbase (rule?_pool2d hbase) hcs
  rw [hdims] at hdata
  cases hdata
  rw [hasked] at hwindows
  cases hwindows
  cases heq
  obtain ⟨n, hn, -, hinside⟩ := hvertical 5 rfl
  cases hn
  obtain ⟨n, hn, hfits, hinside'⟩ := hhorizontal 9 rfl
  cases hn
  exact ⟨hcs, hinside.2 (by decide), hfits, fun h => hinside'.1 h (by decide)⟩

/-- A window of one element that makes steps of five along an axis of three: rounded up, it stops
behind the axis. -/
theorem pool_overshoots :
    let ty : Ty := .tensor ⟨.f32, [.known 1, .known 1, .known 3, .known 3]⟩
    let op : Operation :=
      { name := ⟨"relay.nn.max_pool2d"⟩, operands := [0]
        attributes := StringMap.ofList
          [("pool_size", .int 1), ("strides", .int 5), ("ceil_mode", .bool true)] }
    let c : Context := ⟨op, (Func.empty "main").after [.addArgument ty]⟩
    let w : Window := ⟨1, 5, 1, 0, 0, true⟩
    registry.infer? c = some (.ok (single [.known 1, .known 1, .known 2, .known 2])) ∧
      poolWindows c.inputs = .ok (w, w) ∧ ¬∀ k < 2, k * w.stride < w.padded 3 := by
  intro ty op c w
  have hrule : registry.rule? "relay.nn.max_pool2d" = some (ShapeRule.ofInputs pool2d) :=
    rule?_of_mem (o := operator "nn.max_pool2d" .outputFusable (.ofInputs pool2d))
      (by simp [operators])
  have hcs : ShapeRule.ofInputs pool2d c =
      .ok (single [.known 1, .known 1, .known 2, .known 2]) := by decide +kernel
  have hwindows : poolWindows c.inputs = .ok (w, w) := by decide +kernel
  refine ⟨?_, hwindows, by decide⟩
  rw [Registry.infer?, hrule, ← hcs]
  rfl

end TensorIR.Relay
