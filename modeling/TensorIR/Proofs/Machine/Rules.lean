import TensorIR.Proofs.Machine.Inputs
import TensorIR.Relay.Elementwise
import TensorIR.Relay.Image
import TensorIR.Relay.Matmul
import TensorIR.Relay.Rearrange

/-!
# Rules on machine words: elements, windows and products

The rules that look at extents but leave the axes where they are, as a machine evaluates them
(`Rule`), and why no step of theirs can trap (`Rule.Follows`). An index into a shape is an axis that
has been normalized for it, and a stride has been read as a positive number.
-/

namespace TensorIR.Machine

open Relay (Defect Spatial Window single)

variable {α : Type}

/-- A rule as a machine evaluates it. -/
abbrev Rule := Inputs → Eval Fault (List Component)

/-- Use a computation on dimensions inside a rule. -/
def lift (x : Eval Defect α) : Eval Fault α :=
  ExceptT.adapt Defect.fault x

theorem Runs.lift {x : Eval Defect α} {r : Except Defect α} (h : Runs x r) :
    Runs (lift x) (Defect.lift r) :=
  h.adapt

/-- On all inputs that a machine can hold, the evaluation comes to what the rule says, without a
trap. -/
def Rule.Follows (m : Rule) (rule : Relay.Rule) : Prop :=
  ∀ i, Fits i → Runs (m i) (rule i)

/-- A rule ends with a computation on dimensions. -/
theorem Runs.lift_single {x : Eval Defect (List Dim)} {r : Except Defect (List Dim)}
    (h : Runs x r) :
    Runs (do return single (← Machine.lift x)) (do return single (← Defect.lift r)) := by
  refine h.lift.bind fun ds _ => ?_
  exact .pure _

variable {i : Inputs}

theorem runs_first (i : Inputs) : Runs (operandDims i 0) (i.operandDims 0) :=
  runs_operandDims (.inr (by decide))

theorem runs_second (i : Inputs) : Runs (operandDims i 1) (i.operandDims 1) :=
  runs_operandDims (.inr (by decide))

/-- A rank is a signed word, too. -/
theorem Fits.rank_signed (h : Fits i) {k : Nat} {ds : List Dim} (hds : i.operandDims k = .ok ds) :
    ds.length < 2 ^ 63 := by
  have hlt := h.rank_lt hds
  unfold rankLimit at hlt
  omega

/-! ## Element by element -/

def unary : Rule := fun i =>
  if i.operandCount ≠ 1 then throw (Defect.operandCount 1 i.operandCount).fault
  else do
    let dims ← operandDims i 0
    return single dims

theorem unary_follows : unary.Follows Relay.unary := by
  intro i _
  refine .ite (fun _ => .throw _) fun _ => ?_
  refine (runs_first i).bind fun dims _ => ?_
  exact .pure _

def binary : Rule := fun i =>
  if i.operandCount ≠ 2 then throw (Defect.operandCount 2 i.operandCount).fault
  else do
    let left ← operandTy i 0
    let right ← operandTy i 1
    let dims ← ExceptT.adapt (fun e : Error => Fault.shape e.message)
      (broadcastDims left.dims right.dims)
    return single dims

theorem binary_follows : binary.Follows Relay.binary := by
  intro i _
  refine .ite (fun _ => .throw _) fun _ => ?_
  refine (runs_operandTy (.inr (by decide))).bind fun left _ => ?_
  refine (runs_operandTy (.inr (by decide))).bind fun right _ => ?_
  refine (runs_broadcastDims left.dims right.dims).adapt.bind fun dims _ => ?_
  exact .pure _

def addBias (data : List Dim) (bias : Dim) (axis : Nat) : Eval Defect (List Dim) := do
  let d ← index data axis
  match d.unify? bias with
  | none =>
    let found ← index data axis
    throw (.biasLength bias found axis)
  | some unified => store data axis unified

theorem runs_addBias {data : List Dim} {axis : Nat} (h : axis < data.length) (bias : Dim) :
    Runs (addBias data bias axis) (Relay.addBias data bias axis) := by
  have hindex : ∀ {ε}, Runs (index data axis : Eval ε Dim) (.ok data[axis]) :=
    runs_index (List.getElem?_eq_getElem h)
  rw [Relay.addBias, List.getElem?_eq_getElem h]
  refine .step hindex ?_
  dsimp only
  cases (data[axis]).unify? bias with
  | none => exact .step hindex (.throw _)
  | some unified => exact runs_store h unified

def biasAdd : Rule := fun i => do
  let data ← operandDims i 0
  let bias ← operandDims i 1
  match bias with
  | [channels] =>
    let number ← attempt (i.attrD Attr.toInt "axis" 1)
    let axis ← lift (normalizeAxis number data.length)
    return single (← lift (addBias data channels axis))
  | _ => throw (Defect.biasRank bias.length).fault

theorem biasAdd_follows : biasAdd.Follows Relay.biasAdd := by
  intro i h
  refine (runs_first i).bind fun data hdata => ?_
  refine (runs_second i).bind fun bias _ => ?_
  have hrank := h.rank_signed hdata
  match bias with
  | [] => exact .throw _
  | [channels] =>
    refine (Runs.attempt _).bind fun number hnumber => ?_
    have hsigned := h.intD (by decide) hnumber
    refine (runs_normalizeAxis hsigned hrank).lift.bind fun axis haxis => ?_
    have hlt := normalizeAxis_lt (Fallible.mapError_eq_ok_iff.1 haxis)
    exact (runs_addBias hlt channels).lift_single
  | _ :: _ :: _ => exact .throw _

def softmax : Rule := fun i => do
  let dims ← operandDims i 0
  let axis ← attempt (i.attrD Attr.toInt "axis" (-1))
  discard (lift (normalizeAxis axis dims.length))
  return single dims

theorem softmax_follows : softmax.Follows Relay.softmax := by
  intro i h
  refine (runs_first i).bind fun dims hdims => ?_
  refine (Runs.attempt _).bind fun axis haxis => ?_
  have hsigned := h.intD (by decide) haxis
  have hrank := h.rank_signed hdims
  refine Runs.bind (runs_normalizeAxis hsigned hrank).lift.map fun _ _ => ?_
  exact .pure _

def cast : Rule := fun i => do
  let dims ← operandDims i 0
  let element ← attempt (i.attr Attr.toElement "dtype")
  return [⟨dims, some element⟩]

theorem cast_follows : cast.Follows Relay.cast := by
  intro i _
  refine (runs_first i).bind fun dims _ => ?_
  refine (Runs.attempt _).bind fun element _ => ?_
  exact .pure _

/-- The axes that are listed, or all of them. -/
def listedAxes (axes : Option (List Int)) (rank : Nat) : Eval Fault (List Nat) :=
  match axes with
  | some axes => lift (normalizeAxes axes rank)
  | none => return List.range rank

def reduction : Rule := fun i => do
  let dims ← operandDims i 0
  let keep ← attempt (i.attrD Attr.toBool "keepdims" false)
  let exclude ← attempt (i.attrD Attr.toBool "exclude" false)
  let axes ← attempt (i.attr? Attr.toInts "axis")
  let listed ← listedAxes axes dims.length
  return single (Relay.reduceDims dims (fun axis => listed.contains axis != exclude) keep)

theorem reduction_follows : reduction.Follows Relay.reduction := by
  intro i h
  refine (runs_first i).bind fun dims hdims => ?_
  refine (Runs.attempt _).bind fun keep _ => ?_
  refine (Runs.attempt _).bind fun exclude _ => ?_
  refine (Runs.attempt _).bind fun axes haxes => ?_
  have hrank := h.rank_signed hdims
  cases axes with
  | none => exact .pure _
  | some axes =>
    refine (runs_normalizeAxes (h.ints? haxes axes rfl) hrank).lift.bind fun listed _ => ?_
    exact .pure _

/-! ## Windows -/

theorem listFits_singleton {v : Int} (h : IsSigned v) : ListFits [v] :=
  ⟨by simp, List.forall_mem_singleton.2 h⟩

def pool2d : Rule := fun i => do
  let data ← operandDims i 0
  match data with
  | [n, c, h, w] =>
    let sizes ← attempt (i.attr Attr.toInts "pool_size")
    let size ← lift (spatialPair "pool_size" sizes)
    let steps ← attempt (i.attrD Attr.toInts "strides" [1])
    let strides ← lift (spatialPair "strides" steps)
    let sides ← attempt (i.attrD Attr.toInts "padding" [0])
    let pad ← lift (padding2d sides)
    let ceil ← attempt (i.attrD Attr.toBool "ceil_mode" false)
    let height ← lift (outputDim ⟨size.height, strides.height, 1, pad.top, pad.bottom, ceil⟩ h)
    let width ← lift (outputDim ⟨size.width, strides.width, 1, pad.left, pad.right, ceil⟩ w)
    return single [n, c, height, width]
  | _ => throw (Defect.imageRank data.length).fault

theorem pool2d_follows : pool2d.Follows Relay.pool2d := by
  intro i h
  refine (runs_first i).bind fun data _ => ?_
  match data with
  | [n, c, height, width] =>
    refine (Runs.attempt _).bind fun sizes hsizes => ?_
    refine (runs_spatialPair (h.ints hsizes)).lift.bind fun size _ => ?_
    refine (Runs.attempt _).bind fun steps hsteps => ?_
    have hfits := h.intsD (listFits_singleton (by decide)) hsteps
    refine (runs_spatialPair hfits).lift.bind fun strides hstrides => ?_
    obtain ⟨hvertical, hhorizontal⟩ := spatial_pos (Fallible.mapError_eq_ok_iff.1 hstrides)
    refine (Runs.attempt _).bind fun sides hsides => ?_
    have hfits := h.intsD (listFits_singleton (by decide)) hsides
    refine (runs_padding2d hfits).lift.bind fun pad _ => ?_
    refine (Runs.attempt _).bind fun ceil _ => ?_
    refine (runs_outputDim hvertical height).lift.bind fun _ _ => ?_
    refine (runs_outputDim hhorizontal width).lift.bind fun _ _ => ?_
    exact .pure _
  | [] | [_] | [_, _] | [_, _, _] | _ :: _ :: _ :: _ :: _ :: _ => exact .throw _

def globalPool2d : Rule := fun i => do
  let data ← operandDims i 0
  match data with
  | [n, c, _, _] => return single [n, c, .known 1, .known 1]
  | _ => throw (Defect.imageRank data.length).fault

theorem globalPool2d_follows : globalPool2d.Follows Relay.globalPool2d := by
  intro i _
  refine (runs_first i).bind fun data _ => ?_
  match data with
  | [n, c, height, width] => exact .pure _
  | [] | [_] | [_, _] | [_, _, _] | _ :: _ :: _ :: _ :: _ :: _ => exact .throw _

def checkKernel (requested : Option (List Int)) (kernel : Spatial) : Eval Defect Unit :=
  match requested with
  | none => return ()
  | some values => do
    let size ← spatialPair "kernel_size" values
    if size = kernel then return ()
    else throw (.kernelSize (size.height, size.width) (kernel.height, kernel.width))

theorem runs_checkKernel {requested : Option (List Int)} (h : ∀ vs ∈ requested, ListFits vs)
    (kernel : Spatial) :
    Runs (checkKernel requested kernel) (Relay.checkKernel requested kernel) := by
  cases requested with
  | none => exact .pure _
  | some values =>
    have hcheck : Relay.checkKernel (some values) kernel =
        Spatial.ofList "kernel_size" values >>= fun size =>
          if size = kernel then .ok ()
          else .error (.kernelSize (size.height, size.width) (kernel.height, kernel.width)) := by
      unfold Relay.checkKernel
      dsimp only
      cases Spatial.ofList "kernel_size" values <;> rfl
    rw [hcheck]
    refine (runs_spatialPair (h values rfl)).bind fun size _ => ?_
    exact .ite (fun _ => .pure _) fun _ => .throw _

def conv2d : Rule := fun i => do
  let data ← operandDims i 0
  let weight ← operandDims i 1
  match data, weight with
  | [n, c, h, w], [o, ci, kh, kw] =>
    let number ← attempt (i.attrD Attr.toInt "groups" 1)
    let groups ← lift (positive "groups" number)
    attempt (Defect.lift (Relay.checkGroups c ci groups))
    let channels ← attempt (i.attr? Attr.toInt "channels")
    attempt (Defect.lift (Relay.checkChannels channels o))
    let kernel ← attempt (Defect.lift (Relay.kernelExtents kh kw))
    let requested ← attempt (i.attr? Attr.toInts "kernel_size")
    lift (checkKernel requested kernel)
    let steps ← attempt (i.attrD Attr.toInts "strides" [1])
    let strides ← lift (spatialPair "strides" steps)
    let spread ← attempt (i.attrD Attr.toInts "dilation" [1])
    let dilation ← lift (spatialPair "dilation" spread)
    let sides ← attempt (i.attrD Attr.toInts "padding" [0])
    let pad ← lift (padding2d sides)
    let vertical : Window :=
      ⟨kernel.height, strides.height, dilation.height, pad.top, pad.bottom, false⟩
    let horizontal : Window :=
      ⟨kernel.width, strides.width, dilation.width, pad.left, pad.right, false⟩
    let height ← lift (outputDim vertical h)
    let width ← lift (outputDim horizontal w)
    return single [n, o, height, width]
  | _, _ => throw (Defect.convolutionRanks data.length weight.length).fault

theorem conv2d_follows : conv2d.Follows Relay.conv2d := by
  intro i h
  have hone : ListFits [1] := listFits_singleton (by decide)
  refine (runs_first i).bind fun data _ => ?_
  refine (runs_second i).bind fun weight _ => ?_
  match data, weight with
  | [n, c, y, x], [o, ci, ky, kx] =>
    refine (Runs.attempt _).bind fun number hnumber => ?_
    refine (runs_positive (h.intD (by decide) hnumber)).lift.bind fun groups _ => ?_
    refine (Runs.attempt _).bind fun _ _ => (Runs.attempt _).bind fun channels _ => ?_
    refine (Runs.attempt _).bind fun _ _ => (Runs.attempt _).bind fun kernel _ => ?_
    refine (Runs.attempt _).bind fun requested hrequested => ?_
    refine (runs_checkKernel (h.ints? hrequested) kernel).lift.bind fun _ _ => ?_
    refine (Runs.attempt _).bind fun steps hsteps => ?_
    refine (runs_spatialPair (h.intsD hone hsteps)).lift.bind fun strides hstrides => ?_
    obtain ⟨hvertical, hhorizontal⟩ := spatial_pos (Fallible.mapError_eq_ok_iff.1 hstrides)
    refine (Runs.attempt _).bind fun spread hspread => ?_
    refine (runs_spatialPair (h.intsD hone hspread)).lift.bind fun dilation _ => ?_
    refine (Runs.attempt _).bind fun sides hsides => ?_
    have hsides := h.intsD (listFits_singleton (by decide)) hsides
    refine (runs_padding2d hsides).lift.bind fun pad _ => ?_
    refine Runs.bind (runs_outputDim hvertical y).lift fun _ _ => ?_
    refine Runs.bind (runs_outputDim hhorizontal x).lift fun _ _ => ?_
    exact .pure _
  | [_, _, _, _], [] | [_, _, _, _], [_] | [_, _, _, _], [_, _] | [_, _, _, _], [_, _, _]
  | [_, _, _, _], _ :: _ :: _ :: _ :: _ :: _ => exact .throw _
  | [], _ | [_], _ | [_, _], _ | [_, _, _], _ | _ :: _ :: _ :: _ :: _ :: _, _ => exact .throw _

/-! ## Products of matrices -/

def denseUnits (requested : Option Int) (rows : Dim) : Eval Defect Dim :=
  match requested with
  | none => return rows
  | some units =>
    if units ≤ 0 then throw (.notPositive "units" units)
    else
      match rows.unify? (.known (toUnsigned units)) with
      | none => throw (.denseUnits units rows)
      | some d => return d

theorem runs_denseUnits {requested : Option Int} (h : ∀ v ∈ requested, IsSigned v) (rows : Dim) :
    Runs (denseUnits requested rows) (Relay.denseUnits requested rows) := by
  cases requested with
  | none => exact .pure _
  | some units =>
    refine .ite (fun _ => .throw _) fun hpos => ?_
    rw [toUnsigned_of_nonneg (by omega) (h units rfl)]
    cases rows.unify? (.known units.toNat) with
    | none => exact .throw _
    | some d => exact .pure d

def dense : Rule := fun i => do
  let data ← operandDims i 0
  let weight ← operandDims i 1
  match data.getLast?, weight with
  | none, _ => throw Defect.denseDataRank.fault
  | some summed, [rows, columns] =>
    if (summed.unify? columns).isNone then throw (Defect.denseReduction summed columns).fault
    else
      let requested ← attempt (i.attr? Attr.toInt "units")
      let units ← lift (denseUnits requested rows)
      return single (data.dropLast ++ [units])
  | some _, _ => throw (Defect.denseWeightRank weight.length).fault

theorem dense_follows : dense.Follows Relay.dense := by
  intro i h
  refine (runs_first i).bind fun data _ => ?_
  refine (runs_second i).bind fun weight _ => ?_
  cases data.getLast? with
  | none => exact .throw _
  | some summed =>
    match weight with
    | [rows, columns] =>
      refine .ite (fun _ => .throw _) fun _ => ?_
      refine (Runs.attempt _).bind fun requested hrequested => ?_
      refine (runs_denseUnits (h.int? hrequested) rows).lift.bind fun units _ => ?_
      exact .pure _
    | [] | [_] | _ :: _ :: _ :: _ => exact .throw _

def batchMatmul : Rule := fun i => do
  let left ← operandDims i 0
  let right ← operandDims i 1
  match left, right with
  | [b, m, k], [b', n, k'] =>
    if (k.unify? k').isNone then throw (Defect.batchReduction k k').fault
    else
      let batch ← attempt (Defect.lift (Relay.batchDim b b'))
      return single [batch, m, n]
  | _, _ => throw (Defect.batchRanks left.length right.length).fault

theorem batchMatmul_follows : batchMatmul.Follows Relay.batchMatmul := by
  intro i _
  refine (runs_first i).bind fun left _ => ?_
  refine (runs_second i).bind fun right _ => ?_
  match left, right with
  | [b, m, k], [b', n, k'] =>
    refine .ite (fun _ => .throw _) fun _ => ?_
    refine (Runs.attempt _).bind fun batch _ => ?_
    exact .pure _
  | [_, _, _], [] | [_, _, _], [_] | [_, _, _], [_, _] | [_, _, _], _ :: _ :: _ :: _ :: _ =>
    exact .throw _
  | [], _ | [_], _ | [_, _], _ | _ :: _ :: _ :: _ :: _, _ => exact .throw _

end TensorIR.Machine
