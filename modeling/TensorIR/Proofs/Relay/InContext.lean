import TensorIR.Proofs.Registry
import TensorIR.Relay.Concatenate
import TensorIR.Relay.Elementwise
import TensorIR.Relay.Image
import TensorIR.Relay.InContext
import TensorIR.Relay.Matmul
import TensorIR.Relay.Reshape

/-!
# Rules in their contexts are rules on inputs

A rule of the dialect is given a whole context and may fail with any error. Step by step it turns
out to do what the rule of the same name does with the inputs of the context, and to fail with what
the context reports of a fault: each reading of an operand or attribute is one of the inputs, each
shared computation fails with a message, never with an error of another layer, and each of these
messages, like the bare error of broadcasting, is put into the words of the context. So there is one
equation for each rule (`unary_eq` and the others).
-/

namespace TensorIR.Relay.InContext

open Fallible

variable (c : Context)

/-! ## Lists by their length -/

/-- The lengths that rules and windows tell apart. -/
theorem lengthCases {α : Type} {P : List α → Prop} (zero : P []) (one : ∀ a, P [a])
    (two : ∀ a b, P [a, b]) (three : ∀ a b c, P [a, b, c]) (four : ∀ a b c d, P [a, b, c, d])
    (more : ∀ a b c d e l, P (a :: b :: c :: d :: e :: l)) : ∀ l, P l
  | [] => zero
  | [a] => one a
  | [a, b] => two a b
  | [a, b, c] => three a b c
  | [a, b, c, d] => four a b c d
  | a :: b :: c :: d :: e :: l => more a b c d e l

/-! ## Failures -/

/-- What a context reports of a defect. -/
def blame (d : Defect) : Error := c.shapeError d.text

@[simp] theorem mapError_lift {α : Type} (x : Except Defect α) :
    (Defect.lift x).mapError c.report = x.mapError (blame c) :=
  mapError_mapError ..

@[simp] theorem mapError_fail {α : Type} (d : Defect) :
    (Defect.fail d : Except Fault α).mapError c.report = refuse c d := rfl

/-- A shared computation fails with the message of the defect, and never with an error of another
layer. -/
theorem inContext_mapError {α : Type} (x : Except Defect α) :
    inContext c (x.mapError Defect.failure) = x.mapError (blame c) :=
  mapError_mapError ..

/-! ## Shared computations -/

theorem checkedAdd_eq (a b : Nat) :
    checkedAdd a b = (Relay.checkedAdd a b).mapError Defect.failure := by
  unfold checkedAdd Relay.checkedAdd
  split <;> rfl

theorem checkedMul_eq (a b : Nat) :
    checkedMul a b = (Relay.checkedMul a b).mapError Defect.failure := by
  unfold checkedMul Relay.checkedMul
  split <;> rfl

theorem productFrom_eq (acc : Nat) (dims : List Dim) :
    productFrom acc dims = (Relay.productFrom acc dims).mapError Defect.failure := by
  induction dims generalizing acc with
  | nil => rfl
  | cons d rest ih =>
    cases d with
    | dynamic => rfl
    | known n =>
      rw [productFrom, Relay.productFrom, checkedMul_eq]
      cases Relay.checkedMul acc n with
      | error e => rfl
      | ok p => exact ih p

theorem product_eq (dims : List Dim) :
    product dims = (Relay.product dims).mapError Defect.failure :=
  productFrom_eq 1 dims

theorem normalizeAxis_eq (axis : Int) (rank : Nat) :
    normalizeAxis axis rank = (Relay.normalizeAxis axis rank).mapError Defect.failure := by
  unfold normalizeAxis Relay.normalizeAxis
  simp only [mapError_ite]
  rfl

theorem normalizeAxes_eq (axes : List Int) (rank : Nat) :
    normalizeAxes axes rank = (Relay.normalizeAxes axes rank).mapError Defect.failure := by
  unfold normalizeAxes Relay.normalizeAxes
  simp only [mapError_mapM, normalizeAxis_eq]

theorem positive_eq (what : String) (value : Int) :
    positive what value = (Relay.positive what value).mapError Defect.failure := by
  unfold positive Relay.positive
  split <;> rfl

theorem spatial_eq (what : String) (values : List Int) :
    spatial what values = (Spatial.ofList what values).mapError Defect.failure := by
  cases values using lengthCases with
  | one v =>
    simp only [spatial, Spatial.ofList, positive_eq, mapError_bind]
    rfl
  | two h w =>
    simp only [spatial, Spatial.ofList, positive_eq, mapError_bind]
    rfl
  | _ => rfl

theorem padding_eq (values : List Int) :
    padding values = (Padding.ofList values).mapError Defect.failure := by
  unfold padding Padding.ofList
  cases values.find? (· < 0) with
  | some v => rfl
  | none =>
    dsimp only
    cases values.map Int.toNat using lengthCases with
    | _ => rfl

theorem outputDim_eq (w : Window) (d : Dim) :
    outputDim w d = (w.outputDim d).mapError Defect.failure := by
  cases d with
  | dynamic => rfl
  | known input =>
    change (if w.size = 0 then _ else _) = ((w.outputExtent input).map Dim.known).mapError _
    unfold Window.outputExtent
    split
    · rfl
    · simp only [checkedAdd_eq, checkedMul_eq, Fallible.map_bind, mapError_bind]
      refine bind_congr fun reach => bind_congr fun effective => bind_congr fun front =>
        bind_congr fun padded => ?_
      split <;> rfl

/-! ## Element by element -/

@[simp] theorem unary_eq : unary = ShapeRule.ofInputs Relay.unary := by
  funext c
  unfold unary Relay.unary ShapeRule.ofInputs Context.run
  simp only [mapError_ite, Context.operandCount_inputs, mapError_fail, mapError_bind,
    Context.mapError_operandDims, mapError_pure]

theorem dimsOrNone_eq (index : Nat) :
    dimsOrNone c index = (c.operandTy index).map Ty.dims := by
  unfold dimsOrNone
  cases c.operandTy index with
  | error e => rfl
  | ok ty => cases ty <;> rfl

/-- The error of broadcasting does not say for which operation; it is worded anew. -/
@[simp] theorem binary_eq : binary = ShapeRule.ofInputs Relay.binary := by
  funext c
  unfold binary Relay.binary ShapeRule.ofInputs Context.run
  simp only [mapError_ite, Context.operandCount_inputs, mapError_fail, mapError_bind,
    Context.mapError_operandTy, dimsOrNone_eq, mapError_mapError, mapError_pure]
  split
  · rfl
  · cases c.operandTy 0 with
    | error e => rfl
    | ok left => cases c.operandTy 1 <;> rfl

theorem addBias_eq (data : List Dim) (bias : Dim) (axis : Nat) :
    addBias c data bias axis = (Relay.addBias data bias axis).mapError (blame c) := by
  unfold addBias Relay.addBias
  cases data[axis]? with
  | none => rfl
  | some d =>
    dsimp only
    cases d.unify? bias <;> rfl

@[simp] theorem biasAdd_eq : biasAdd = ShapeRule.ofInputs Relay.biasAdd := by
  funext c
  unfold biasAdd Relay.biasAdd ShapeRule.ofInputs Context.run
  simp only [mapError_bind, Context.mapError_operandDims]
  refine bind_congr fun data => bind_congr fun bias => ?_
  cases bias using lengthCases with
  | one channels =>
    simp only [mapError_bind, Context.mapError_attrD, mapError_lift, mapError_pure,
      normalizeAxis_eq, inContext_mapError, addBias_eq]
  | _ => rfl

@[simp] theorem softmax_eq : softmax = ShapeRule.ofInputs Relay.softmax := by
  funext c
  unfold softmax Relay.softmax ShapeRule.ofInputs Context.run
  simp only [discard, mapError_bind, Context.mapError_operandDims, Context.mapError_attrD,
    mapError_pure, normalizeAxis_eq, inContext_mapError]
  refine bind_congr fun dims => bind_congr fun axis => ?_
  cases Relay.normalizeAxis axis dims.length <;> rfl

@[simp] theorem cast_eq : cast = ShapeRule.ofInputs Relay.cast := by
  funext c
  unfold cast Relay.cast ShapeRule.ofInputs Context.run
  simp only [mapError_bind, Context.mapError_operandDims, Context.mapError_attr, mapError_pure]

/-! ## Axes -/

theorem permuteDims_eq (dims : List Dim) (perm : List Nat) :
    permuteDims c dims perm = (Relay.permuteDims dims perm).mapError (blame c) := by
  unfold permuteDims Relay.permuteDims
  split
  · rfl
  · split <;> rfl

@[simp] theorem transpose_eq : transpose = ShapeRule.ofInputs Relay.transpose := by
  funext c
  unfold transpose Relay.transpose transposeDims ShapeRule.ofInputs Context.run
  simp only [mapError_bind, Context.mapError_operandDims, Context.mapError_attr?_bind,
    mapError_lift, mapError_pure, permuteDims_eq]
  refine bind_congr fun input => ?_
  split
  · simp only [bind_assoc, normalizeAxes_eq, inContext_mapError]
  · rfl

@[simp] theorem expand_eq : expand = ShapeRule.ofInputs Relay.expand := by
  funext c
  unfold expand Relay.expand Relay.expandDims ShapeRule.ofInputs Context.run
  simp only [mapError_bind, Context.mapError_operandDims, Context.mapError_attr,
    Context.mapError_attrD, mapError_lift, mapError_pure, normalizeAxis_eq, inContext_mapError,
    mapError_ite]
  refine bind_congr fun input => bind_congr fun axis => bind_congr fun position =>
    bind_congr fun count => ?_
  split
  · rfl
  · split <;> rfl

theorem unitAxis_eq (dims : List Dim) (axis : Int) :
    unitAxis c dims axis = (Relay.unitAxis dims axis).mapError (blame c) := by
  unfold unitAxis Relay.unitAxis
  simp only [mapError_bind, normalizeAxis_eq, inContext_mapError]
  refine bind_congr fun position => ?_
  cases dims[position]? with
  | none => rfl
  | some d =>
    cases d with
    | dynamic => rfl
    | known n =>
      dsimp only
      split <;> rfl

@[simp] theorem squeeze_eq : squeeze = ShapeRule.ofInputs Relay.squeeze := by
  funext c
  unfold squeeze Relay.squeeze squeezeDims ShapeRule.ofInputs Context.run
  simp only [mapError_bind, Context.mapError_operandDims, Context.mapError_attr?_bind,
    mapError_lift, mapError_pure, mapError_mapM, mapError_ite]
  refine bind_congr fun input => ?_
  split
  · have hunit : unitAxis c input = _ := funext (unitAxis_eq c input)
    refine bind_congr fun axes => ?_
    simp only [bind_assoc, pure_bind, hunit]
  · split <;> rfl

@[simp] theorem reduction_eq : reduction = ShapeRule.ofInputs Relay.reduction := by
  funext c
  unfold reduction Relay.reduction ShapeRule.ofInputs Context.run
  simp only [mapError_bind, Context.mapError_operandDims, Context.mapError_attrD,
    Context.mapError_attr?_bind, mapError_lift, mapError_pure]
  refine bind_congr fun dims => bind_congr fun keep => bind_congr fun exclude => ?_
  split
  · simp only [normalizeAxes_eq, inContext_mapError]
    rfl
  · rfl

/-! ## Reshaping and concatenation -/

theorem layOut_eq (input : List Dim) (source : Nat) (vacant : Bool) (entries : List Int) :
    layOut c input source vacant entries =
      (Relay.layOut input source vacant entries).mapError (blame c) := by
  induction entries generalizing source vacant with
  | nil => rfl
  | cons entry rest ih =>
    unfold layOut Relay.layOut
    simp only [ih, mapError_ite, mapError_bind, mapError_pure]
    split
    · rfl
    · split
      · cases input[source]? with
        | none => rfl
        | some d =>
          dsimp only
          rw [mapError_bind]
          rfl
      · rfl

theorem knownProduct_eq (acc : Nat) (slots : List (Option Dim)) :
    knownProduct c acc slots = (Relay.knownProduct acc slots).mapError (blame c) := by
  induction slots generalizing acc with
  | nil => rfl
  | cons slot rest ih =>
    match slot with
    | none => exact ih acc
    | some .dynamic => rfl
    | some (.known n) =>
      rw [knownProduct, Relay.knownProduct, checkedMul_eq, inContext_mapError]
      cases Relay.checkedMul acc n with
      | error e => rfl
      | ok p => exact ih p

@[simp] theorem reshape_eq : reshape = ShapeRule.ofInputs Relay.reshape := by
  funext c
  unfold reshape Relay.reshape reshapeDims ShapeRule.ofInputs Context.run
  simp only [mapError_bind, Context.mapError_operandDims, Context.mapError_attr, mapError_lift,
    mapError_pure, layOut_eq, product_eq, inContext_mapError, bind_assoc]
  refine bind_congr fun input => bind_congr fun newshape => bind_congr fun slots =>
    bind_congr fun count => ?_
  split
  · cases count with
    | dynamic => rfl
    | known total =>
      simp only [mapError_bind, mapError_ite, mapError_pure, knownProduct_eq, bind_assoc]
      refine bind_congr fun known => ?_
      split <;> rfl
  · simp only [mapError_bind, bind_assoc]
    refine bind_congr fun after => ?_
    cases count with
    | dynamic => rfl
    | known before =>
      cases after with
      | dynamic => rfl
      | known after =>
        dsimp only
        split <;> rfl

@[simp] theorem batchFlatten_eq : batchFlatten = ShapeRule.ofInputs Relay.batchFlatten := by
  funext c
  unfold batchFlatten Relay.batchFlatten ShapeRule.ofInputs Context.run
  simp only [mapError_bind, Context.mapError_operandDims, mapError_lift, mapError_pure]
  refine bind_congr fun input => ?_
  cases input with
  | nil => rfl
  | cons batch rest =>
    simp only [flattenDims, product_eq, inContext_mapError, mapError_bind, bind_assoc]
    rfl

theorem joinDims_eq (operand axis position : Nat) (as bs : List Dim) :
    joinDims c operand axis position as bs =
      (Relay.joinDims operand axis position as bs).mapError (blame c) := by
  induction as generalizing bs position with
  | nil => rfl
  | cons a as ih =>
    cases bs with
    | nil => rfl
    | cons b bs =>
      unfold joinDims Relay.joinDims
      simp only [ih, mapError_bind, mapError_ite, mapError_pure]
      split
      · cases a with
        | dynamic => rfl
        | known m =>
          cases b with
          | dynamic => rfl
          | known n =>
            simp only [joinDim, mapError_map, checkedAdd_eq, inContext_mapError]
      · cases a.unify? b with
        | none => rfl
        | some d =>
          dsimp only
          simp only [mapError_bind]
          rfl

theorem joinRest_eq (axis : Nat) (joined : List Dim) (operand count : Nat) :
    joinRest c axis joined operand count =
      (Relay.joinRest c.inputs axis joined operand count).mapError c.report := by
  induction count generalizing joined operand with
  | zero => rfl
  | succ count ih =>
    rw [joinRest, Relay.joinRest]
    simp only [ih, mapError_bind, Context.mapError_operandDims, mapError_ite, mapError_fail,
      mapError_lift, joinDims_eq]

@[simp] theorem concatenate_eq : concatenate = ShapeRule.ofInputs Relay.concatenate := by
  funext c
  unfold concatenate Relay.concatenate ShapeRule.ofInputs Context.run
  simp only [mapError_ite, Context.operandCount_inputs, mapError_fail, mapError_bind,
    Context.mapError_operandDims, Context.mapError_attrD, mapError_lift, normalizeAxis_eq,
    inContext_mapError, joinRest_eq, mapError_pure]

/-! ## Matrix products -/

theorem denseUnits_eq (rows : Dim) :
    denseUnits c rows =
      (c.inputs.attr? Attr.toInt "units").mapError c.report >>= fun requested =>
        (Relay.denseUnits requested rows).mapError (blame c) := by
  rw [Context.mapError_attr?_bind]
  unfold denseUnits Relay.denseUnits
  split
  · refine bind_congr fun units => ?_
    rw [mapError_ite]
    split
    · rfl
    · cases rows.unify? (.known units.toNat) <;> rfl
  · rfl

@[simp] theorem dense_eq : dense = ShapeRule.ofInputs Relay.dense := by
  funext c
  unfold dense Relay.dense ShapeRule.ofInputs Context.run
  simp only [mapError_bind, Context.mapError_operandDims]
  refine bind_congr fun data => bind_congr fun weight => ?_
  cases data.getLast? with
  | none => rfl
  | some summed =>
    cases weight using lengthCases with
    | two rows columns =>
      simp only [mapError_ite, mapError_fail, mapError_bind, mapError_lift, mapError_pure,
        denseUnits_eq, bind_assoc]
    | _ => rfl

theorem batchDim_eq (left right : Dim) :
    batchDim c left right = (Relay.batchDim left right).mapError (blame c) := by
  unfold batchDim Relay.batchDim
  simp only [mapError_ite]
  split
  · rfl
  · split
    · rfl
    · cases left.unify? right <;> rfl

@[simp] theorem batchMatmul_eq : batchMatmul = ShapeRule.ofInputs Relay.batchMatmul := by
  funext c
  unfold batchMatmul Relay.batchMatmul ShapeRule.ofInputs Context.run
  simp only [mapError_bind, Context.mapError_operandDims]
  refine bind_congr fun left => bind_congr fun right => ?_
  cases left using lengthCases with
  | three b m k =>
    cases right using lengthCases with
    | three b' n k' =>
      simp only [mapError_ite, mapError_fail, mapError_bind, mapError_lift, mapError_pure,
        batchDim_eq]
    | _ => rfl
  | _ => rfl

/-! ## Images -/

@[simp] theorem pool2d_eq : pool2d = ShapeRule.ofInputs Relay.pool2d := by
  funext c
  unfold pool2d Relay.pool2d ShapeRule.ofInputs Context.run
  simp only [mapError_bind, Context.mapError_operandDims]
  refine bind_congr fun data => ?_
  cases data using lengthCases with
  | four n ch h w =>
    simp only [mapError_bind, Context.mapError_attr, Context.mapError_attrD, mapError_lift,
      mapError_pure, spatial_eq, padding_eq, outputDim_eq, inContext_mapError]
  | _ => rfl

@[simp] theorem globalPool2d_eq : globalPool2d = ShapeRule.ofInputs Relay.globalPool2d := by
  funext c
  unfold globalPool2d Relay.globalPool2d ShapeRule.ofInputs Context.run
  simp only [mapError_bind, Context.mapError_operandDims]
  refine bind_congr fun data => ?_
  cases data using lengthCases with
  | _ => rfl

theorem checkGroups_eq (data weight : Dim) (groups : Nat) :
    checkGroups c data weight groups =
      (Relay.checkGroups data weight groups).mapError (blame c) := by
  match data, weight with
  | .known m, .known n =>
    rw [checkGroups, Relay.checkGroups, checkedMul_eq, inContext_mapError]
    cases Relay.checkedMul n groups with
    | error e => rfl
    | ok expected =>
      rw [mapError_ok]
      dsimp only [bind, Except.bind]
      split <;> rfl
  | .dynamic, _ => rfl
  | .known _, .dynamic => rfl

theorem checkChannels_eq (weight : Dim) :
    checkChannels c weight =
      (c.inputs.attr? Attr.toInt "channels").mapError c.report >>= fun requested =>
        (Relay.checkChannels requested weight).mapError (blame c) := by
  rw [Context.mapError_attr?_bind]
  unfold checkChannels
  split
  · refine bind_congr fun channels => ?_
    cases weight with
    | dynamic => rfl
    | known o =>
      dsimp only [Relay.checkChannels]
      split <;> rfl
  · rfl

theorem checkKernel_eq (kernel : Spatial) :
    checkKernel c kernel =
      (c.inputs.attr? Attr.toInts "kernel_size").mapError c.report >>= fun requested =>
        (Relay.checkKernel requested kernel).mapError (blame c) := by
  rw [Context.mapError_attr?_bind]
  unfold checkKernel
  split
  · refine bind_congr fun values => ?_
    rw [Relay.checkKernel, spatial_eq, inContext_mapError]
    cases Spatial.ofList "kernel_size" values with
    | error e => rfl
    | ok size =>
      rw [mapError_ok]
      dsimp only [bind, Except.bind]
      split <;> rfl
  · rfl

@[simp] theorem conv2d_eq : conv2d = ShapeRule.ofInputs Relay.conv2d := by
  funext c
  unfold conv2d Relay.conv2d ShapeRule.ofInputs Context.run
  simp only [mapError_bind, Context.mapError_operandDims]
  refine bind_congr fun data => bind_congr fun weight => ?_
  cases data using lengthCases with
  | four n ch h w =>
    cases weight using lengthCases with
    | four o ci kh kw =>
      simp only [mapError_bind, Context.mapError_attrD, mapError_lift, mapError_pure,
        checkGroups_eq, checkChannels_eq, checkKernel_eq, spatial_eq, padding_eq, outputDim_eq,
        inContext_mapError, bind_assoc]
      refine bind_congr fun groups => ?_
      rw [Relay.positive, mapError_ite]
      split
      · rfl
      · refine bind_congr fun _ => bind_congr fun requested => bind_congr fun _ => ?_
        cases kh with
        | dynamic => rfl
        | known kh => cases kw <;> rfl
    | _ => rfl
  | _ => rfl

end TensorIR.Relay.InContext
