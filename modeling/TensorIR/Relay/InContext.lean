import TensorIR.Broadcast
import TensorIR.Operator
import TensorIR.Relay.Rearrange
import TensorIR.Relay.Window

/-!
# Rules of the dialect in their contexts

The shape rules as operators run them. A rule is given a whole context and may fail with any error.
Arithmetic on extents, axes and windows is shared by the rules and knows no context: it fails in
words of its own, which `inContext` turns into an error of the context, while errors of other layers
pass through as they are. Broadcasting is such a layer; its error does not name the operation, so
`binary` words it anew.

Nothing in the types of these rules keeps them from looking at more than operand types and
attributes, or from failing without a word about the operation. That they do neither follows from
the equations between them and the rules on inputs (`InContext.unary_eq` and the others).
-/

namespace TensorIR.Relay

/-- What goes wrong in a computation that rules share. -/
inductive Failure where
  /-- Words that do not say for which operation. -/
  | message (text : String)
  /-- An error of another layer. -/
  | raised (e : Error)
  deriving DecidableEq, Repr, Inhabited

/-- The error for a failure in a context. -/
def Failure.inContext (c : Context) : Failure → Error
  | message text => c.shapeError text
  | raised e => e

def Defect.failure (d : Defect) : Failure :=
  .message d.text

namespace InContext

/-- Use a shared computation inside a rule. -/
def inContext {α : Type} (c : Context) (x : Except Failure α) : Except Error α :=
  x.mapError (Failure.inContext c)

/-- Fail inside a rule. -/
def refuse {α : Type} (c : Context) (d : Defect) : Except Error α :=
  .error (c.shapeError d.text)

/-! ## Extents and axes -/

def checkedAdd (a b : Nat) : Except Failure Nat :=
  if a + b < extentLimit then .ok (a + b) else .error Defect.overflow.failure

def checkedMul (a b : Nat) : Except Failure Nat :=
  if a * b < extentLimit then .ok (a * b) else .error Defect.overflow.failure

/-- The product of `acc` and the dimensions, up to the first dynamic one. -/
def productFrom (acc : Nat) : List Dim → Except Failure Dim
  | [] => .ok (.known acc)
  | .dynamic :: _ => .ok .dynamic
  | .known n :: rest => do productFrom (← checkedMul acc n) rest

/-- The number of elements of a shape. -/
def product (dims : List Dim) : Except Failure Dim :=
  productFrom 1 dims

/-- The position of an axis, which may be counted from the back. -/
def normalizeAxis (axis : Int) (rank : Nat) : Except Failure Nat :=
  let position := if axis < 0 then axis + rank else axis
  if position < 0 ∨ (rank : Int) ≤ position then
    .error (Defect.axisOutOfRange axis rank).failure
  else .ok position.toNat

def normalizeAxes (axes : List Int) (rank : Nat) : Except Failure (List Nat) :=
  axes.mapM fun axis => normalizeAxis axis rank

/-! ## Windows -/

/-- A number that must be positive. -/
def positive (what : String) (value : Int) : Except Failure Nat :=
  if value ≤ 0 then .error (Defect.notPositive what value).failure else .ok value.toNat

/-- One positive number for both axes of an image, or one for each. -/
def spatial (what : String) : List Int → Except Failure Spatial
  | [v] => do
    let n ← positive what v
    return ⟨n, n⟩
  | [h, w] => return ⟨← positive what h, ← positive what w⟩
  | values => .error (Defect.pairLength what values.length).failure

/-- One number for all sides of an image, two for opposite sides, or one for each. -/
def padding (values : List Int) : Except Failure Padding :=
  match values.find? (· < 0) with
  | some v => .error (Defect.negative "padding" v).failure
  | none =>
    match values.map Int.toNat with
    | [p] => .ok ⟨p, p, p, p⟩
    | [h, w] => .ok ⟨h, w, h, w⟩
    | [t, l, b, r] => .ok ⟨t, l, b, r⟩
    | _ => .error (Defect.paddingLength values.length).failure

/-- The number of places at which a window stops, dynamic for a dynamic input. -/
def outputDim (w : Window) : Dim → Except Failure Dim
  | .dynamic => .ok .dynamic
  | .known input => do
    if w.size = 0 then .error Defect.emptyWindow.failure
    else
      let effective ← checkedAdd (← checkedMul w.dilation (w.size - 1)) 1
      let padded ← checkedAdd (← checkedAdd input w.before) w.after
      if padded < effective then .error (Defect.windowTooLarge effective padded).failure
      else
        let span := padded - effective
        let steps := if w.ceil then (span + w.stride - 1) / w.stride else span / w.stride
        return .known (steps + 1)

/-! ## Element by element -/

def unary : ShapeRule := fun c => do
  if c.operandCount ≠ 1 then refuse c (.operandCount 1 c.operandCount)
  else
    let dims ← c.operandDims 0
    return single dims

/-- The dimensions of a tensor or a scalar, which has none. -/
def dimsOrNone (c : Context) (index : Nat) : Except Error (List Dim) := do
  match ← c.operandTy index with
  | .scalar _ => return []
  | .tensor t => return t.dims

def binary : ShapeRule := fun c => do
  if c.operandCount ≠ 2 then refuse c (.operandCount 2 c.operandCount)
  else
    let left ← dimsOrNone c 0
    let right ← dimsOrNone c 1
    let dims ← (Broadcast.dims left right).mapError fun e => c.shapeError e.message
    return single dims

/-- The dimensions of data with the extent of the bias on an axis. -/
def addBias (c : Context) (data : List Dim) (bias : Dim) (axis : Nat) : Except Error (List Dim) :=
  match data[axis]? with
  | none => refuse c (.axisOutOfRange axis data.length)
  | some d =>
    match d.unify? bias with
    | none => refuse c (.biasLength bias d axis)
    | some unified => .ok (data.set axis unified)

def biasAdd : ShapeRule := fun c => do
  let data ← c.operandDims 0
  let bias ← c.operandDims 1
  match bias with
  | [channels] =>
    let axis ← inContext c (normalizeAxis (← c.attrD Attr.toInt "axis" 1) data.length)
    let dims ← addBias c data channels axis
    return single dims
  | _ => refuse c (.biasRank bias.length)

def softmax : ShapeRule := fun c => do
  let dims ← c.operandDims 0
  let axis ← c.attrD Attr.toInt "axis" (-1)
  discard (inContext c (normalizeAxis axis dims.length))
  return single dims

def cast : ShapeRule := fun c => do
  let dims ← c.operandDims 0
  let element ← c.attr Attr.toElement "dtype"
  return [⟨dims, some element⟩]

/-! ## Axes -/

/-- The dimensions with the axes in another order, for a permutation of the axes. -/
def permuteDims (c : Context) (dims : List Dim) (perm : List Nat) : Except Error (List Dim) :=
  if perm.length ≠ dims.length then refuse c (.axesLength perm.length dims.length)
  else if perm.Nodup then .ok (perm.filterMap fun axis => dims[axis]?)
  else refuse c (.notPermutation perm)

def transpose : ShapeRule := fun c => do
  let input ← c.operandDims 0
  let perm ←
    if c.hasAttr "axes" then do
      inContext c (normalizeAxes (← c.attr Attr.toInts "axes") input.length)
    else .ok (List.range input.length).reverse
  let dims ← permuteDims c input perm
  return single dims

def expand : ShapeRule := fun c => do
  let input ← c.operandDims 0
  let position ← inContext c (normalizeAxis (← c.attr Attr.toInt "axis") (input.length + 1))
  let count ← c.attrD Attr.toInt "num_newaxis" 1
  if count < 0 then refuse c (.negative "num_newaxis" count)
  else if maxRank - input.length < count.toNat then
    refuse c (.rankLimit (input.length + count.toNat) maxRank)
  else
    let ones := List.replicate count.toNat (.known 1)
    return single (input.take position ++ ones ++ input.drop position)

/-- The position of a listed axis, whose extent must be 1 if it is known. -/
def unitAxis (c : Context) (dims : List Dim) (axis : Int) : Except Error Nat := do
  let position ← inContext c (normalizeAxis axis dims.length)
  match dims[position]? with
  | some (.known n) => if n = 1 then return position else refuse c (.notUnitAxis position n)
  | _ => return position

def squeeze : ShapeRule := fun c => do
  let input ← c.operandDims 0
  if c.hasAttr "axis" then
    let removed ← (← c.attr Attr.toInts "axis").mapM (unitAxis c input)
    let kept := input.zipIdx.filterMap fun (d, axis) =>
      if removed.contains axis then none else some d
    return single kept
  else if input.contains .dynamic then refuse c .ambiguousSqueeze
  else return single (input.filter fun d => d != .known 1)

def reduction : ShapeRule := fun c => do
  let dims ← c.operandDims 0
  let keep ← c.attrD Attr.toBool "keepdims" false
  let exclude ← c.attrD Attr.toBool "exclude" false
  let listed ←
    if c.hasAttr "axis" then do
      inContext c (normalizeAxes (← c.attr Attr.toInts "axis") dims.length)
    else .ok (List.range dims.length)
  let kept := dims.zipIdx.filterMap fun (d, axis) =>
    if listed.contains axis != exclude then (if keep then some (.known 1) else none) else some d
  return single kept

/-! ## Reshaping and concatenation -/

/-- The new dimensions, `none` for the one to infer, with the next dimension of the operand at
`source`; `vacant` tells that no entry so far is one to infer. -/
def layOut (c : Context) (input : List Dim) (source : Nat) (vacant : Bool) :
    List Int → Except Error (List (Option Dim))
  | [] => .ok []
  | entry :: rest => do
    if 0 < entry then
      return some (.known entry.toNat) :: (← layOut c input (source + 1) vacant rest)
    else if entry = 0 then
      match input[source]? with
      | none => refuse c (.copyBeyondRank source input.length)
      | some d => return some d :: (← layOut c input (source + 1) vacant rest)
    else if entry = -1 then
      if vacant then return none :: (← layOut c input (source + 1) false rest)
      else refuse c .secondInferredEntry
    else if entry = -2 then
      return (input.drop source).map some ++ (← layOut c input input.length vacant rest)
    else refuse c (.unsupportedEntry entry)

/-- The product of `acc` and the dimensions beside the one to infer, which must be known. -/
def knownProduct (c : Context) (acc : Nat) : List (Option Dim) → Except Error Nat
  | [] => .ok acc
  | none :: rest => knownProduct c acc rest
  | some .dynamic :: _ => refuse c .inferBesideDynamic
  | some (.known n) :: rest => do knownProduct c (← inContext c (checkedMul acc n)) rest

def reshape : ShapeRule := fun c => do
  let input ← c.operandDims 0
  let newshape ← c.attr Attr.toInts "newshape"
  let slots ← layOut c input 0 true newshape
  let count ← inContext c (product input)
  if slots.contains none then
    match count with
    | .dynamic => refuse c .inferFromDynamic
    | .known total =>
      let known ← knownProduct c 1 slots
      if known = 0 ∨ total % known ≠ 0 then refuse c (.indivisible total newshape)
      else return single (slots.map fun slot => slot.getD (.known (total / known)))
  else
    let out := slots.filterMap id
    match count, ← inContext c (product out) with
    | .known before, .known after =>
      if before = after then return single out else refuse c (.elementCount before after)
    | _, _ => return single out

def batchFlatten : ShapeRule := fun c => do
  match ← c.operandDims 0 with
  | [] => refuse c .flattenRank
  | batch :: rest =>
    let flat ← inContext c (product rest)
    return single [batch, flat]

/-- Join an operand to what has been joined so far, axis by axis, starting at `position`. -/
def joinDims (c : Context) (operand axis position : Nat) :
    List Dim → List Dim → Except Error (List Dim)
  | a :: as, b :: bs => do
    let d ←
      if position = axis then
        match a, b with
        | .known m, .known n => (inContext c (checkedAdd m n)).map .known
        | _, _ => .ok .dynamic
      else
        match a.unify? b with
        | none => refuse c (.operandDim operand position b a)
        | some d => .ok d
    return d :: (← joinDims c operand axis (position + 1) as bs)
  | _, _ => .ok []

/-- Join `count` operands from number `operand` on to what has been joined so far. -/
def joinRest (c : Context) (axis : Nat) (joined : List Dim) :
    (operand count : Nat) → Except Error (List Dim)
  | _, 0 => .ok joined
  | operand, count + 1 => do
    let dims ← c.operandDims operand
    if dims.length ≠ joined.length then
      refuse c (.operandRank operand dims.length joined.length)
    else
      let joined ← joinDims c operand axis 0 joined dims
      joinRest c axis joined (operand + 1) count

def concatenate : ShapeRule := fun c => do
  if c.operandCount = 0 then refuse c .noOperands
  else
    let first ← c.operandDims 0
    let axis ← inContext c (normalizeAxis (← c.attrD Attr.toInt "axis" 0) first.length)
    let dims ← joinRest c axis first 1 (c.operandCount - 1)
    return single dims

/-! ## Matrix products -/

/-- The number of rows that is asked for, or that of the weight. -/
def denseUnits (c : Context) (rows : Dim) : Except Error Dim := do
  if c.hasAttr "units" then
    let units ← c.attr Attr.toInt "units"
    if units ≤ 0 then refuse c (.notPositive "units" units)
    else
      match rows.unify? (.known units.toNat) with
      | none => refuse c (.denseUnits units rows)
      | some d => return d
  else return rows

def dense : ShapeRule := fun c => do
  let data ← c.operandDims 0
  let weight ← c.operandDims 1
  match data.getLast?, weight with
  | none, _ => refuse c .denseDataRank
  | some summed, [rows, columns] =>
    if (summed.unify? columns).isNone then refuse c (.denseReduction summed columns)
    else
      let units ← denseUnits c rows
      return single (data.dropLast ++ [units])
  | some _, _ => refuse c (.denseWeightRank weight.length)

def batchDim (c : Context) (left right : Dim) : Except Error Dim :=
  if left = .known 1 then .ok right
  else if right = .known 1 then .ok left
  else
    match left.unify? right with
    | none => refuse c (.batchExtent left right)
    | some d => .ok d

def batchMatmul : ShapeRule := fun c => do
  let left ← c.operandDims 0
  let right ← c.operandDims 1
  match left, right with
  | [b, m, k], [b', n, k'] =>
    if (k.unify? k').isNone then refuse c (.batchReduction k k')
    else
      let batch ← batchDim c b b'
      return single [batch, m, n]
  | _, _ => refuse c (.batchRanks left.length right.length)

/-! ## Images -/

def pool2d : ShapeRule := fun c => do
  let data ← c.operandDims 0
  match data with
  | [n, ch, h, w] =>
    let size ← inContext c (spatial "pool_size" (← c.attr Attr.toInts "pool_size"))
    let strides ← inContext c (spatial "strides" (← c.attrD Attr.toInts "strides" [1]))
    let pad ← inContext c (padding (← c.attrD Attr.toInts "padding" [0]))
    let ceil ← c.attrD Attr.toBool "ceil_mode" false
    let vertical : Window := ⟨size.height, strides.height, 1, pad.top, pad.bottom, ceil⟩
    let horizontal : Window := ⟨size.width, strides.width, 1, pad.left, pad.right, ceil⟩
    let height ← inContext c (outputDim vertical h)
    let width ← inContext c (outputDim horizontal w)
    return single [n, ch, height, width]
  | _ => refuse c (.imageRank data.length)

def globalPool2d : ShapeRule := fun c => do
  let data ← c.operandDims 0
  match data with
  | [n, ch, _, _] => return single [n, ch, .known 1, .known 1]
  | _ => refuse c (.imageRank data.length)

/-- The channels of the data must be those of the weight in every group, if both are known. -/
def checkGroups (c : Context) (data weight : Dim) (groups : Nat) : Except Error Unit :=
  match data, weight with
  | .known m, .known n => do
    let expected ← inContext c (checkedMul n groups)
    if m = expected then return () else refuse c (.groupedChannels m n groups)
  | _, _ => .ok ()

/-- A requested number of output channels must be that of the weight, if it is known, both read as
signed words of 64 bits. -/
def checkChannels (c : Context) (weight : Dim) : Except Error Unit := do
  if c.hasAttr "channels" then
    let channels ← c.attr Attr.toInt "channels"
    match weight with
    | .known o =>
      if signedWord o = channels then return () else refuse c (.channels channels o)
    | .dynamic => return ()
  else return ()

/-- A requested kernel size must be that of the weight. -/
def checkKernel (c : Context) (kernel : Spatial) : Except Error Unit := do
  if c.hasAttr "kernel_size" then
    let size ← inContext c (spatial "kernel_size" (← c.attr Attr.toInts "kernel_size"))
    if size = kernel then return ()
    else
      refuse c (.kernelSize (size.height, size.width) (kernel.height, kernel.width))
  else return ()

def conv2d : ShapeRule := fun c => do
  let data ← c.operandDims 0
  let weight ← c.operandDims 1
  match data, weight with
  | [n, ch, h, w], [o, ci, kh, kw] =>
    let groups ← c.attrD Attr.toInt "groups" 1
    if groups ≤ 0 then refuse c (.notPositive "groups" groups)
    else
      checkGroups c ch ci groups.toNat
      checkChannels c o
      match kh, kw with
      | .known kh, .known kw =>
        checkKernel c ⟨kh, kw⟩
        let strides ← inContext c (spatial "strides" (← c.attrD Attr.toInts "strides" [1]))
        let dilation ← inContext c (spatial "dilation" (← c.attrD Attr.toInts "dilation" [1]))
        let pad ← inContext c (padding (← c.attrD Attr.toInts "padding" [0]))
        let vertical : Window :=
          ⟨kh, strides.height, dilation.height, pad.top, pad.bottom, false⟩
        let horizontal : Window :=
          ⟨kw, strides.width, dilation.width, pad.left, pad.right, false⟩
        let height ← inContext c (outputDim vertical h)
        let width ← inContext c (outputDim horizontal w)
        return single [n, o, height, width]
      | _, _ => refuse c .dynamicKernel
  | _, _ => refuse c (.convolutionRanks data.length weight.length)

end InContext

end TensorIR.Relay
