import TensorIR.Relay.Window

/-!
# Pooling and convolution

A window moves over the two spatial axes of images, which are listed as batch, channels, height and
width. The weights of a convolution are listed as output channels, input channels of one group,
height and width, and attributes that repeat what the weight says must agree with it.
-/

namespace TensorIR.Relay

/-! ## Pooling -/

/-- Windowed pooling, with `pool_size`, and with `strides`, `padding` and `ceil_mode` if given. -/
def pool2d : Rule := fun i => do
  let data ← i.operandDims 0
  match data with
  | [n, c, h, w] =>
    let size ← Defect.lift (Spatial.ofList "pool_size" (← i.attr Attr.toInts "pool_size"))
    let strides ← Defect.lift (Spatial.ofList "strides" (← i.attrD Attr.toInts "strides" [1]))
    let pad ← Defect.lift (Padding.ofList (← i.attrD Attr.toInts "padding" [0]))
    let ceil ← i.attrD Attr.toBool "ceil_mode" false
    let vertical : Window := ⟨size.height, strides.height, 1, pad.top, pad.bottom, ceil⟩
    let horizontal : Window := ⟨size.width, strides.width, 1, pad.left, pad.right, ceil⟩
    let height ← Defect.lift (vertical.outputDim h)
    let width ← Defect.lift (horizontal.outputDim w)
    return single [n, c, height, width]
  | _ => Defect.fail (.imageRank data.length)

/-- One number for each channel of each image. -/
def globalPool2d : Rule := fun i => do
  let data ← i.operandDims 0
  match data with
  | [n, c, _, _] => return single [n, c, .known 1, .known 1]
  | _ => Defect.fail (.imageRank data.length)

/-! ## Convolution -/

/-- The channels of the data must be those of the weight in every group, if both are known. -/
def checkGroups (data weight : Dim) (groups : Nat) : Except Defect Unit :=
  match data, weight with
  | .known c, .known i =>
    match checkedMul i groups with
    | .error e => .error e
    | .ok expected => if c = expected then .ok () else .error (.groupedChannels c i groups)
  | _, _ => .ok ()

/-- A requested number of output channels must be that of the weight, if it is known, both read as
signed words of 64 bits. -/
def checkChannels (requested : Option Int) (weight : Dim) : Except Defect Unit :=
  match requested, weight with
  | some channels, .known o =>
    if signedWord o = channels then .ok () else .error (.channels channels o)
  | _, _ => .ok ()

/-- The spatial extents of a kernel must be known. -/
def kernelExtents : Dim → Dim → Except Defect Spatial
  | .known h, .known w => .ok ⟨h, w⟩
  | _, _ => .error .dynamicKernel

/-- A requested kernel size must be that of the weight. -/
def checkKernel (requested : Option (List Int)) (kernel : Spatial) : Except Defect Unit :=
  match requested with
  | none => .ok ()
  | some values =>
    match Spatial.ofList "kernel_size" values with
    | .error e => .error e
    | .ok size =>
      if size = kernel then .ok ()
      else .error (.kernelSize (size.height, size.width) (kernel.height, kernel.width))

def conv2d : Rule := fun i => do
  let data ← i.operandDims 0
  let weight ← i.operandDims 1
  match data, weight with
  | [n, c, h, w], [o, ci, kh, kw] =>
    let groups ← Defect.lift (positive "groups" (← i.attrD Attr.toInt "groups" 1))
    Defect.lift (checkGroups c ci groups)
    Defect.lift (checkChannels (← i.attr? Attr.toInt "channels") o)
    let kernel ← Defect.lift (kernelExtents kh kw)
    Defect.lift (checkKernel (← i.attr? Attr.toInts "kernel_size") kernel)
    let strides ← Defect.lift (Spatial.ofList "strides" (← i.attrD Attr.toInts "strides" [1]))
    let dilation ← Defect.lift (Spatial.ofList "dilation" (← i.attrD Attr.toInts "dilation" [1]))
    let pad ← Defect.lift (Padding.ofList (← i.attrD Attr.toInts "padding" [0]))
    let vertical : Window :=
      ⟨kernel.height, strides.height, dilation.height, pad.top, pad.bottom, false⟩
    let horizontal : Window :=
      ⟨kernel.width, strides.width, dilation.width, pad.left, pad.right, false⟩
    let height ← Defect.lift (vertical.outputDim h)
    let width ← Defect.lift (horizontal.outputDim w)
    return single [n, o, height, width]
  | _, _ => Defect.fail (.convolutionRanks data.length weight.length)

end TensorIR.Relay
