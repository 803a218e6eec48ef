import TensorIR.Relay.Extent

/-!
# Rearranging and reducing axes

Transposition permutes the axes, `expand_dims` puts in axes of extent 1, and `squeeze` takes such
axes away. None of them looks at the other extents. A reduction takes away axes of any extent, or
leaves them with extent 1; the attribute `axis` lists the axes to reduce, all by default, and
`exclude` turns the choice around.
-/

namespace TensorIR.Relay

/-- The greatest rank that a rule may produce. -/
def maxRank : Nat := 64

/-! ## Transposition -/

/-- The shape whose axis `j` is axis `perm[j]` of the operand, for a permutation of the axes. -/
def permuteDims (dims : List Dim) (perm : List Nat) : Except Defect (List Dim) :=
  if perm.length ≠ dims.length then .error (.axesLength perm.length dims.length)
  else if perm.Nodup then .ok (perm.filterMap fun axis => dims[axis]?)
  else .error (.notPermutation perm)

/-- The shape with its axes in a new order, by default the opposite order. -/
def transposeDims (dims : List Dim) (axes : Option (List Int)) : Except Defect (List Dim) := do
  let perm ← match axes with
    | some axes => normalizeAxes axes dims.length
    | none => .ok (List.range dims.length).reverse
  permuteDims dims perm

def transpose : Rule := fun i => do
  let input ← i.operandDims 0
  let axes ← i.attr? Attr.toInts "axes"
  return single (← Defect.lift (transposeDims input axes))

/-! ## Putting in axes of extent 1 -/

/-- The shape with `count` axes of extent 1 in front of the axis at a position. -/
def expandDims (dims : List Dim) (position : Nat) (count : Int) : Except Defect (List Dim) :=
  if count < 0 then .error (.negative "num_newaxis" count)
  else if maxRank - dims.length < count.toNat then
    .error (.rankLimit (dims.length + count.toNat) maxRank)
  else
    .ok (dims.take position ++ List.replicate count.toNat (.known 1) ++ dims.drop position)

/-- New axes at `axis`, which is counted from the rank plus one if it is negative. -/
def expand : Rule := fun i => do
  let input ← i.operandDims 0
  let axis ← i.attr Attr.toInt "axis"
  let position ← Defect.lift (normalizeAxis axis (input.length + 1))
  let count ← i.attrD Attr.toInt "num_newaxis" 1
  return single (← Defect.lift (expandDims input position count))

/-! ## Taking axes of extent 1 away -/

/-- The position of an axis whose extent is 1, or not known and taken to be 1. -/
def unitAxis (dims : List Dim) (axis : Int) : Except Defect Nat := do
  let position ← normalizeAxis axis dims.length
  match dims[position]? with
  | some (.known n) => if n = 1 then return position else .error (.notUnitAxis position n)
  | _ => return position

/-- The shape without the listed axes, or without all axes of extent 1 if none are listed. -/
def squeezeDims (dims : List Dim) (axes : Option (List Int)) : Except Defect (List Dim) := do
  match axes with
  | some axes =>
    let removed ← axes.mapM (unitAxis dims)
    return dims.zipIdx.filterMap fun (d, axis) => if removed.contains axis then none else some d
  | none =>
    if dims.contains .dynamic then .error .ambiguousSqueeze
    else return dims.filter fun d => d != .known 1

def squeeze : Rule := fun i => do
  let input ← i.operandDims 0
  let axes ← i.attr? Attr.toInts "axis"
  return single (← Defect.lift (squeezeDims input axes))

/-! ## Reductions -/

/-- The shape after reducing the chosen axes, which stay with extent 1 if `keep`. -/
def reduceDims (dims : List Dim) (reduced : Nat → Bool) (keep : Bool) : List Dim :=
  dims.zipIdx.filterMap fun (d, axis) =>
    if reduced axis then (if keep then some (.known 1) else none) else some d

def reduction : Rule := fun i => do
  let dims ← i.operandDims 0
  let keep ← i.attrD Attr.toBool "keepdims" false
  let exclude ← i.attrD Attr.toBool "exclude" false
  let listed ← match ← i.attr? Attr.toInts "axis" with
    | some axes => Defect.lift (normalizeAxes axes dims.length)
    | none => .ok (List.range dims.length)
  return single (reduceDims dims (fun axis => listed.contains axis != exclude) keep)

end TensorIR.Relay
