import TensorIR.Relay.Extent

/-!
# Sliding windows

A window moves over a padded axis in steps of `stride`. A dilated window of `size` elements covers
`dilation * (size - 1) + 1` positions. The number of places at which it can stop is the output
extent.
-/

namespace TensorIR.Relay

/-- Two numbers, for the vertical and the horizontal axis of an image. -/
structure Spatial where
  height : Nat
  width : Nat
  deriving DecidableEq, Repr, Inhabited

/-- Rows and columns added around an image. -/
structure Padding where
  top : Nat
  left : Nat
  bottom : Nat
  right : Nat
  deriving DecidableEq, Repr, Inhabited

/-- A number that must be positive. -/
def positive (what : String) (value : Int) : Except Defect Nat :=
  if value ≤ 0 then .error (.notPositive what value) else .ok value.toNat

/-- One positive number for both axes, or one for each. -/
def Spatial.ofList (what : String) : List Int → Except Defect Spatial
  | [v] => do
    let n ← positive what v
    return ⟨n, n⟩
  | [h, w] => return ⟨← positive what h, ← positive what w⟩
  | values => .error (.pairLength what values.length)

/-- One number for all sides, one for top and bottom and one for left and right, or one for each. -/
def Padding.ofList (values : List Int) : Except Defect Padding :=
  match values.find? (· < 0) with
  | some v => .error (.negative "padding" v)
  | none =>
    match values.map Int.toNat with
    | [p] => .ok ⟨p, p, p, p⟩
    | [h, w] => .ok ⟨h, w, h, w⟩
    | [t, l, b, r] => .ok ⟨t, l, b, r⟩
    | _ => .error (.paddingLength values.length)

/-- A window along one axis. -/
structure Window where
  size : Nat
  stride : Nat
  dilation : Nat
  /-- Padding in front of the axis. -/
  before : Nat
  /-- Padding behind the axis. -/
  after : Nat
  /-- A last window that is only partly inside counts as well. -/
  ceil : Bool
  deriving DecidableEq, Repr, Inhabited

namespace Window

/-- The number of places at which the window stops on a known extent. -/
def outputExtent (w : Window) (input : Nat) : Except Defect Nat := do
  if w.size = 0 then .error .emptyWindow
  else
    let reach ← checkedMul w.dilation (w.size - 1)
    let effective ← checkedAdd reach 1
    let front ← checkedAdd input w.before
    let padded ← checkedAdd front w.after
    if padded < effective then .error (.windowTooLarge effective padded)
    else
      let span := padded - effective
      let steps := if w.ceil then (span + w.stride - 1) / w.stride else span / w.stride
      return steps + 1

/-- The output extent, dynamic for a dynamic input. -/
def outputDim (w : Window) : Dim → Except Defect Dim
  | .dynamic => .ok .dynamic
  | .known input => (w.outputExtent input).map .known

end Window

end TensorIR.Relay
