import TensorIR.Error

/-!
# Broadcasting of shapes

Two shapes are aligned at their last axes, missing axes counting as extent 1. Aligned extents must
be equal or one of them 1. An extent that is not known yet is taken to fit: next to a known extent
other than 1 it can only be that extent or 1, so the known extent is the answer.
-/

namespace TensorIR

/-- The extent of the broadcast of two extents, if they fit. -/
def Dim.broadcast? : Dim → Dim → Option Dim
  | .known a, .known b =>
    if a = b then some (.known a)
    else if a = 1 then some (.known b)
    else if b = 1 then some (.known a)
    else none
  | .dynamic, .known b => if b = 1 then some .dynamic else some (.known b)
  | .known a, .dynamic => if a = 1 then some .dynamic else some (.known a)
  | .dynamic, .dynamic => some .dynamic

namespace Broadcast

/-- A shape of at least `rank` axes, with axes of extent 1 in front. -/
def align (rank : Nat) (dims : List Dim) : List Dim :=
  List.replicate (rank - dims.length) (.known 1) ++ dims

/-- Broadcast aligned shapes axis by axis, counting from `position`. The error is the first position
whose extents do not fit. -/
def zip (position : Nat) : List Dim → List Dim → Except Nat (List Dim)
  | a :: as, b :: bs =>
    match a.broadcast? b with
    | none => .error position
    | some d =>
      match zip (position + 1) as bs with
      | .error p => .error p
      | .ok ds => .ok (d :: ds)
  | _, _ => .ok []

/-- The broadcast of two shapes. -/
def dims (a b : List Dim) : Except Error (List Dim) :=
  let rank := max a.length b.length
  match zip 0 (align rank a) (align rank b) with
  | .error position => .error (.cannotBroadcast a b position)
  | .ok ds => .ok ds

/-- The broadcast of two shapes whose extents are all known; then those of the result are, too. -/
def shape (a b : List Nat) : Except Error (List Nat) :=
  (dims (a.map .known) (b.map .known)).map fun ds => ds.filterMap Dim.known?

end Broadcast

end TensorIR
