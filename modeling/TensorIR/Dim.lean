/-!
# Dimensions

One extent of a tensor: a number known when the program is compiled, or not known yet.
-/

namespace TensorIR

/-- The first number that is too large for an extent. -/
def extentLimit : Nat := UInt64.size

/-- The extent of one axis. -/
inductive Dim where
  /-- Known when the program is compiled. -/
  | known (n : Nat)
  /-- Not known before the program runs. -/
  | dynamic
  deriving DecidableEq, Repr, Inhabited

namespace Dim

def known? : Dim → Option Nat
  | known n => some n
  | dynamic => none

def isKnown (d : Dim) : Bool :=
  d.known?.isSome

/-- A number in decimal, or a question mark. -/
def text : Dim → String
  | known n => toString n
  | dynamic => "?"

/-- Two dimensions that describe one extent: a dynamic one takes over what the other knows, and two
known ones must agree. -/
def unify? : Dim → Dim → Option Dim
  | dynamic, d => some d
  | d, dynamic => some d
  | known a, known b => if a = b then some (known a) else none

/-- Texts of dimensions, separated by commas. -/
def listText (dims : List Dim) : String :=
  ", ".intercalate (dims.map text)

/-- The extents, when all are known. -/
def knownList? (dims : List Dim) : Option (List Nat) :=
  dims.mapM known?

end Dim

end TensorIR
