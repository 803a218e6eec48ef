import TensorIR.Inference.Inputs

/-!
# Why a shape of the dialect cannot be inferred

The causes, with the one function that words them. Inside a rule a defect becomes a fault of the
rule.
-/

namespace TensorIR.Relay

/-- What is wrong with operands or attributes of an operation of the dialect. -/
inductive Defect where
  /-- An extent does not fit in 64 bits. -/
  | overflow
  | axisOutOfRange (axis : Int) (rank : Nat)
  | notPositive (what : String) (value : Int)
  | negative (what : String) (value : Int)
  | pairLength (what : String) (count : Nat)
  | paddingLength (count : Nat)
  | emptyWindow
  | windowTooLarge (effective padded : Nat)
  | operandCount (expected found : Nat)
  | imageRank (rank : Nat)
  | biasRank (rank : Nat)
  | biasLength (bias data : Dim) (axis : Nat)
  | convolutionRanks (data weight : Nat)
  | groupedChannels (data weight groups : Nat)
  | channels (requested : Int) (weight : Nat)
  | dynamicKernel
  | kernelSize (requested weight : Nat × Nat)
  | denseDataRank
  | denseWeightRank (rank : Nat)
  | denseReduction (data weight : Dim)
  | denseUnits (requested : Int) (weight : Dim)
  | batchRanks (left right : Nat)
  | batchReduction (left right : Dim)
  | batchExtent (left right : Dim)
  | copyBeyondRank (index rank : Nat)
  | secondInferredEntry
  | unsupportedEntry (value : Int)
  | inferFromDynamic
  | inferBesideDynamic
  | indivisible (total : Nat) (newshape : List Int)
  | elementCount (before after : Nat)
  | axesLength (count rank : Nat)
  | notPermutation (axes : List Nat)
  | rankLimit (rank limit : Nat)
  | notUnitAxis (axis extent : Nat)
  | ambiguousSqueeze
  | noOperands
  | operandRank (operand rank expected : Nat)
  | operandDim (operand axis : Nat) (found expected : Dim)
  | flattenRank
  deriving DecidableEq, Repr, Inhabited

namespace Defect

/-- Numbers in brackets, separated by commas. -/
def naturals (ns : List Nat) : String :=
  Attr.bracketed (ns.map toString)

/-- The wording of a defect. -/
def text : Defect → String
  | overflow => "shape overflows usize"
  | axisOutOfRange axis rank =>
    "axis " ++ toString axis ++ " out of range for rank " ++ toString rank
  | notPositive what value => what ++ " must be positive, got " ++ toString value
  | negative what value => what ++ " must be non-negative, got " ++ toString value
  | pairLength what count => what ++ " expects 1 or 2 values, got " ++ toString count
  | paddingLength count => "padding expects 1, 2 or 4 values, got " ++ toString count
  | emptyWindow => "window size must be positive"
  | windowTooLarge effective padded =>
    "window of size " ++ toString effective ++ " does not fit padded extent " ++ toString padded
  | operandCount expected found =>
    "expected " ++ toString expected ++ (if expected = 1 then " operand" else " operands") ++
      ", got " ++ toString found
  | imageRank rank => "expected NCHW input of rank 4, got rank " ++ toString rank
  | biasRank rank => "bias must have rank 1, got " ++ toString rank
  | biasLength bias data axis =>
    "bias length " ++ bias.text ++ " does not match data dim " ++ data.text ++ " on axis " ++
      toString axis
  | convolutionRanks data weight =>
    "conv2d expects rank 4 data and weight, got " ++ toString data ++ " and " ++ toString weight
  | groupedChannels data weight groups =>
    "input channels " ++ toString data ++ " do not match weight channels " ++ toString weight ++
      " x groups " ++ toString groups
  | channels requested weight =>
    "channels=" ++ toString requested ++ " but weight has " ++ toString weight ++
      " output channels"
  | dynamicKernel => "kernel spatial dims must be static"
  | kernelSize requested weight =>
    "kernel_size " ++ naturals [requested.1, requested.2] ++ " does not match weight " ++
      toString weight.1 ++ "x" ++ toString weight.2
  | denseDataRank => "dense data must have rank >= 1"
  | denseWeightRank rank => "dense weight must have rank 2, got " ++ toString rank
  | denseReduction data weight =>
    "reduction dims differ: data has " ++ data.text ++ ", weight has " ++ weight.text
  | denseUnits requested weight =>
    "units=" ++ toString requested ++ " but weight has " ++ weight.text ++ " rows"
  | batchRanks left right =>
    "batch_matmul expects rank 3 operands, got " ++ toString left ++ " and " ++ toString right
  | batchReduction left right => "reduction dims differ: " ++ left.text ++ " vs " ++ right.text
  | batchExtent left right => "batch dims differ: " ++ left.text ++ " vs " ++ right.text
  | copyBeyondRank index rank =>
    "newshape copies input dim " ++ toString index ++ " of rank " ++ toString rank
  | secondInferredEntry => "newshape may contain at most one -1"
  | unsupportedEntry value => "unsupported newshape value " ++ toString value
  | inferFromDynamic => "cannot infer -1 from a dynamic input shape"
  | inferBesideDynamic => "cannot infer -1 next to a dynamic output dimension"
  | indivisible total newshape =>
    "cannot reshape " ++ toString total ++ " elements into newshape " ++
      Attr.bracketed (newshape.map toString)
  | elementCount before after =>
    "cannot reshape " ++ toString before ++ " elements into " ++ toString after ++ " elements"
  | axesLength count rank =>
    "axes has " ++ toString count ++ " entries for rank " ++ toString rank
  | notPermutation axes => "axes " ++ naturals axes ++ " is not a permutation"
  | rankLimit rank limit =>
    "expand_dims to rank " ++ toString rank ++ " exceeds the maximum rank " ++ toString limit
  | notUnitAxis axis extent =>
    "cannot squeeze axis " ++ toString axis ++ " of size " ++ toString extent
  | ambiguousSqueeze => "squeeze without axis is ambiguous for dynamic dimensions"
  | noOperands => "concatenate needs at least one operand"
  | operandRank operand rank expected =>
    "operand " ++ toString operand ++ " has rank " ++ toString rank ++ ", expected " ++
      toString expected
  | operandDim operand axis found expected =>
    "operand " ++ toString operand ++ " dim " ++ toString axis ++ " is " ++ found.text ++
      ", expected " ++ expected.text
  | flattenRank => "batch_flatten needs rank >= 1"

def fault (d : Defect) : Fault :=
  .shape d.text

/-- Fail inside a rule. -/
def fail {α : Type} (d : Defect) : Except Fault α :=
  .error d.fault

/-- Use a computation on dimensions inside a rule. -/
def lift {α : Type} (x : Except Defect α) : Except Fault α :=
  x.mapError fault

end Defect

/-- A rule of the dialect. -/
abbrev Rule := Inputs → Except Fault (List Component)

/-- One result with inferred dimensions and an unchanged element kind. -/
def single (dims : List Dim) : List Component :=
  [⟨dims, none⟩]

end TensorIR.Relay
