import TensorIR.Proofs.Machine.Basic
import TensorIR.Proofs.Relay.Static
import TensorIR.Relay.Window

/-!
# What the rules share, on machine words

Operands, axes, broadcasting and windows, as a machine evaluates them. Every operand and attribute
that it can hold (`Fits`) leaves each step in range, and the evaluation comes to what the rules
compute with numbers of any size.
-/

namespace TensorIR.Machine

open Fallible (Ensures)
open Relay (Defect Spatial Padding Window signedWord)

variable {i : Inputs}

/-! ## Operands and attributes that a machine can hold -/

/-- No list in memory has more dimensions. -/
def rankLimit : Nat := 2 ^ 59

/-- A list of signed words that memory can hold. -/
def ListFits (vs : List Int) : Prop :=
  vs.length < 2 ^ 63 ∧ ∀ v ∈ vs, IsSigned v

instance (vs : List Int) : Decidable (ListFits vs) :=
  inferInstanceAs (Decidable (_ ∧ _))

/-- The numbers of an attribute are signed words; nothing is asked of other kinds. -/
def AttrFits : Attr → Prop
  | .int v => IsSigned v
  | .ints vs => ListFits vs
  | _ => True

instance : (a : Attr) → Decidable (AttrFits a)
  | .int v => inferInstanceAs (Decidable (IsSigned v))
  | .ints vs => inferInstanceAs (Decidable (ListFits vs))
  | .float _ | .bool _ | .string _ | .floats _ | .element _ => isTrue trivial

/-- Operands and attributes that a machine can hold. -/
structure Fits (i : Inputs) : Prop where
  ranks : ∀ ty, some ty ∈ i.operands → ty.dims.length < rankLimit
  attributes : ∀ key a, i.attributes.get? key = some a → AttrFits a

theorem toInt_fits {a : Attr} (h : AttrFits a) : Ensures IsSigned a.toInt := by
  cases a with
  | int v => exact .ok h
  | _ => exact .error

theorem toInts_fits {a : Attr} (h : AttrFits a) : Ensures ListFits a.toInts := by
  cases a with
  | int v => exact .ok ⟨by simp, List.forall_mem_singleton.2 h⟩
  | ints vs => exact .ok h
  | _ => exact .error

namespace Fits

theorem rank_lt (h : Fits i) {k : Nat} {ds : List Dim} (hds : i.operandDims k = .ok ds) :
    ds.length < rankLimit :=
  Inputs.ensures_operandDims (P := fun ds => ds.length < rankLimit) h.ranks k ds hds

section Attributes

variable {α : Type} {P : α → Prop} {read : Attr → Except Attr.Mismatch α}

theorem attr (h : Fits i) (hread : ∀ a, AttrFits a → Ensures P (read a)) (key : String) :
    Ensures P (i.attr read key) := by
  unfold Inputs.attr
  split
  · exact .error
  · next a ha => exact (hread a (h.attributes key a ha)).mapError

theorem attrD (h : Fits i) (hread : ∀ a, AttrFits a → Ensures P (read a)) (key : String)
    {default : α} (hdefault : P default) : Ensures P (i.attrD read key default) := by
  unfold Inputs.attrD
  split
  · exact .ok hdefault
  · next a ha => exact (hread a (h.attributes key a ha)).mapError

theorem attr? (h : Fits i) (hread : ∀ a, AttrFits a → Ensures P (read a)) (key : String) :
    Ensures (fun o => ∀ v ∈ o, P v) (i.attr? read key) := by
  refine h.attrD (fun a ha => (hread a ha).map fun v hv => ?_) key (by simp)
  simpa using hv

end Attributes

theorem int (h : Fits i) {key : String} {v : Int} (hv : i.attr Attr.toInt key = .ok v) :
    IsSigned v :=
  h.attr (fun _ => toInt_fits) key v hv

theorem intD (h : Fits i) {key : String} {default v : Int} (hdefault : IsSigned default)
    (hv : i.attrD Attr.toInt key default = .ok v) : IsSigned v :=
  h.attrD (fun _ => toInt_fits) key hdefault v hv

theorem int? (h : Fits i) {key : String} {o : Option Int}
    (ho : i.attr? Attr.toInt key = .ok o) : ∀ v ∈ o, IsSigned v :=
  h.attr? (fun _ => toInt_fits) key o ho

theorem ints (h : Fits i) {key : String} {vs : List Int}
    (hvs : i.attr Attr.toInts key = .ok vs) : ListFits vs :=
  h.attr (fun _ => toInts_fits) key vs hvs

theorem intsD (h : Fits i) {key : String} {default vs : List Int} (hdefault : ListFits default)
    (hvs : i.attrD Attr.toInts key default = .ok vs) : ListFits vs :=
  h.attrD (fun _ => toInts_fits) key hdefault vs hvs

theorem ints? (h : Fits i) {key : String} {o : Option (List Int)}
    (ho : i.attr? Attr.toInts key = .ok o) : ∀ vs ∈ o, ListFits vs :=
  h.attr? (fun _ => toInts_fits) key o ho

end Fits

/-! ## Reading operands -/

def operandTy (i : Inputs) (k : Nat) : Eval Fault Ty :=
  match i.operands[k]? with
  | some (some ty) => pure ty
  | some none => throw (.unknownOperand k)
  | none => do
    let least ← add k 1
    throw (.shape ("expected at least " ++ toString least ++ " operands, got " ++
      toString i.operandCount))

def operandDims (i : Inputs) (k : Nat) : Eval Fault (List Dim) := do
  let ty ← operandTy i k
  match ty.tensor? with
  | some t => pure t.dims
  | none => throw (.shape ("operand " ++ toString k ++ " must be a tensor"))

/-- The number of an operand that is not there is small enough to be counted up for the message. -/
theorem runs_operandTy {k : Nat} (h : k < i.operandCount ∨ k + 1 < extentLimit) :
    Runs (operandTy i k) (i.operandTy k) := by
  unfold operandTy Inputs.operandTy
  cases hk : i.operands[k]? with
  | none =>
    have hlen : i.operandCount ≤ k := List.getElem?_eq_none_iff.1 hk
    refine .step (runs_add ?_) (.throw _)
    omega
  | some o =>
    cases o with
    | none => exact .throw _
    | some ty => exact .pure ty

theorem runs_operandDims {k : Nat} (h : k < i.operandCount ∨ k + 1 < extentLimit) :
    Runs (operandDims i k) (i.operandDims k) := by
  have hdims : i.operandDims k = i.operandTy k >>= fun ty =>
      match ty.tensor? with
      | some t => .ok t.dims
      | none => .error (.shape ("operand " ++ toString k ++ " must be a tensor")) := by
    unfold Inputs.operandDims Inputs.operandTensor
    cases i.operandTy k with
    | error e => rfl
    | ok ty => cases ty <;> rfl
  rw [hdims]
  refine (runs_operandTy h).bind fun ty _ => ?_
  cases ty with
  | scalar e => exact .throw _
  | tensor t => exact .pure _

/-! ## Axes -/

/-- A negative axis is counted from the rank. -/
def axisPosition (axis rank : Int) : Eval Defect Int :=
  if axis < 0 then addSigned axis rank else return axis

def normalizeAxis (axis : Int) (rank : Nat) : Eval Defect Nat := do
  let position ← axisPosition axis (signedWord rank)
  if position < 0 ∨ signedWord rank ≤ position then throw (.axisOutOfRange axis rank)
  else return toUnsigned position

/-- A negative axis and a rank have different signs, so their sum fits. -/
theorem runs_axisPosition {axis : Int} {rank : Nat} (haxis : IsSigned axis)
    (hrank : rank < 2 ^ 63) :
    Runs (axisPosition axis rank) (.ok (if axis < 0 then axis + rank else axis)) := by
  unfold IsSigned at haxis
  unfold axisPosition
  split
  · refine runs_addSigned ?_
    unfold IsSigned
    omega
  · exact .pure axis

theorem runs_normalizeAxis {axis : Int} {rank : Nat} (haxis : IsSigned axis)
    (hrank : rank < 2 ^ 63) : Runs (normalizeAxis axis rank) (Relay.normalizeAxis axis rank) := by
  unfold normalizeAxis Relay.normalizeAxis
  rw [signedWord_of_lt hrank]
  refine .step (runs_axisPosition haxis hrank) (.ite (fun _ => .throw _) fun hin => ?_)
  rw [toUnsigned_of_nonneg]
  · exact .pure _
  · omega
  · unfold IsSigned
    omega

theorem normalizeAxis_lt {axis : Int} {rank position : Nat}
    (h : Relay.normalizeAxis axis rank = .ok position) : position < rank := by
  unfold Relay.normalizeAxis at h
  dsimp only at h
  generalize (if axis < 0 then axis + (rank : Int) else axis) = p at h
  split at h
  · cases h
  · cases h
    omega

def normalizeAxes (axes : List Int) (rank : Nat) : Eval Defect (List Nat) :=
  axes.mapM fun axis => normalizeAxis axis rank

theorem runs_normalizeAxes {axes : List Int} {rank : Nat} (haxes : ListFits axes)
    (hrank : rank < 2 ^ 63) : Runs (normalizeAxes axes rank) (Relay.normalizeAxes axes rank) :=
  .mapM fun _ haxis => runs_normalizeAxis (haxes.2 _ haxis) hrank

theorem normalizeAxes_lt {axes : List Int} {rank : Nat} {positions : List Nat}
    (h : Relay.normalizeAxes axes rank = .ok positions) : ∀ position ∈ positions, position < rank :=
  Ensures.mapM (fun _ _ _ => normalizeAxis_lt) positions h

/-! ## Broadcasting -/

/-- The extent of a shape along an axis of the broadcast, which may have more axes in front. -/
def alignedDim (rank : Nat) (ds : List Dim) (axis : Nat) : Eval Error Dim := do
  let missing ← sub rank ds.length
  if axis < missing then return .known 1
  else
    let position ← sub axis missing
    index ds position

/-- Broadcast `count` axes from `axis` on. -/
def broadcastFrom (rank : Nat) (a b : List Dim) : (axis count : Nat) → Eval Error (List Dim)
  | _, 0 => return []
  | axis, count + 1 => do
    let left ← alignedDim rank a axis
    let right ← alignedDim rank b axis
    match left.broadcast? right with
    | none => throw (.cannotBroadcast a b axis)
    | some d => return d :: (← broadcastFrom rank a b (axis + 1) count)

def broadcastDims (a b : List Dim) : Eval Error (List Dim) :=
  let rank := max a.length b.length
  broadcastFrom rank a b 0 rank

theorem runs_alignedDim {rank axis : Nat} {ds : List Dim} {d : Dim} (hrank : ds.length ≤ rank)
    (hd : (Broadcast.align rank ds)[axis]? = some d) :
    Runs (alignedDim rank ds axis) (.ok d) := by
  refine .step (runs_sub hrank) ?_
  unfold Broadcast.align at hd
  by_cases hmissing : axis < rank - ds.length
  · rw [List.getElem?_append_left (by simpa using hmissing)] at hd
    have hd : d = .known 1 := by simp_all
    rw [hd, if_pos hmissing]
    exact .pure _
  · have hle : rank - ds.length ≤ axis := Nat.le_of_not_lt hmissing
    rw [List.getElem?_append_right (by simpa using hle), List.length_replicate] at hd
    rw [if_neg hmissing]
    exact .step (runs_sub hle) (runs_index hd)

theorem runs_broadcastFrom {rank axis count : Nat} {a b : List Dim} (ha : a.length ≤ rank)
    (hb : b.length ≤ rank) (hcount : axis + count = rank) :
    Runs (broadcastFrom rank a b axis count)
      ((Broadcast.zip axis ((Broadcast.align rank a).drop axis)
        ((Broadcast.align rank b).drop axis)).mapError (.cannotBroadcast a b)) := by
  have hlength : ∀ ds : List Dim, ds.length ≤ rank → (Broadcast.align rank ds).length = rank := by
    intro ds hds
    simp only [Broadcast.align, List.length_append, List.length_replicate]
    omega
  induction count generalizing axis with
  | zero =>
    rw [List.drop_of_length_le (by rw [hlength a ha]; omega)]
    exact .pure []
  | succ count ih =>
    have hleft : axis < (Broadcast.align rank a).length := by rw [hlength a ha]; omega
    have hright : axis < (Broadcast.align rank b).length := by rw [hlength b hb]; omega
    rw [List.drop_eq_getElem_cons hleft, List.drop_eq_getElem_cons hright, broadcastFrom]
    refine .step (runs_alignedDim ha (List.getElem?_eq_getElem hleft)) ?_
    refine .step (runs_alignedDim hb (List.getElem?_eq_getElem hright)) ?_
    rw [Broadcast.zip]
    cases Dim.broadcast? _ _ with
    | none => exact .throw _
    | some d =>
      have hnext : axis + 1 + count = rank := by omega
      have hrest := (ih hnext).bind (k := fun ds => pure (d :: ds)) (l := fun ds => .ok (d :: ds))
        fun ds _ => .pure _
      dsimp only
      cases hzip : Broadcast.zip (axis + 1) _ _ with
      | error p =>
        rw [hzip] at hrest
        exact hrest
      | ok ds =>
        rw [hzip] at hrest
        exact hrest

theorem runs_broadcastDims (a b : List Dim) : Runs (broadcastDims a b) (Broadcast.dims a b) := by
  have hrun := runs_broadcastFrom (Nat.le_max_left a.length b.length)
    (Nat.le_max_right a.length b.length) (Nat.zero_add _)
  have hdims : Broadcast.dims a b = (Broadcast.zip 0 (Broadcast.align (max a.length b.length) a)
      (Broadcast.align (max a.length b.length) b)).mapError (.cannotBroadcast a b) := by
    unfold Broadcast.dims
    dsimp only
    cases Broadcast.zip 0 _ _ <;> rfl
  rw [hdims]
  exact hrun

/-! ## Windows -/

theorem eq_of_checkedAdd {a b n : Nat} (h : Relay.checkedAdd a b = .ok n) :
    n = a + b ∧ n < extentLimit := by
  unfold Relay.checkedAdd at h
  split at h
  · next hlt =>
    cases h
    exact ⟨rfl, hlt⟩
  · cases h

def positive (what : String) (value : Int) : Eval Defect Nat :=
  if value ≤ 0 then throw (.notPositive what value) else return toUnsigned value

def spatialPair (what : String) : List Int → Eval Defect Spatial
  | [v] => do
    let n ← positive what v
    return ⟨n, n⟩
  | [h, w] => do
    let height ← positive what h
    let width ← positive what w
    return ⟨height, width⟩
  | values => throw (.pairLength what values.length)

def padding2d (values : List Int) : Eval Defect Padding :=
  match values.find? (· < 0) with
  | some v => throw (.negative "padding" v)
  | none =>
    match values.map toUnsigned with
    | [p] => return ⟨p, p, p, p⟩
    | [h, w] => return ⟨h, w, h, w⟩
    | [t, l, b, r] => return ⟨t, l, b, r⟩
    | _ => throw (.paddingLength values.length)

/-- The number of steps over a span. -/
def stepCount (ceil : Bool) (span stride : Nat) : Eval Defect Nat :=
  if ceil then divCeil span stride else div span stride

def outputExtent (w : Window) (input : Nat) : Eval Defect Nat :=
  if w.size = 0 then throw .emptyWindow
  else do
    let less ← sub w.size 1
    let reach ← attempt (Relay.checkedMul w.dilation less)
    let effective ← attempt (Relay.checkedAdd reach 1)
    let front ← attempt (Relay.checkedAdd input w.before)
    let padded ← attempt (Relay.checkedAdd front w.after)
    if padded < effective then throw (.windowTooLarge effective padded)
    else
      let span ← sub padded effective
      let steps ← stepCount w.ceil span w.stride
      add steps 1

def outputDim (w : Window) : Dim → Eval Defect Dim
  | .dynamic => return .dynamic
  | .known input => do
    let extent ← outputExtent w input
    return .known extent

theorem runs_positive {what : String} {value : Int} (h : IsSigned value) :
    Runs (positive what value) (Relay.positive what value) := by
  refine .ite (fun _ => .throw _) fun hpos => ?_
  rw [toUnsigned_of_nonneg (by omega) h]
  exact .pure _

theorem positive_pos {what : String} {value : Int} {n : Nat}
    (h : Relay.positive what value = .ok n) : n ≠ 0 := by
  unfold Relay.positive at h
  split at h
  · cases h
  · cases h
    omega

theorem runs_spatialPair {what : String} {values : List Int} (h : ListFits values) :
    Runs (spatialPair what values) (Spatial.ofList what values) := by
  have hvalues := h.2
  match values with
  | [] => exact .throw _
  | [v] =>
    refine (runs_positive (hvalues v (by simp))).bind fun n _ => ?_
    exact .pure _
  | [h, w] =>
    refine (runs_positive (hvalues h (by simp))).bind fun height _ => ?_
    refine (runs_positive (hvalues w (by simp))).bind fun width _ => ?_
    exact .pure _
  | _ :: _ :: _ :: _ => exact .throw _

/-- Both numbers of a pair are positive. -/
theorem spatial_pos {what : String} {values : List Int} {size : Spatial}
    (h : Spatial.ofList what values = .ok size) : size.height ≠ 0 ∧ size.width ≠ 0 := by
  match values with
  | [] => cases h
  | [v] =>
    obtain ⟨n, hn, h⟩ := Fallible.bind_eq_ok_iff.1 h
    cases h
    exact ⟨positive_pos hn, positive_pos hn⟩
  | [v, w] =>
    obtain ⟨height, hheight, h⟩ := Fallible.bind_eq_ok_iff.1 h
    obtain ⟨width, hwidth, h⟩ := Fallible.bind_eq_ok_iff.1 h
    cases h
    exact ⟨positive_pos hheight, positive_pos hwidth⟩
  | _ :: _ :: _ :: _ => cases h

theorem runs_padding2d {values : List Int} (h : ListFits values) :
    Runs (padding2d values) (Padding.ofList values) := by
  unfold padding2d Padding.ofList
  cases hneg : values.find? (· < 0) with
  | some v => exact .throw _
  | none =>
    have hmap : values.map toUnsigned = values.map Int.toNat := by
      refine List.map_congr_left fun v hv => toUnsigned_of_nonneg ?_ (h.2 v hv)
      simpa using List.find?_eq_none.1 hneg v hv
    rw [hmap]
    match values.map Int.toNat with
    | [] => exact .throw _
    | [p] => exact .pure _
    | [h, w] => exact .pure _
    | [_, _, _] => exact .throw _
    | [t, l, b, r] => exact .pure _
    | _ :: _ :: _ :: _ :: _ :: _ => exact .throw _

theorem runs_stepCount {ceil : Bool} {span stride : Nat} (hstride : stride ≠ 0)
    (hspan : span < extentLimit) :
    Runs (stepCount ceil span stride)
      (.ok (if ceil then (span + stride - 1) / stride else span / stride)) := by
  cases ceil with
  | true => exact runs_divCeil hstride hspan
  | false => exact runs_div hstride

/-- There are no more steps than places. -/
theorem stepCount_le (ceil : Bool) (span : Nat) {stride : Nat} (hstride : stride ≠ 0) :
    (if ceil then (span + stride - 1) / stride else span / stride) ≤ span := by
  have hpos : 0 < stride := Nat.pos_of_ne_zero hstride
  cases ceil with
  | true =>
    change (span + stride - 1) / stride ≤ span
    rw [Nat.div_le_iff_le_mul_add_pred hpos]
    have hle : span ≤ stride * span := Nat.le_mul_of_pos_left _ hpos
    omega
  | false => exact Nat.div_le_self span stride

/-- The window has at least one element, so it leaves room to count the place where it starts. -/
theorem runs_outputExtent {w : Window} (hstride : w.stride ≠ 0) (input : Nat) :
    Runs (outputExtent w input) (w.outputExtent input) := by
  unfold outputExtent Window.outputExtent
  refine .ite (fun _ => .throw _) fun hsize => ?_
  refine .step (runs_sub (by omega)) ?_
  refine (Runs.attempt _).bind fun reach _ => ?_
  refine (Runs.attempt _).bind fun effective heffective => ?_
  refine (Runs.attempt _).bind fun front _ => ?_
  refine (Runs.attempt _).bind fun padded hpadded => ?_
  refine .ite (fun _ => .throw _) fun hroom => ?_
  have hone := eq_of_checkedAdd heffective
  have hlt := eq_of_checkedAdd hpadded
  refine .step (runs_sub (by omega)) ?_
  refine .step (runs_stepCount hstride (by omega)) ?_
  refine runs_add ?_
  have hsteps := stepCount_le w.ceil (padded - effective) hstride
  omega

/-- A stride of 0 would end in a trap; no stride is read as 0 (`spatial_pos`). -/
example : outputExtent ⟨2, 0, 1, 0, 0, true⟩ 5 = trap .divisionByZero := rfl

theorem runs_outputDim {w : Window} (hstride : w.stride ≠ 0) (d : Dim) :
    Runs (outputDim w d) (w.outputDim d) := by
  cases d with
  | dynamic => exact .pure _
  | known input => exact (runs_outputExtent hstride input).map

end TensorIR.Machine
