import TensorIR.Proofs.Machine.Rules
import TensorIR.Proofs.Relay.Rank

/-!
# Rules on machine words: axes that move, come and go

Transposition and `squeeze` keep a list of marks, one for each axis, and concatenation writes into
the shape of the first operand. All of these are as long as the rank that the axes have been
normalized for.
-/

namespace TensorIR.Machine

open Relay (Defect single)

variable {ε : Type}

/-! ## Marks -/

/-- For each axis, whether it is among the given ones. -/
def marks (rank : Nat) (axes : List Nat) : List Bool :=
  (List.range rank).map fun axis => decide (axis ∈ axes)

theorem length_marks (rank : Nat) (axes : List Nat) : (marks rank axes).length = rank := by
  simp [marks]

theorem getElem?_marks {rank axis : Nat} (h : axis < rank) (axes : List Nat) :
    (marks rank axes)[axis]? = some (decide (axis ∈ axes)) := by
  simp [marks, h]

theorem marks_nil (rank : Nat) : marks rank [] = List.replicate rank false := by
  simp [marks]

theorem set_marks (rank axis : Nat) (axes : List Nat) :
    (marks rank axes).set axis true = marks rank (axis :: axes) := by
  refine List.ext_getElem? fun k => ?_
  simp only [List.getElem?_set, length_marks]
  by_cases hk : k < rank
  · by_cases haxis : axis = k
    · simp [haxis, hk, getElem?_marks]
    · have hne : k ≠ axis := fun h => haxis h.symm
      simp [haxis, hne, getElem?_marks hk]
  · have hnone : ∀ axes, (marks rank axes)[k]? = none := by
      intro axes
      simp [length_marks, Nat.le_of_not_lt hk]
    by_cases haxis : axis = k
    · simp [haxis, hk, hnone]
    · simp [haxis, hnone]

theorem runs_index_marks {rank axis : Nat} (h : axis < rank) (axes : List Nat) :
    Runs (index (marks rank axes) axis : Eval ε Bool) (.ok (decide (axis ∈ axes))) :=
  runs_index (getElem?_marks h axes)

theorem runs_store_marks {rank axis : Nat} (h : axis < rank) (axes : List Nat) :
    Runs (store (marks rank axes) axis true : Eval ε (List Bool))
      (.ok (marks rank (axis :: axes))) := by
  rw [← set_marks]
  exact runs_store (by rwa [length_marks]) true

/-! ## Transposition -/

/-- Mark the axes one by one, and fail at the first that is marked already. -/
def checkDistinct (perm : List Nat) (seen : List Bool) : List Nat → Eval Defect Unit
  | [] => return ()
  | axis :: rest => do
    let before ← index seen axis
    let seen ← store seen axis true
    if before then throw (.notPermutation perm) else checkDistinct perm seen rest

def permuteDims (dims : List Dim) (perm : List Nat) : Eval Defect (List Dim) :=
  if perm.length ≠ dims.length then throw (.axesLength perm.length dims.length)
  else do
    checkDistinct perm (List.replicate dims.length false) perm
    perm.mapM (index dims)

def transposeDims (dims : List Dim) (axes : Option (List Int)) : Eval Defect (List Dim) :=
  match axes with
  | some axes => do
    let perm ← normalizeAxes axes dims.length
    permuteDims dims perm
  | none => permuteDims dims (List.range dims.length).reverse

def transpose : Rule := fun i => do
  let input ← operandDims i 0
  let axes ← attempt (i.attr? Attr.toInts "axes")
  return single (← lift (transposeDims input axes))

theorem runs_checkDistinct {rank : Nat} (perm : List Nat) {rest : List Nat}
    (hrest : ∀ axis ∈ rest, axis < rank) (seen : List Nat) :
    Runs (checkDistinct perm (marks rank seen) rest)
      (if rest.Nodup ∧ ∀ axis ∈ rest, axis ∉ seen then .ok ()
        else .error (.notPermutation perm)) := by
  induction rest generalizing seen with
  | nil =>
    rw [if_pos (by simp)]
    exact .pure ()
  | cons axis rest ih =>
    rw [List.forall_mem_cons] at hrest
    refine .step (runs_index_marks hrest.1 seen) (.step (runs_store_marks hrest.1 seen) ?_)
    by_cases hseen : axis ∈ seen
    · rw [if_pos (decide_eq_true hseen), if_neg (by simp [hseen])]
      exact .throw _
    · have hiff : (axis :: rest).Nodup ∧ (∀ a ∈ axis :: rest, a ∉ seen) ↔
          rest.Nodup ∧ ∀ a ∈ rest, a ∉ axis :: seen := by
        simp only [List.nodup_cons, List.mem_cons]
        grind
      rw [if_neg (by simp [hseen]), if_congr hiff rfl rfl]
      exact ih hrest.2 (axis :: seen)

/-- The members at some places that are all there. -/
theorem runs_mapM_index {α : Type} {xs : List α} {places : List Nat}
    (h : ∀ k ∈ places, k < xs.length) :
    Runs (places.mapM (index xs) : Eval ε (List α)) (.ok (places.filterMap fun k => xs[k]?)) := by
  induction places with
  | nil => exact .pure []
  | cons k places ih =>
    rw [List.forall_mem_cons] at h
    have hk := List.getElem?_eq_getElem h.1
    rw [List.mapM_cons, List.filterMap_cons_some hk]
    exact .step (runs_index hk) (.step (ih h.2) (.pure _))

theorem runs_permuteDims {dims : List Dim} {perm : List Nat}
    (h : ∀ axis ∈ perm, axis < dims.length) :
    Runs (permuteDims dims perm) (Relay.permuteDims dims perm) := by
  refine .ite (fun _ => .throw _) fun _ => ?_
  have hcheck := runs_checkDistinct perm h []
  rw [marks_nil] at hcheck
  by_cases hnodup : perm.Nodup
  · rw [if_pos ⟨hnodup, by simp⟩] at hcheck
    rw [if_pos hnodup]
    exact .step hcheck (runs_mapM_index h)
  · rw [if_neg (by simp [hnodup])] at hcheck
    rw [if_neg hnodup]
    exact hcheck.halt

theorem runs_transposeDims {dims : List Dim} {axes : Option (List Int)}
    (hrank : dims.length < 2 ^ 63) (haxes : ∀ vs ∈ axes, ListFits vs) :
    Runs (transposeDims dims axes) (Relay.transposeDims dims axes) := by
  cases axes with
  | none => exact runs_permuteDims (by simp)
  | some axes =>
    refine (runs_normalizeAxes (haxes axes rfl) hrank).bind fun perm hperm => ?_
    exact runs_permuteDims (normalizeAxes_lt hperm)

theorem transpose_follows : transpose.Follows Relay.transpose := by
  intro i h
  refine (runs_first i).bind fun input hinput => ?_
  refine (Runs.attempt _).bind fun axes haxes => ?_
  exact (runs_transposeDims (h.rank_signed hinput) (h.ints? haxes)).lift_single

/-! ## Putting in axes -/

def expandDims (dims : List Dim) (position : Nat) (count : Int) : Eval Defect (List Dim) :=
  if count < 0 then throw (.negative "num_newaxis" count)
  else if Relay.maxRank - dims.length < toUnsigned count then
    throw (.rankLimit (saturatingAdd dims.length (toUnsigned count)) Relay.maxRank)
  else splice dims position (List.replicate (toUnsigned count) (.known 1))

def expand : Rule := fun i => do
  let input ← operandDims i 0
  let axis ← attempt (i.attr Attr.toInt "axis")
  let rank ← add input.length 1
  let position ← lift (normalizeAxis axis rank)
  let count ← attempt (i.attrD Attr.toInt "num_newaxis" 1)
  return single (← lift (expandDims input position count))

theorem runs_expandDims {dims : List Dim} {position : Nat} {count : Int}
    (hrank : dims.length < rankLimit) (hposition : position ≤ dims.length)
    (hcount : IsSigned count) :
    Runs (expandDims dims position count) (Relay.expandDims dims position count) := by
  refine .ite (fun _ => .throw _) fun hneg => ?_
  rw [toUnsigned_of_nonneg (by omega) hcount]
  refine .ite (fun _ => ?_) fun _ => ?_
  · rw [saturatingAdd_of_lt]
    · exact .throw _
    · obtain ⟨-, hlt⟩ := hcount
      simp only [extentLimit, UInt64.size, rankLimit] at hrank ⊢
      omega
  · exact runs_splice hposition _

theorem expand_follows : expand.Follows Relay.expand := by
  intro i h
  refine (runs_first i).bind fun input hinput => ?_
  refine (Runs.attempt _).bind fun axis haxis => ?_
  have hrank := h.rank_lt hinput
  have hlimits : rankLimit < 2 ^ 63 ∧ rankLimit < extentLimit := by decide
  refine .step (runs_add (by omega)) ?_
  refine (runs_normalizeAxis (h.int haxis) (by omega)).lift.bind fun position hposition => ?_
  have hlt := normalizeAxis_lt (Fallible.mapError_eq_ok_iff.1 hposition)
  refine (Runs.attempt _).bind fun count hcount => ?_
  exact (runs_expandDims hrank (by omega) (h.intD (by decide) hcount)).lift_single

/-! ## Taking axes away -/

/-- An axis can be taken away if its extent is 1 or not known. -/
def checkUnit (position : Nat) : Dim → Except Defect Unit
  | .known n => if n = 1 then .ok () else .error (.notUnitAxis position n)
  | .dynamic => .ok ()

def unitAxis (dims : List Dim) (axis : Int) : Eval Defect Nat := do
  let position ← normalizeAxis axis dims.length
  let d ← index dims position
  attempt (checkUnit position d)
  return position

/-- Mark the axes to take away. -/
def markUnits (dims : List Dim) (removed : List Bool) : List Int → Eval Defect (List Bool)
  | [] => return removed
  | axis :: rest => do
    let position ← unitAxis dims axis
    let removed ← store removed position true
    markUnits dims removed rest

/-- The dimensions whose axes are not marked. -/
def unmarked (dims : List Dim) (removed : List Bool) : List Dim :=
  (dims.zip removed).filterMap fun (d, mark) => if mark then none else some d

def squeezeDims (dims : List Dim) (axes : Option (List Int)) : Eval Defect (List Dim) :=
  match axes with
  | some axes => do
    let removed ← markUnits dims (List.replicate dims.length false) axes
    return unmarked dims removed
  | none =>
    if dims.contains .dynamic then throw .ambiguousSqueeze
    else return unmarked dims (dims.map fun d => d == .known 1)

def squeeze : Rule := fun i => do
  let input ← operandDims i 0
  let axes ← attempt (i.attr? Attr.toInts "axis")
  return single (← lift (squeezeDims input axes))

theorem runs_unitAxis {dims : List Dim} (hrank : dims.length < 2 ^ 63) {axis : Int}
    (haxis : IsSigned axis) : Runs (unitAxis dims axis) (Relay.unitAxis dims axis) := by
  refine (runs_normalizeAxis haxis hrank).bind fun position hposition => ?_
  have hlt := normalizeAxis_lt hposition
  have hd := List.getElem?_eq_getElem hlt
  rw [hd]
  refine .step (runs_index hd) ?_
  cases dims[position] with
  | dynamic => exact .pure position
  | known n =>
    dsimp only [checkUnit]
    by_cases hn : n = 1
    · rw [if_pos hn, if_pos hn]
      exact .pure position
    · rw [if_neg hn, if_neg hn]
      exact (Runs.attempt _).halt

theorem unitAxis_lt {dims : List Dim} {axis : Int} {position : Nat}
    (h : Relay.unitAxis dims axis = .ok position) : position < dims.length := by
  obtain ⟨p, hp, h⟩ := Fallible.bind_eq_ok_iff.1 h
  have hlt := normalizeAxis_lt hp
  split at h
  · split at h
    · cases h
      exact hlt
    · cases h
  · cases h
    exact hlt

theorem runs_markUnits {dims : List Dim} (hrank : dims.length < 2 ^ 63) {axes : List Int}
    (haxes : ∀ axis ∈ axes, IsSigned axis) (done : List Nat) :
    Runs (markUnits dims (marks dims.length done) axes)
      (axes.mapM (Relay.unitAxis dims) >>= fun removed =>
        .ok (marks dims.length (removed.reverse ++ done))) := by
  induction axes generalizing done with
  | nil => exact .pure _
  | cons axis axes ih =>
    rw [List.forall_mem_cons] at haxes
    rw [List.mapM_cons, bind_assoc]
    refine (runs_unitAxis hrank haxes.1).bind fun position hposition => ?_
    refine .step (runs_store_marks (unitAxis_lt hposition) done) ?_
    simpa using ih haxes.2 (position :: done)

theorem unmarked_marks (dims : List Dim) (removed : List Nat) :
    unmarked dims (marks dims.length removed) = dims.zipIdx.filterMap fun (d, axis) =>
      if removed.contains axis then none else some d := by
  rw [unmarked, marks, List.zip_map_right, List.filterMap_map, List.zipIdx_eq_zip_range']
  simp [List.range_eq_range']

theorem unmarked_map (dims : List Dim) (p : Dim → Bool) :
    unmarked dims (dims.map p) = dims.filter fun d => !p d := by
  induction dims with
  | nil => rfl
  | cons d dims ih =>
    rw [List.map_cons, unmarked, List.zip_cons_cons]
    cases hp : p d with
    | true =>
      rw [List.filter_cons_of_neg (by simp [hp])]
      exact ih
    | false =>
      rw [List.filter_cons_of_pos (by simp [hp])]
      exact congrArg (d :: ·) ih

theorem runs_squeezeDims {dims : List Dim} {axes : Option (List Int)}
    (hrank : dims.length < 2 ^ 63) (haxes : ∀ vs ∈ axes, ListFits vs) :
    Runs (squeezeDims dims axes) (Relay.squeezeDims dims axes) := by
  cases axes with
  | none =>
    refine .ite (fun _ => .throw _) fun _ => ?_
    rw [unmarked_map]
    exact .pure _
  | some axes =>
    have hmarks := runs_markUnits hrank (haxes axes rfl).2 []
    rw [marks_nil] at hmarks
    refine hmarks.bind_map fun removed _ => ?_
    rw [unmarked_marks]
    simp only [List.append_nil, List.contains_reverse]
    exact .pure _

theorem squeeze_follows : squeeze.Follows Relay.squeeze := by
  intro i h
  refine (runs_first i).bind fun input hinput => ?_
  refine (Runs.attempt _).bind fun axes haxes => ?_
  exact (runs_squeezeDims (h.rank_signed hinput) (h.ints? haxes)).lift_single

/-! ## Joining operands -/

/-- Join two extents: those along the axis are added up, all others unified. -/
def joinAt (operand axis position : Nat) (joined d : Dim) : Except Defect Dim :=
  if position = axis then Relay.joinDim joined d
  else
    match joined.unify? d with
    | none => .error (.operandDim operand position d joined)
    | some d => .ok d

/-- Join the dimensions of an operand from `position` on to what has been joined so far, in its
place. -/
def joinDims (operand axis : Nat) (joined : List Dim) :
    (position : Nat) → List Dim → Eval Defect (List Dim)
  | _, [] => return joined
  | position, d :: rest => do
    let old ← index joined position
    let new ← attempt (joinAt operand axis position old d)
    let joined ← store joined position new
    joinDims operand axis joined (position + 1) rest

def joinRest (i : Inputs) (rank axis : Nat) (joined : List Dim) :
    (operand count : Nat) → Eval Fault (List Dim)
  | _, 0 => return joined
  | operand, count + 1 => do
    let dims ← operandDims i operand
    if dims.length ≠ rank then throw (Defect.operandRank operand dims.length rank).fault
    else
      let joined ← lift (joinDims operand axis joined 0 dims)
      joinRest i rank axis joined (operand + 1) count

def concatenate : Rule := fun i =>
  if i.operandCount = 0 then throw Defect.noOperands.fault
  else do
    let first ← operandDims i 0
    let number ← attempt (i.attrD Attr.toInt "axis" 0)
    let axis ← lift (normalizeAxis number first.length)
    return single (← joinRest i first.length axis first 1 (i.operandCount - 1))

theorem joinDims_cons (operand axis position : Nat) (a b : Dim) (as bs : List Dim) :
    Relay.joinDims operand axis position (a :: as) (b :: bs) =
      joinAt operand axis position a b >>= fun d =>
        Relay.joinDims operand axis (position + 1) as bs >>= fun ds => .ok (d :: ds) := by
  rw [Relay.joinDims, joinAt]
  by_cases haxis : position = axis
  · rw [if_pos haxis, if_pos haxis]
    rfl
  · rw [if_neg haxis, if_neg haxis]
    cases a.unify? b <;> rfl

/-- What is in front of the position has been joined already, and stays. -/
theorem runs_joinDims (operand axis : Nat) {done as bs : List Dim} (h : as.length = bs.length) :
    Runs (joinDims operand axis (done ++ as) done.length bs)
      (Relay.joinDims operand axis done.length as bs >>= fun ds => .ok (done ++ ds)) := by
  induction bs generalizing done as with
  | nil =>
    obtain rfl := List.length_eq_zero_iff.1 h
    exact .pure _
  | cons b bs ih =>
    cases as with
    | nil => cases h
    | cons a as =>
      have hold : (done ++ a :: as)[done.length]? = some a := by simp
      rw [joinDims_cons, bind_assoc]
      refine .step (runs_index hold) ((Runs.attempt _).bind fun d _ => ?_)
      refine .step (runs_store (by simp) d) ?_
      have hset : (done ++ a :: as).set done.length d = done ++ [d] ++ as := by simp
      have happend : ∀ ds, done ++ [d] ++ ds = done ++ d :: ds := by simp
      have hlen : as.length = bs.length := by simpa using h
      have hrest : Runs (joinDims operand axis (done ++ [d] ++ as) (done ++ [d]).length bs) _ :=
        ih hlen
      simp only [List.length_append, List.length_singleton, happend] at hrest
      rw [hset, bind_assoc, happend]
      exact hrest

/-- An operand is joined from its first axis on. -/
theorem runs_joinDims_zero (operand axis : Nat) {joined dims : List Dim}
    (h : joined.length = dims.length) :
    Runs (joinDims operand axis joined 0 dims)
      (Relay.joinDims operand axis 0 joined dims) := by
  have hrun : Runs (joinDims operand axis ([] ++ joined) [].length dims) _ :=
    runs_joinDims operand axis h
  have hok : (fun ds : List Dim => (.ok ([] ++ ds) : Except Defect (List Dim))) = pure := rfl
  rw [hok, bind_pure] at hrun
  exact hrun

/-- The rank of what has been joined is that of the first operand. -/
theorem runs_joinRest {i : Inputs} {rank axis operand count : Nat} {joined : List Dim}
    (hrank : joined.length = rank) (hcount : operand + count = i.operandCount) :
    Runs (joinRest i rank axis joined operand count)
      (Relay.joinRest i axis joined operand count) := by
  induction count generalizing operand joined with
  | zero => exact .pure _
  | succ count ih =>
    rw [joinRest, Relay.joinRest, hrank]
    refine (runs_operandDims (.inl (by omega))).bind fun dims _ => ?_
    refine .ite (fun _ => .throw _) fun hdims => ?_
    have hlen : joined.length = dims.length := by omega
    refine (runs_joinDims_zero operand axis hlen).lift.bind fun out hout => ?_
    have hlength := (Relay.length_joinDims operand axis 0 joined dims).mapError out hout
    exact ih (by omega) (by omega)

theorem concatenate_follows : concatenate.Follows Relay.concatenate := by
  intro i h
  refine .ite (fun _ => .throw _) fun hcount => ?_
  refine (runs_first i).bind fun first hfirst => ?_
  refine (Runs.attempt _).bind fun number hnumber => ?_
  have hsigned := h.intD (by decide) hnumber
  refine (runs_normalizeAxis hsigned (h.rank_signed hfirst)).lift.bind fun axis _ => ?_
  refine (runs_joinRest rfl (by omega)).bind fun out _ => ?_
  exact .pure _

end TensorIR.Machine
