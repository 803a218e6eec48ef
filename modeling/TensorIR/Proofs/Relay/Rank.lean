import TensorIR.Proofs.Broadcast.Axes
import TensorIR.Proofs.Relay.Static

/-!
# How many axes a rule infers

No rule but `expand_dims` and `reshape` infers more axes than one of its operands has, or more than
four. `expand_dims` keeps to the greatest rank (`expandDims_rank`). `reshape` does not look at it:
it infers as many axes as the new shape lists (`newRank`), and that is the only way to exceed the
greatest rank (`componentsBounded_iff`).
-/

namespace TensorIR

open Fallible (Ensures)

namespace Broadcast

theorem length_dims (a b : List Dim) :
    Ensures (fun ds => ds.length = max a.length b.length) (dims a b) := by
  intro ds hds
  exact (dims_eq_ok_iff.1 hds).1

end Broadcast

/-- No more axes than the greatest rank. -/
def RankBounded (ds : List Dim) : Prop :=
  ds.length ≤ Relay.maxRank

instance (ds : List Dim) : Decidable (RankBounded ds) :=
  inferInstanceAs (Decidable (ds.length ≤ Relay.maxRank))

theorem RankBounded.of_le {ds out : List Dim} (h : RankBounded ds) (hle : out.length ≤ ds.length) :
    RankBounded out :=
  Nat.le_trans hle h

/-- The operands that are there have no more axes than the greatest rank. -/
def Inputs.RankBounded (i : Inputs) : Prop :=
  ∀ ty, some ty ∈ i.operands → TensorIR.RankBounded ty.dims

namespace Inputs

variable {i : Inputs}

theorem RankBounded.operandTy (h : i.RankBounded) (k : Nat) :
    Ensures (fun ty => TensorIR.RankBounded ty.dims) (i.operandTy k) :=
  ensures_operandTy h k

theorem RankBounded.operandDims (h : i.RankBounded) (k : Nat) :
    Ensures TensorIR.RankBounded (i.operandDims k) :=
  ensures_operandDims h k

end Inputs

namespace Relay

/-- Every component has no more axes than the greatest rank. -/
def ComponentsBounded (cs : List Component) : Prop :=
  ∀ c ∈ cs, RankBounded c.dims

/-- Operands of bounded rank lead to components of bounded rank, if the rule succeeds. -/
def Rule.Bounded (rule : Rule) : Prop :=
  ∀ i : Inputs, i.RankBounded → Ensures ComponentsBounded (rule i)

theorem single_bounded {ds : List Dim} (h : RankBounded ds) : ComponentsBounded (single ds) := by
  simpa [ComponentsBounded, single] using h

/-- A rule ends with a computation on dimensions. -/
theorem lift_single_bounded {x : Except Defect (List Dim)} (h : Ensures RankBounded x) :
    Ensures ComponentsBounded (do return single (← Defect.lift x)) := by
  refine h.mapError.bind fun ds hds => ?_
  exact .ok (single_bounded hds)

/-! ## Element by element -/

theorem unary_bounded : Rule.Bounded unary := by
  intro i h
  unfold unary
  split
  · exact .error
  · refine (h.operandDims 0).bind fun ds hds => ?_
    exact .ok (single_bounded hds)

theorem binary_bounded : Rule.Bounded binary := by
  intro i h
  unfold binary
  split
  · exact .error
  · refine (h.operandTy 0).bind fun left hleft => ?_
    refine (h.operandTy 1).bind fun right hright => ?_
    refine (Broadcast.length_dims left.dims right.dims).mapError.bind fun ds hds => ?_
    refine .ok (single_bounded ?_)
    unfold RankBounded at hleft hright ⊢
    omega

theorem biasAdd_bounded : Rule.Bounded biasAdd := by
  intro i h
  unfold biasAdd
  refine (h.operandDims 0).bind fun data hdata => .bind_any fun bias => ?_
  split
  · refine .bind_any fun number => .bind_any fun axis => lift_single_bounded ?_
    unfold addBias
    split
    · exact .error
    · split
      · exact .error
      · exact .ok (hdata.of_le (by simp))
  · exact .error

theorem softmax_bounded : Rule.Bounded softmax := by
  intro i h
  unfold softmax
  refine (h.operandDims 0).bind fun ds hds => ?_
  refine .bind_any fun axis => .bind_any fun _ => ?_
  exact .ok (single_bounded hds)

theorem cast_bounded : Rule.Bounded cast := by
  intro i h
  unfold cast
  refine (h.operandDims 0).bind fun ds hds => .bind_any fun element => ?_
  exact .ok (by simpa [ComponentsBounded] using hds)

theorem reduction_bounded : Rule.Bounded reduction := by
  intro i h
  unfold reduction
  refine (h.operandDims 0).bind fun ds hds => ?_
  have hreduce : ∀ reduced keep, RankBounded (reduceDims ds reduced keep) := by
    intro reduced keep
    refine hds.of_le (Nat.le_trans (List.length_filterMap_le _ _) ?_)
    simp
  refine .bind_any fun keep => .bind_any fun exclude => .bind_any fun axes => ?_
  cases axes with
  | none => exact .ok (single_bounded (hreduce _ keep))
  | some axes => exact .bind_any fun listed => .ok (single_bounded (hreduce _ keep))

/-! ## Results of a fixed rank -/

theorem pool2d_bounded : Rule.Bounded pool2d := by
  intro i _
  unfold pool2d
  refine .bind_any fun data => ?_
  split
  · refine .bind_any fun values => .bind_any fun size => ?_
    refine .bind_any fun steps => .bind_any fun strides => ?_
    refine .bind_any fun sides => .bind_any fun pad => .bind_any fun ceil => ?_
    refine .bind_any fun height => .bind_any fun width => ?_
    exact .ok (single_bounded (by simp [RankBounded, maxRank]))
  · exact .error

theorem globalPool2d_bounded : Rule.Bounded globalPool2d := by
  intro i _
  unfold globalPool2d
  refine .bind_any fun data => ?_
  split
  · exact .ok (single_bounded (by simp [RankBounded, maxRank]))
  · exact .error

theorem conv2d_bounded : Rule.Bounded conv2d := by
  intro i _
  unfold conv2d
  refine .bind_any fun data => .bind_any fun weight => ?_
  split
  · refine .bind_any fun number => .bind_any fun groups => .bind_any fun _ => ?_
    refine .bind_any fun channels => .bind_any fun _ => .bind_any fun kernel => ?_
    refine .bind_any fun requested => .bind_any fun _ => ?_
    refine .bind_any fun steps => .bind_any fun strides => ?_
    refine .bind_any fun spread => .bind_any fun dilation => ?_
    refine .bind_any fun sides => .bind_any fun pad => ?_
    refine .bind_any fun height => .bind_any fun width => ?_
    exact .ok (single_bounded (by simp [RankBounded, maxRank]))
  · exact .error

theorem batchMatmul_bounded : Rule.Bounded batchMatmul := by
  intro i _
  unfold batchMatmul
  refine .bind_any fun left => .bind_any fun right => ?_
  split
  · split
    · exact .error
    · refine .bind_any fun batch => ?_
      exact .ok (single_bounded (by simp [RankBounded, maxRank]))
  · exact .error

theorem batchFlatten_bounded : Rule.Bounded batchFlatten := by
  intro i _
  unfold batchFlatten
  refine .bind_any fun ds => lift_single_bounded ?_
  cases ds with
  | nil => exact .error
  | cons batch rest =>
    refine .bind_any fun flat => ?_
    exact .ok (by simp [RankBounded, maxRank])

theorem dense_bounded : Rule.Bounded dense := by
  intro i h
  unfold dense
  refine (h.operandDims 0).bind fun data hdata => .bind_any fun weight => ?_
  split
  · exact .error
  · next summed _ _ hlast =>
    split
    · exact .error
    · refine .bind_any fun requested => .bind_any fun units => ?_
      -- the summed axis is there, and the units take its place
      have hdata' : data ≠ [] := by
        rintro rfl
        cases hlast
      refine .ok (single_bounded (hdata.of_le ?_))
      have hpos := List.length_pos_iff.2 hdata'
      simp only [List.length_append, List.length_dropLast, List.length_cons, List.length_nil]
      omega
  · exact .error

/-! ## Axes that are moved, put in and taken away -/

theorem transposeDims_rank (ds : List Dim) (axes : Option (List Int)) :
    Ensures (fun out => out.length ≤ ds.length) (transposeDims ds axes) := by
  have hpermute : ∀ perm, Ensures (fun out => out.length ≤ ds.length) (permuteDims ds perm) := by
    intro perm
    unfold permuteDims
    split
    · exact .error
    · next hlen =>
      split
      · refine .ok (Nat.le_trans (List.length_filterMap_le _ _) ?_)
        omega
      · exact .error
  unfold transposeDims
  cases axes with
  | none => exact hpermute _
  | some axes => exact .bind_any hpermute

theorem transpose_bounded : Rule.Bounded transpose := by
  intro i h
  unfold transpose
  refine (h.operandDims 0).bind fun ds hds => .bind_any fun axes => lift_single_bounded ?_
  exact fun out hout => hds.of_le (transposeDims_rank ds axes out hout)

/-- Axes are put in up to the greatest rank. -/
theorem expandDims_rank {ds : List Dim} (h : RankBounded ds) (position : Nat) (count : Int) :
    Ensures RankBounded (expandDims ds position count) := by
  unfold expandDims
  split
  · exact .error
  · split
    · exact .error
    · refine .ok ?_
      unfold RankBounded at h ⊢
      simp only [List.length_append, List.length_take, List.length_replicate, List.length_drop]
      omega

theorem expand_bounded : Rule.Bounded expand := by
  intro i h
  unfold expand
  refine (h.operandDims 0).bind fun ds hds => ?_
  refine .bind_any fun axis => .bind_any fun position => .bind_any fun count => ?_
  exact lift_single_bounded (expandDims_rank hds position count)

theorem squeezeDims_rank (ds : List Dim) (axes : Option (List Int)) :
    Ensures (fun out => out.length ≤ ds.length) (squeezeDims ds axes) := by
  unfold squeezeDims
  cases axes with
  | none =>
    simp only
    split
    · exact .error
    · exact .ok (List.length_filter_le _ _)
  | some axes =>
    refine .bind_any fun removed => .ok ?_
    refine Nat.le_trans (List.length_filterMap_le _ _) ?_
    simp

theorem squeeze_bounded : Rule.Bounded squeeze := by
  intro i h
  unfold squeeze
  refine (h.operandDims 0).bind fun ds hds => .bind_any fun axes => lift_single_bounded ?_
  exact fun out hout => hds.of_le (squeezeDims_rank ds axes out hout)

/-! ## Operands that are joined -/

theorem length_joinDims (operand axis position : Nat) (as bs : List Dim) :
    Ensures (fun out => out.length = min as.length bs.length)
      (joinDims operand axis position as bs) := by
  induction as generalizing bs position with
  | nil => exact .ok (by simp)
  | cons a as ih =>
    cases bs with
    | nil => exact .ok (by simp)
    | cons b bs =>
      have hrest : ∀ d, Ensures (fun out => out.length = min (a :: as).length (b :: bs).length)
          (do return d :: (← joinDims operand axis (position + 1) as bs)) := by
        intro d
        refine (ih (position + 1) bs).bind fun ds hds => .ok ?_
        simp only [List.length_cons]
        omega
      rw [joinDims]
      split
      · exact .bind_any hrest
      · split
        · exact .error
        · next d _ => exact hrest d

theorem joinRest_bounded (i : Inputs) (axis operand count : Nat) {joined : List Dim}
    (hjoined : RankBounded joined) :
    Ensures RankBounded (joinRest i axis joined operand count) := by
  induction count generalizing operand joined with
  | zero => exact .ok hjoined
  | succ count ih =>
    rw [joinRest]
    refine .bind_any fun ds => ?_
    split
    · exact .error
    · refine (length_joinDims operand axis 0 joined ds).mapError.bind fun out hout => ?_
      exact ih (operand + 1) (hjoined.of_le (by omega))

theorem concatenate_bounded : Rule.Bounded concatenate := by
  intro i h
  unfold concatenate
  split
  · exact .error
  · refine (h.operandDims 0).bind fun first hfirst => ?_
    refine .bind_any fun number => .bind_any fun axis => ?_
    refine (joinRest_bounded i axis 1 _ hfirst).bind fun out hout => ?_
    exact .ok (single_bounded hout)

/-! ## New shapes -/

/-- The number of axes that the entries of a new shape stand for, the next axis of an operand of
this rank being at `source`: one for each entry but -2, and all axes of the operand from the place
of the first -2 on. -/
def axesFrom (rank source : Nat) (newshape : List Int) : Nat :=
  (newshape.filter (· ≠ -2)).length +
    if -2 ∈ newshape then rank - (source + newshape.idxOf (-2)) else 0

/-- The rank of an operand in its new shape. -/
def newRank (rank : Nat) (newshape : List Int) : Nat :=
  axesFrom rank 0 newshape

theorem axesFrom_cons_of_ne {entry : Int} (h : entry ≠ -2) (rank source : Nat) (rest : List Int) :
    axesFrom rank source (entry :: rest) = axesFrom rank (source + 1) rest + 1 := by
  have hidx : (entry :: rest).idxOf (-2) = rest.idxOf (-2) + 1 := List.idxOf_cons_ne _ h
  have hmem : -2 ∈ entry :: rest ↔ -2 ∈ rest := by simp [h.symm]
  have hfilter : (entry :: rest).filter (· ≠ -2) = entry :: rest.filter (· ≠ -2) :=
    List.filter_cons_of_pos (by simpa using h)
  simp only [axesFrom, hidx, hmem, hfilter, List.length_cons]
  split <;> omega

/-- Once all axes of the operand are used up, another -2 stands for none. -/
theorem axesFrom_cons_rest (rank source : Nat) (rest : List Int) :
    axesFrom rank source (-2 :: rest) = rank - source + axesFrom rank rank rest := by
  simp [axesFrom, Nat.add_comm]

theorem layOut_rank (input : List Dim) (source : Nat) (vacant : Bool) (newshape : List Int) :
    Ensures (fun slots => slots.length = axesFrom input.length source newshape)
      (layOut input source vacant newshape) := by
  induction newshape generalizing source vacant with
  | nil => exact .ok rfl
  | cons entry rest ih =>
    have hnext : ∀ (slot : Option Dim) vacant, entry ≠ -2 →
        Ensures (fun slots => slots.length = axesFrom input.length source (entry :: rest))
          (do return slot :: (← layOut input (source + 1) vacant rest)) := by
      intro slot vacant hentry
      refine (ih (source + 1) vacant).bind fun slots hslots => .ok ?_
      rw [List.length_cons, hslots, axesFrom_cons_of_ne hentry]
    rw [layOut]
    split
    · exact hnext _ vacant (by omega)
    split
    · split
      · exact .error
      · exact hnext _ vacant (by omega)
    split
    · split
      · exact hnext none false (by omega)
      · exact .error
    split
    · next hentry =>
      refine (ih input.length vacant).bind fun slots hslots => .ok ?_
      rw [List.length_append, List.length_map, List.length_drop, hslots, hentry,
        axesFrom_cons_rest]
    · exact .error

theorem reshapeDims_rank (input : List Dim) (newshape : List Int) :
    Ensures (fun out => out.length = newRank input.length newshape)
      (reshapeDims input newshape) := by
  unfold reshapeDims
  refine (layOut_rank input 0 true newshape).bind fun slots hslots => .bind_any fun count => ?_
  split
  · split
    · exact .error
    · refine .bind_any fun known => ?_
      split
      · exact .error
      · exact .ok (by rw [fill, List.length_map, hslots, newRank])
  · next hfull =>
    -- no slot is left to fill, so none is lost
    have hout : (slots.filterMap id).length = newRank input.length newshape := by
      refine Eq.trans ?_ hslots
      rw [List.filterMap_length_eq_length]
      intro slot hslot
      cases slot with
      | none => exact absurd (List.contains_iff_mem.2 hslot) hfull
      | some d => rfl
    refine .bind_any fun after => ?_
    split
    · split
      · exact .ok hout
      · exact .error
    · exact .ok hout

/-- A new shape for the first operand that stands for more axes than the greatest rank. -/
def Overlong (i : Inputs) : Prop :=
  ∃ input newshape, i.operandDims 0 = .ok input ∧ i.attr Attr.toInts "newshape" = .ok newshape ∧
    maxRank < newRank input.length newshape

theorem overlong_iff {i : Inputs} {input : List Dim} {newshape : List Int}
    (hinput : i.operandDims 0 = .ok input)
    (hnewshape : i.attr Attr.toInts "newshape" = .ok newshape) :
    Overlong i ↔ maxRank < newRank input.length newshape := by
  simp [Overlong, hinput, hnewshape]

/-- The rank of a reshaped operand is bounded by nothing but the new shape. -/
theorem reshape_bounded_iff {i : Inputs} {cs : List Component} (h : reshape i = .ok cs) :
    ComponentsBounded cs ↔ ¬Overlong i := by
  obtain ⟨input, hinput, h⟩ := Fallible.bind_eq_ok_iff.1 h
  obtain ⟨newshape, hnewshape, h⟩ := Fallible.bind_eq_ok_iff.1 h
  obtain ⟨out, hout, h⟩ := Fallible.bind_eq_ok_iff.1 h
  cases h
  have hrank := (reshapeDims_rank input newshape).mapError out hout
  rw [overlong_iff hinput hnewshape, ← hrank]
  simp [ComponentsBounded, single, RankBounded]

/-! ## All rules -/

theorem rule?_reshape : registry.rule? "relay.reshape" = some (ShapeRule.ofInputs reshape) :=
  rule?_of_mem (o := operator "reshape" .injective (.ofInputs reshape)) (by simp [operators])

/-- An operator is that of new shapes, or its rule, if it has one, keeps to bounded ranks. -/
theorem bounded_of_mem_operators {o : Operator} (h : o ∈ operators) :
    o.name = "relay.reshape" ∧ o.rule = some (ShapeRule.ofInputs reshape) ∨
      o.name ≠ "relay.reshape" ∧
        ∀ r, o.rule = some r → ∃ rule : Rule, rule.Bounded ∧ r = ShapeRule.ofInputs rule := by
  have hother : ∀ {base : String} {pattern : Pattern} {rule : ShapeRule} {rule' : Rule},
      dialectName ++ "." ++ base ≠ "relay.reshape" → rule = ShapeRule.ofInputs rule' →
      rule'.Bounded →
      (operator base pattern rule).name = "relay.reshape" ∧
          (operator base pattern rule).rule = some (ShapeRule.ofInputs reshape) ∨
        (operator base pattern rule).name ≠ "relay.reshape" ∧
          ∀ r, (operator base pattern rule).rule = some r →
            ∃ rule : Rule, rule.Bounded ∧ r = ShapeRule.ofInputs rule := by
    intro base pattern rule rule' hname heq hrule
    refine .inr ⟨hname, fun r hr => ⟨rule', hrule, ?_⟩⟩
    cases hr
    exact heq
  simp only [operators, List.mem_cons, List.not_mem_nil, or_false] at h
  rcases h with rfl | rfl | rfl | rfl | rfl | rfl | rfl | rfl | rfl | rfl | rfl | rfl | rfl | rfl |
    rfl | rfl | rfl | rfl | rfl | rfl | rfl | rfl | rfl | rfl | rfl | rfl | rfl | rfl | rfl | rfl |
    rfl
  -- six operators work on one tensor, six on two, and three reduce
  iterate 6 exact hother (by decide) InContext.unary_eq unary_bounded
  iterate 6 exact hother (by decide) InContext.binary_eq binary_bounded
  iterate 3 exact hother (by decide) InContext.reduction_eq reduction_bounded
  iterate 2 exact hother (by decide) InContext.pool2d_eq pool2d_bounded
  · exact hother (by decide) InContext.globalPool2d_eq globalPool2d_bounded
  · exact .inl ⟨rfl, congrArg some InContext.reshape_eq⟩
  · exact hother (by decide) InContext.transpose_eq transpose_bounded
  · exact hother (by decide) InContext.expand_eq expand_bounded
  · exact hother (by decide) InContext.squeeze_eq squeeze_bounded
  · exact hother (by decide) InContext.concatenate_eq concatenate_bounded
  · exact hother (by decide) InContext.batchFlatten_eq batchFlatten_bounded
  · exact hother (by decide) InContext.biasAdd_eq biasAdd_bounded
  · exact hother (by decide) InContext.softmax_eq softmax_bounded
  · exact hother (by decide) InContext.dense_eq dense_bounded
  · exact hother (by decide) InContext.batchMatmul_eq batchMatmul_bounded
  · exact hother (by decide) InContext.conv2d_eq conv2d_bounded
  · exact hother (by decide) InContext.cast_eq cast_bounded
  · exact .inr ⟨by decide, fun r hr => by cases hr⟩

/-- Operands of bounded rank lead to components of bounded rank, unless a new shape is overlong. -/
theorem componentsBounded_iff {name : String} {rule : ShapeRule} {c : Context}
    {cs : List Component} (hrule : registry.rule? name = some rule) (hc : c.inputs.RankBounded)
    (hcs : rule c = .ok cs) :
    ComponentsBounded cs ↔ ¬(name = "relay.reshape" ∧ Overlong c.inputs) := by
  obtain ⟨o, ho, hrule'⟩ := Option.bind_eq_some_iff.1 hrule
  obtain ⟨hmem, rfl⟩ := Registry.mem_of_get?_ofList ho
  rcases bounded_of_mem_operators hmem with ⟨hname, hreshape⟩ | ⟨hname, hother⟩
  · obtain rfl : ShapeRule.ofInputs reshape = rule := by simpa [hreshape] using hrule'
    rw [reshape_bounded_iff (ShapeRule.ofInputs_eq_ok_iff.1 hcs)]
    simp [hname]
  · obtain ⟨r, hr, rfl⟩ := hother rule hrule'
    have hbounded := hr _ hc cs (ShapeRule.ofInputs_eq_ok_iff.1 hcs)
    simp [hname, hbounded]

end Relay

end TensorIR
