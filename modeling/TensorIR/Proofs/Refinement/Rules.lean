import TensorIR.Proofs.Refinement.Basic
import TensorIR.Proofs.Relay.Operators

/-!
# The rules of the dialect are monotone

Each rule treats a dynamic dimension in its own way: it takes over what the other side knows, keeps
the dimension open, or refuses. None of them commits itself to anything that more precise operands
would contradict (`monotone_of_mem_rules`). The proofs follow the rules step by step; what they do
to dimensions is settled first.
-/

namespace TensorIR

open Fallible (Agree)

/-! ## Dimensions -/

namespace Dim

variable {a a' b b' d d' : Dim}

theorem broadcast?_refines (ha : a.Refines a') (hb : b.Refines b')
    (hd : a.broadcast? b = some d) (hd' : a'.broadcast? b' = some d') : d.Refines d' := by
  rcases ha.eq_or_dynamic with rfl | rfl <;> rcases hb.eq_or_dynamic with rfl | rfl
  · rw [hd] at hd'
    cases hd'
    exact .refl d
  · cases a' <;> cases b' <;> grind [Dim.broadcast?, Dim.Refines]
  · cases b' <;> cases a' <;> grind [Dim.broadcast?, Dim.Refines]
  · cases hd
    exact refines_dynamic d'

theorem unify?_refines (ha : a.Refines a') (hb : b.Refines b')
    (hd : a.unify? b = some d) (hd' : a'.unify? b' = some d') : d.Refines d' := by
  rcases ha.eq_or_dynamic with rfl | rfl <;> rcases hb.eq_or_dynamic with rfl | rfl
  · rw [hd] at hd'
    cases hd'
    exact .refl d
  · cases a' <;> cases b' <;> grind [Dim.unify?, Dim.Refines]
  · cases b' <;> cases a' <;> grind [Dim.unify?, Dim.Refines]
  · cases hd
    exact refines_dynamic d'

theorem unify?_agree {ε ε' : Type} (ha : a.Refines a') (hb : b.Refines b') (e : ε) (e' : ε') :
    Agree Refines (match a.unify? b with | none => .error e | some d => .ok d)
      (match a'.unify? b' with | none => .error e' | some d => .ok d) := by
  cases hd : a.unify? b with
  | none => exact .error_left
  | some d =>
    cases hd' : a'.unify? b' with
    | none => exact .error_right
    | some d' => exact .ok (unify?_refines ha hb hd hd')

theorem self_agree {ε : Type} {x : Except ε Dim} : Agree Refines x x := by
  intro d d' hd hd'
  rw [hd] at hd'
  cases hd'
  exact .refl d

/-- A dynamic dimension is refined by whatever the other computation finds. -/
theorem dynamic_agree {ε ε' : Type} {x : Except ε' Dim} :
    Agree Refines (.ok .dynamic : Except ε Dim) x := by
  rintro _ d' ⟨⟩ -
  exact refines_dynamic d'

end Dim

namespace Broadcast

theorem align_refines {ds ds' : List Dim} (h : DimsRefine ds ds') (rank : Nat) :
    DimsRefine (align rank ds) (align rank ds') := by
  unfold align
  rw [h.length_eq]
  exact List.rel_append (DimsRefine.refl _) h

theorem zip_agree {as as' bs bs' : List Dim} (ha : DimsRefine as as') (hb : DimsRefine bs bs')
    (position : Nat) : Agree DimsRefine (zip position as bs) (zip position as' bs') := by
  induction ha generalizing bs bs' position with
  | nil => exact .ok .nil
  | @cons a a' as as' ha _ ih =>
    cases hb with
    | nil => exact .ok .nil
    | @cons b b' bs bs' hb hbs =>
      have hrest := ih hbs (position + 1)
      rw [zip, zip]
      cases hd : a.broadcast? b with
      | none => exact .error_left
      | some d =>
        cases hd' : a'.broadcast? b' with
        | none => exact .error_right
        | some d' =>
          have hdd' := Dim.broadcast?_refines ha hb hd hd'
          cases hds : zip (position + 1) as bs with
          | error p => exact .error_left
          | ok ds =>
            cases hds' : zip (position + 1) as' bs' with
            | error p => exact .error_right
            | ok ds' => exact .ok (.cons hdd' (hrest ds ds' hds hds'))

theorem dims_agree {a a' b b' : List Dim} (ha : DimsRefine a a') (hb : DimsRefine b b') :
    Agree DimsRefine (dims a b) (dims a' b') := by
  unfold dims
  rw [← ha.length_eq, ← hb.length_eq]
  generalize max a.length b.length = rank
  have hzip := zip_agree (align_refines ha rank) (align_refines hb rank) 0
  simp only
  cases hds : zip 0 (align rank a) (align rank b) with
  | error p => exact .error_left
  | ok ds =>
    cases hds' : zip 0 (align rank a') (align rank b') with
    | error p => exact .error_right
    | ok ds' => exact .ok (hzip ds ds' hds hds')

end Broadcast

namespace Relay

/-- One component each, the second a refinement of the first. -/
def SingleRefine (cs cs' : List Component) : Prop :=
  ∃ c c', cs = [c] ∧ cs' = [c'] ∧ c.Refines c'

/-- Refined inputs lead to one refined component, if the rule succeeds on both. -/
def Rule.Monotone (rule : Rule) : Prop :=
  ∀ i i' : Inputs, i.Refines i' → Agree SingleRefine (rule i) (rule i')

theorem single_refine {ds ds' : List Dim} (h : DimsRefine ds ds') :
    SingleRefine (single ds) (single ds') :=
  ⟨_, _, rfl, rfl, rfl, h⟩

/-- A rule ends with a computation on dimensions. -/
theorem lift_single_agree {x x' : Except Defect (List Dim)} (h : Agree DimsRefine x x') :
    Agree SingleRefine (do return single (← Defect.lift x))
      (do return single (← Defect.lift x')) := by
  refine h.mapError.bind fun ds ds' hds => ?_
  exact .ok (single_refine hds)

variable {i : Inputs}

theorem unary_monotone : Rule.Monotone unary := by
  intro i i' h
  unfold unary
  rw [h.operandCount]
  split
  · exact .error_left
  · refine (h.operandDims 0).bind fun ds ds' hds => ?_
    exact .ok (single_refine hds)

theorem binary_monotone : Rule.Monotone binary := by
  intro i i' h
  unfold binary
  rw [h.operandCount]
  split
  · exact .error_left
  · refine (h.operandTy 0).bind fun left left' hleft => ?_
    refine (h.operandTy 1).bind fun right right' hright => ?_
    refine (Broadcast.dims_agree hleft.dims hright.dims).mapError.bind fun ds ds' hds => ?_
    exact .ok (single_refine hds)

theorem addBias_agree {data data' : List Dim} {bias bias' : Dim} (hdata : DimsRefine data data')
    (hbias : bias.Refines bias') (axis : Nat) :
    Agree DimsRefine (addBias data bias axis) (addBias data' bias' axis) := by
  have hrel := forall₂_getElem? hdata axis
  unfold addBias
  generalize data[axis]? = x at hrel
  generalize data'[axis]? = x' at hrel
  cases hrel with
  | none => exact .error_left
  | @some d d' hd =>
    cases hu : d.unify? bias with
    | none => simp only [hu]; exact .error_left
    | some u =>
      cases hu' : d'.unify? bias' with
      | none => simp only [hu']; exact .error_right
      | some u' =>
        simp only [hu, hu']
        exact .ok (forall₂_set hdata (Dim.unify?_refines hd hbias hu hu') axis)

theorem biasAdd_monotone : Rule.Monotone biasAdd := by
  intro i i' h
  unfold biasAdd
  refine (h.operandDims 0).bind fun data data' hdata => ?_
  refine (h.operandDims 1).bind fun bias bias' hbias => ?_
  cases hbias with
  | nil => exact .error_left
  | cons hc hbias =>
    cases hbias with
    | cons _ _ => exact .error_left
    | nil =>
      rw [h.attrD_eq, hdata.length_eq]
      refine .bind_self fun axis => ?_
      refine .bind_self fun position => ?_
      exact lift_single_agree (addBias_agree hdata hc position)

theorem softmax_monotone : Rule.Monotone softmax := by
  intro i i' h
  unfold softmax
  refine (h.operandDims 0).bind fun ds ds' hds => ?_
  rw [h.attrD_eq, hds.length_eq]
  refine .bind_self fun axis => ?_
  refine .bind_self fun _ => ?_
  exact .ok (single_refine hds)

theorem cast_monotone : Rule.Monotone cast := by
  intro i i' h
  unfold cast
  refine (h.operandDims 0).bind fun ds ds' hds => ?_
  rw [h.attr_eq]
  refine .bind_self fun element => ?_
  exact .ok ⟨_, _, rfl, rfl, rfl, hds⟩

theorem reduceDims_refines {ds ds' : List Dim} (h : DimsRefine ds ds') (reduced : Nat → Bool)
    (keep : Bool) : DimsRefine (reduceDims ds reduced keep) (reduceDims ds' reduced keep) := by
  refine filterMap_zipIdx_refines h fun d d' axis hd => ?_
  simp only
  split
  · split
    · exact .some (.refl _)
    · exact .none
  · exact .some hd

theorem reduction_monotone : Rule.Monotone reduction := by
  intro i i' h
  unfold reduction
  refine (h.operandDims 0).bind fun ds ds' hds => ?_
  rw [h.attrD_eq, h.attr?_eq, hds.length_eq]
  refine .bind_self fun keep => ?_
  refine .bind_self fun exclude => ?_
  refine .bind_self fun axes => ?_
  cases axes with
  | none => exact .ok (single_refine (reduceDims_refines hds _ keep))
  | some axes =>
    refine .bind_self fun listed => ?_
    exact .ok (single_refine (reduceDims_refines hds _ keep))

/-! ## Windows -/

theorem Window.outputDim_agree (w : Window) {d d' : Dim} (h : d.Refines d') :
    Agree Dim.Refines (w.outputDim d) (w.outputDim d') := by
  rcases h.eq_or_dynamic with rfl | rfl
  · exact Dim.self_agree
  · exact Dim.dynamic_agree

theorem pool2d_monotone : Rule.Monotone pool2d := by
  intro i i' h
  unfold pool2d
  refine (h.operandDims 0).bind fun data data' hdata => ?_
  rcases hdata with _ | ⟨hn, _ | ⟨hc, _ | ⟨hh, _ | ⟨hw, _ | _⟩⟩⟩⟩
  case cons.cons.cons.cons.nil =>
    rw [h.attr_eq, h.attrD_eq, h.attrD_eq]
    refine .bind_self fun sizes => .bind_self fun size => ?_
    refine .bind_self fun steps => .bind_self fun strides => ?_
    refine .bind_self fun sides => .bind_self fun pad => ?_
    refine .bind_self fun ceil => ?_
    refine (Window.outputDim_agree _ hh).mapError.bind fun height height' hheight => ?_
    refine (Window.outputDim_agree _ hw).mapError.bind fun width width' hwidth => ?_
    exact .ok (single_refine (.cons hn (.cons hc (.cons hheight (.cons hwidth .nil)))))
  all_goals exact .error_left

theorem globalPool2d_monotone : Rule.Monotone globalPool2d := by
  intro i i' h
  unfold globalPool2d
  refine (h.operandDims 0).bind fun data data' hdata => ?_
  rcases hdata with _ | ⟨hn, _ | ⟨hc, _ | ⟨_, _ | ⟨_, _ | _⟩⟩⟩⟩
  case cons.cons.cons.cons.nil =>
    exact .ok (single_refine (.cons hn (.cons hc (DimsRefine.refl _))))
  all_goals exact .error_left

theorem kernelExtents_agree {a a' b b' : Dim} (ha : a.Refines a') (hb : b.Refines b') :
    Agree Eq (kernelExtents a b) (kernelExtents a' b') := by
  cases a with
  | dynamic => exact .error_left
  | known height =>
    cases b with
    | dynamic => exact .error_left
    | known width =>
      rw [Dim.known_refines_iff.1 ha, Dim.known_refines_iff.1 hb]
      exact .self _

theorem conv2d_monotone : Rule.Monotone conv2d := by
  intro i i' h
  unfold conv2d
  refine (h.operandDims 0).bind fun data data' hdata => ?_
  refine (h.operandDims 1).bind fun weight weight' hweight => ?_
  rcases hdata with _ | ⟨hn, _ | ⟨_, _ | ⟨hh, _ | ⟨hw, _ | _⟩⟩⟩⟩
  case cons.cons.cons.cons.nil =>
    rcases hweight with _ | ⟨ho, _ | ⟨_, _ | ⟨hkh, _ | ⟨hkw, _ | _⟩⟩⟩⟩
    case cons.cons.cons.cons.nil =>
      rw [h.attrD_eq, h.attrD_eq, h.attr?_eq, h.attr?_eq]
      refine .bind_self fun number => .bind_self fun groups => ?_
      refine .bind_any fun _ _ => .bind_self fun channels => .bind_any fun _ _ => ?_
      refine (kernelExtents_agree hkh hkw).mapError.bind fun kernel kernel' hkernel => ?_
      subst hkernel
      refine .bind_self fun requested => .bind_self fun _ => ?_
      refine .bind_self fun steps => .bind_self fun strides => ?_
      refine .bind_self fun spread => .bind_self fun dilation => ?_
      refine .bind_self fun sides => .bind_self fun pad => ?_
      refine (Window.outputDim_agree _ hh).mapError.bind fun height height' hheight => ?_
      refine (Window.outputDim_agree _ hw).mapError.bind fun width width' hwidth => ?_
      exact .ok (single_refine (.cons hn (.cons ho (.cons hheight (.cons hwidth .nil)))))
    all_goals exact .error_left
  all_goals exact .error_left

/-! ## Products of matrices -/

theorem denseUnits_agree (requested : Option Int) {rows rows' : Dim} (h : rows.Refines rows') :
    Agree Dim.Refines (denseUnits requested rows) (denseUnits requested rows') := by
  cases requested with
  | none => exact .ok h
  | some units =>
    unfold denseUnits
    simp only
    split
    · exact .error_left
    · exact Dim.unify?_agree h (.refl _) _ _

theorem dense_monotone : Rule.Monotone dense := by
  intro i i' h
  unfold dense
  refine (h.operandDims 0).bind fun data data' hdata => ?_
  refine (h.operandDims 1).bind fun weight weight' hweight => ?_
  have hfront : DimsRefine data.dropLast data'.dropLast := by
    rw [List.dropLast_eq_take, List.dropLast_eq_take, hdata.length_eq]
    exact List.forall₂_take _ hdata
  have hlast := forall₂_getElem? hdata (data.length - 1)
  rw [List.getLast?_eq_getElem?, List.getLast?_eq_getElem?, ← hdata.length_eq]
  generalize data[data.length - 1]? = x at hlast
  generalize data'[data.length - 1]? = x' at hlast
  cases hlast with
  | none => exact .error_left
  | @some summed summed' _ =>
    rcases hweight with _ | ⟨hrows, _ | ⟨_, _ | _⟩⟩
    case cons.cons.nil =>
      simp only
      split
      · exact .error_left
      · split
        · exact .error_right
        · rw [h.attr?_eq]
          refine .bind_self fun requested => ?_
          refine (denseUnits_agree requested hrows).mapError.bind fun units units' hunits => ?_
          exact .ok (single_refine (List.rel_append hfront (.cons hunits .nil)))
    all_goals exact .error_left

theorem batchDim_agree {a a' b b' : Dim} (ha : a.Refines a') (hb : b.Refines b') :
    Agree Dim.Refines (batchDim a b) (batchDim a' b') := by
  intro d d' hd hd'
  -- what is known of both sides stays; each side that is dynamic can become any extent
  rcases ha.eq_or_dynamic with rfl | rfl <;> rcases hb.eq_or_dynamic with rfl | rfl
  · rw [hd] at hd'
    cases hd'
    exact .refl d
  · cases a' <;> cases b' <;> grind [batchDim, Dim.unify?, Dim.Refines]
  · cases b' <;> cases a' <;> grind [batchDim, Dim.unify?, Dim.Refines]
  · cases hd
    exact Dim.refines_dynamic d'

theorem batchMatmul_monotone : Rule.Monotone batchMatmul := by
  intro i i' h
  unfold batchMatmul
  refine (h.operandDims 0).bind fun left left' hleft => ?_
  refine (h.operandDims 1).bind fun right right' hright => ?_
  rcases hleft with _ | ⟨hb, _ | ⟨hm, _ | ⟨_, _ | _⟩⟩⟩
  case cons.cons.cons.nil =>
    rcases hright with _ | ⟨hb', _ | ⟨hn, _ | ⟨_, _ | _⟩⟩⟩
    case cons.cons.cons.nil =>
      simp only
      split
      · exact .error_left
      · split
        · exact .error_right
        · refine (batchDim_agree hb hb').mapError.bind fun batch batch' hbatch => ?_
          exact .ok (single_refine (.cons hbatch (.cons hm (.cons hn .nil))))
    all_goals exact .error_left
  all_goals exact .error_left

/-! ## Axes that are moved, put in and taken away -/

theorem permuteDims_agree {ds ds' : List Dim} (h : DimsRefine ds ds') (perm : List Nat) :
    Agree DimsRefine (permuteDims ds perm) (permuteDims ds' perm) := by
  unfold permuteDims
  rw [h.length_eq]
  split
  · exact .error_left
  · split
    · refine .ok (List.rel_filterMap ?_ (List.forall₂_same.2 fun axis _ => rfl))
      intro axis axis' haxis
      cases haxis
      exact forall₂_getElem? h axis
    · exact .error_left

theorem transposeDims_agree {ds ds' : List Dim} (h : DimsRefine ds ds')
    (axes : Option (List Int)) :
    Agree DimsRefine (transposeDims ds axes) (transposeDims ds' axes) := by
  unfold transposeDims
  rw [h.length_eq]
  cases axes with
  | none => exact permuteDims_agree h _
  | some axes => exact .bind_self fun perm => permuteDims_agree h perm

theorem transpose_monotone : Rule.Monotone transpose := by
  intro i i' h
  unfold transpose
  refine (h.operandDims 0).bind fun ds ds' hds => ?_
  rw [h.attr?_eq]
  refine .bind_self fun axes => ?_
  exact lift_single_agree (transposeDims_agree hds axes)

theorem expandDims_agree {ds ds' : List Dim} (h : DimsRefine ds ds') (position : Nat)
    (count : Int) :
    Agree DimsRefine (expandDims ds position count) (expandDims ds' position count) := by
  unfold expandDims
  rw [h.length_eq]
  split
  · exact .error_left
  · split
    · exact .error_left
    · have hfront := List.rel_append (List.forall₂_take position h)
        (DimsRefine.refl (List.replicate count.toNat (.known 1)))
      exact .ok (List.rel_append hfront (List.forall₂_drop position h))

theorem expand_monotone : Rule.Monotone expand := by
  intro i i' h
  unfold expand
  refine (h.operandDims 0).bind fun ds ds' hds => ?_
  rw [h.attr_eq, h.attrD_eq, hds.length_eq]
  refine .bind_self fun axis => .bind_self fun position => .bind_self fun count => ?_
  exact lift_single_agree (expandDims_agree hds position count)

/-- An axis that can be taken away stays where it is, and its extent is 1 if it becomes known. -/
theorem unitAxis_agree {ds ds' : List Dim} (h : DimsRefine ds ds') (axis : Int) :
    Agree Eq (unitAxis ds axis) (unitAxis ds' axis) := by
  have hposition : ∀ {ds : List Dim} {p}, unitAxis ds axis = .ok p →
      normalizeAxis axis ds.length = .ok p := by
    intro ds p hp
    obtain ⟨position, hposition, hp⟩ := Fallible.bind_eq_ok_iff.1 hp
    rw [hposition]
    split at hp
    · split at hp
      · exact hp
      · cases hp
    · exact hp
  intro p p' hp hp'
  have hp := hposition hp
  have hp' := hposition hp'
  rw [h.length_eq, hp'] at hp
  cases hp
  rfl

theorem squeezeDims_agree {ds ds' : List Dim} (h : DimsRefine ds ds') (axes : Option (List Int)) :
    Agree DimsRefine (squeezeDims ds axes) (squeezeDims ds' axes) := by
  unfold squeezeDims
  cases axes with
  | none =>
    simp only
    split
    · exact .error_left
    · rename_i hstatic
      rw [h.eq_of_static (by simpa using hstatic), if_neg hstatic]
      exact .ok (DimsRefine.refl _)
  | some axes =>
    refine (Agree.mapM (unitAxis_agree h) axes).bind fun removed removed' hremoved => ?_
    rw [List.forall₂_eq_eq_eq] at hremoved
    subst hremoved
    refine .ok (filterMap_zipIdx_refines h fun d d' axis hd => ?_)
    simp only
    split
    · exact .none
    · exact .some hd

theorem squeeze_monotone : Rule.Monotone squeeze := by
  intro i i' h
  unfold squeeze
  refine (h.operandDims 0).bind fun ds ds' hds => ?_
  rw [h.attr?_eq]
  refine .bind_self fun axes => ?_
  exact lift_single_agree (squeezeDims_agree hds axes)

/-! ## Operands that are joined -/

theorem joinDim_agree {a a' b b' : Dim} (ha : a.Refines a') (hb : b.Refines b') :
    Agree Dim.Refines (joinDim a b) (joinDim a' b') := by
  cases a with
  | dynamic => exact Dim.dynamic_agree
  | known m =>
    cases b with
    | dynamic => exact Dim.dynamic_agree
    | known n =>
      rw [Dim.known_refines_iff.1 ha, Dim.known_refines_iff.1 hb]
      exact Dim.self_agree

theorem joinDims_agree {as as' bs bs' : List Dim} (ha : DimsRefine as as')
    (hb : DimsRefine bs bs') (operand axis position : Nat) :
    Agree DimsRefine (joinDims operand axis position as bs)
      (joinDims operand axis position as' bs') := by
  induction ha generalizing bs bs' position with
  | nil => exact .ok .nil
  | cons had _ ih =>
    cases hb with
    | nil => exact .ok .nil
    | cons hbd hbs =>
      rw [joinDims, joinDims]
      have hrest := ih hbs (position + 1)
      split
      · refine (joinDim_agree had hbd).bind fun d d' hd => ?_
        refine hrest.bind fun ds ds' hds => ?_
        exact .ok (.cons hd hds)
      · split
        · exact .error_left
        · split
          · exact .error_right
          · rename_i d hd _ d' hd'
            refine hrest.bind fun ds ds' hds => ?_
            exact .ok (.cons (Dim.unify?_refines had hbd hd hd') hds)

theorem joinRest_agree {i i' : Inputs} (h : i.Refines i') (axis operand count : Nat)
    {joined joined' : List Dim} (hjoined : DimsRefine joined joined') :
    Agree DimsRefine (joinRest i axis joined operand count)
      (joinRest i' axis joined' operand count) := by
  induction count generalizing operand joined joined' with
  | zero => exact .ok hjoined
  | succ count ih =>
    rw [joinRest, joinRest]
    refine (h.operandDims operand).bind fun ds ds' hds => ?_
    rw [hds.length_eq, hjoined.length_eq]
    split
    · exact .error_left
    · refine (joinDims_agree hjoined hds operand axis 0).mapError.bind fun out out' hout => ?_
      exact ih (operand + 1) hout

theorem concatenate_monotone : Rule.Monotone concatenate := by
  intro i i' h
  unfold concatenate
  rw [h.operandCount]
  split
  · exact .error_left
  · refine (h.operandDims 0).bind fun first first' hfirst => ?_
    rw [h.attrD_eq, hfirst.length_eq]
    refine .bind_self fun number => .bind_self fun axis => ?_
    refine (joinRest_agree h axis 1 _ hfirst).bind fun out out' hout => ?_
    exact .ok (single_refine hout)

/-! ## New shapes -/

theorem productFrom_agree {ds ds' : List Dim} (h : DimsRefine ds ds') (acc : Nat) :
    Agree Dim.Refines (productFrom acc ds) (productFrom acc ds') := by
  induction h generalizing acc with
  | nil => exact .ok (.refl _)
  | @cons d d' ds ds' hd _ ih =>
    cases d with
    | dynamic => exact Dim.dynamic_agree
    | known n =>
      rw [Dim.known_refines_iff.1 hd, productFrom, productFrom]
      split
      · exact .error_left
      · exact ih _

/-- Dimensions of a new shape, refined where they are copied from the operand. -/
abbrev SlotsRefine (slots slots' : List (Option Dim)) : Prop :=
  List.Forall₂ (Option.Rel Dim.Refines) slots slots'

theorem layOut_agree {ds ds' : List Dim} (h : DimsRefine ds ds') (source : Nat) (vacant : Bool)
    (newshape : List Int) :
    Agree SlotsRefine (layOut ds source vacant newshape) (layOut ds' source vacant newshape) := by
  induction newshape generalizing source vacant with
  | nil => exact .ok .nil
  | cons entry rest ih =>
    rw [layOut, layOut]
    split
    · -- a given extent
      refine (ih (source + 1) vacant).bind fun slots slots' hslots => ?_
      exact .ok (.cons (.some (.refl _)) hslots)
    split
    · -- a copied extent
      have hrel := forall₂_getElem? h source
      generalize ds[source]? = x at hrel
      generalize ds'[source]? = x' at hrel
      cases hrel with
      | none => exact .error_left
      | some hd =>
        refine (ih (source + 1) vacant).bind fun slots slots' hslots => ?_
        exact .ok (.cons (.some hd) hslots)
    split
    · -- the extent to infer
      split
      · refine (ih (source + 1) false).bind fun slots slots' hslots => ?_
        exact .ok (.cons .none hslots)
      · exact .error_left
    split
    · -- all remaining extents
      rw [← h.length_eq]
      refine (ih ds.length vacant).bind fun slots slots' hslots => ?_
      have hcopied : SlotsRefine ((ds.drop source).map some) ((ds'.drop source).map some) :=
        List.rel_map (fun _ _ hd => .some hd) (List.forall₂_drop source h)
      exact .ok (List.rel_append hcopied hslots)
    · exact .error_left

theorem knownProduct_agree {slots slots' : List (Option Dim)} (h : SlotsRefine slots slots')
    (acc : Nat) : Agree Eq (knownProduct acc slots) (knownProduct acc slots') := by
  induction h generalizing acc with
  | nil => exact .self _
  | cons hslot _ ih =>
    cases hslot with
    | none => exact ih acc
    | @some d d' hd =>
      cases d with
      | dynamic => exact .error_left
      | known n =>
        rw [Dim.known_refines_iff.1 hd, knownProduct, knownProduct]
        split
        · exact .error_left
        · exact ih _

theorem fill_refines {slots slots' : List (Option Dim)} (h : SlotsRefine slots slots')
    (extent : Nat) : DimsRefine (fill extent slots) (fill extent slots') := by
  refine List.rel_map ?_ h
  intro slot slot' hslot
  cases hslot with
  | none => exact .refl _
  | some hd => exact hd

theorem contains_none_iff {slots slots' : List (Option Dim)} (h : SlotsRefine slots slots') :
    slots'.contains none = slots.contains none := by
  induction h with
  | nil => rfl
  | cons hslot _ ih =>
    rw [List.contains_cons, List.contains_cons, ih]
    cases hslot <;> rfl

theorem reshapeDims_agree {ds ds' : List Dim} (h : DimsRefine ds ds') (newshape : List Int) :
    Agree DimsRefine (reshapeDims ds newshape) (reshapeDims ds' newshape) := by
  unfold reshapeDims
  refine (layOut_agree h 0 true newshape).bind fun slots slots' hslots => ?_
  refine (productFrom_agree h 1).bind fun count count' hcount => ?_
  rw [contains_none_iff hslots]
  split
  · -- the inferred extent comes from known numbers only
    cases count with
    | dynamic => exact .error_left
    | known total =>
      rw [Dim.known_refines_iff.1 hcount]
      refine (knownProduct_agree hslots 1).bind fun known known' hknown => ?_
      subst hknown
      split
      · exact .error_left
      · exact .ok (fill_refines hslots _)
  · have hout : DimsRefine (slots.filterMap id) (slots'.filterMap id) :=
      List.rel_filterMap (fun _ _ hslot => hslot) hslots
    refine .bind_any fun after after' => ?_
    -- a check of known numbers of elements leaves the shape as it is
    split
    · split
      · split
        · split
          · exact .ok hout
          · exact .error_right
        · exact .ok hout
      · exact .error_left
    · split
      · split
        · exact .ok hout
        · exact .error_right
      · exact .ok hout

theorem reshape_monotone : Rule.Monotone reshape := by
  intro i i' h
  unfold reshape
  refine (h.operandDims 0).bind fun ds ds' hds => ?_
  rw [h.attr_eq]
  refine .bind_self fun newshape => ?_
  exact lift_single_agree (reshapeDims_agree hds newshape)

theorem flattenDims_agree {ds ds' : List Dim} (h : DimsRefine ds ds') :
    Agree DimsRefine (flattenDims ds) (flattenDims ds') := by
  cases h with
  | nil => exact .error_left
  | cons hbatch hrest =>
    refine (productFrom_agree hrest 1).bind fun flat flat' hflat => ?_
    exact .ok (.cons hbatch (.cons hflat .nil))

theorem batchFlatten_monotone : Rule.Monotone batchFlatten := by
  intro i i' h
  unfold batchFlatten
  refine (h.operandDims 0).bind fun ds ds' hds => ?_
  exact lift_single_agree (flattenDims_agree hds)

/-! ## All rules -/

theorem monotone_of_mem_rules {rule : Rule} (h : rule ∈ rules) : rule.Monotone := by
  simp only [rules, List.mem_cons, List.not_mem_nil, or_false] at h
  rcases h with rfl | rfl | rfl | rfl | rfl | rfl | rfl | rfl | rfl | rfl | rfl | rfl | rfl | rfl |
    rfl | rfl | rfl
  · exact unary_monotone
  · exact binary_monotone
  · exact reduction_monotone
  · exact pool2d_monotone
  · exact globalPool2d_monotone
  · exact reshape_monotone
  · exact transpose_monotone
  · exact expand_monotone
  · exact squeeze_monotone
  · exact concatenate_monotone
  · exact batchFlatten_monotone
  · exact biasAdd_monotone
  · exact softmax_monotone
  · exact dense_monotone
  · exact batchMatmul_monotone
  · exact conv2d_monotone
  · exact cast_monotone

/-- A rule that succeeds infers one component. -/
theorem length_eq_one_of_mem_rules {rule : Rule} (h : rule ∈ rules) {cs : List Component}
    (hcs : rule i = .ok cs) : cs.length = 1 := by
  obtain ⟨c, -, rfl, -⟩ := monotone_of_mem_rules h i i (.refl i) cs cs hcs hcs
  rfl

end Relay

end TensorIR
