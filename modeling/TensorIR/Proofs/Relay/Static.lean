import TensorIR.Proofs.Relay.Operators

/-!
# Static operands have static results

Given operands without dynamic dimensions, no rule infers one (`static_of_mem_rules`). What a rule
makes up itself is known: the extents of windows and products, the axes of extent 1, and the extent
that stands for an entry -1 of a new shape.
-/

namespace TensorIR

open Fallible (Ensures)

/-! ## Dimensions -/

namespace Dim

variable {a b d : Dim}

theorem broadcast?_ne_dynamic (ha : a ≠ dynamic) (hb : b ≠ dynamic)
    (h : a.broadcast? b = some d) : d ≠ dynamic := by
  cases a with
  | dynamic => exact absurd rfl ha
  | known m =>
    cases b with
    | dynamic => exact absurd rfl hb
    | known n => grind [broadcast?]

theorem unify?_ne_dynamic (ha : a ≠ dynamic) (h : a.unify? b = some d) : d ≠ dynamic := by
  cases a with
  | dynamic => exact absurd rfl ha
  | known m => cases b <;> grind [unify?]

end Dim

/-- No dimension is dynamic. -/
def DimsStatic (ds : List Dim) : Prop :=
  ∀ d ∈ ds, d ≠ .dynamic

theorem Ty.isStatic_iff {ty : Ty} : ty.isStatic = true ↔ DimsStatic ty.dims := by
  have hknown : ∀ d : Dim, d.isKnown = true ↔ d ≠ .dynamic := by
    intro d
    cases d <;> simp [Dim.isKnown, Dim.known?]
  cases ty with
  | scalar e => simp [isStatic, dims, DimsStatic]
  | tensor t => simp [isStatic, TensorTy.isStatic, dims, DimsStatic, hknown]

theorem Component.dims_resolve (c : Component) (old : Ty) : (c.resolve old).dims = c.dims := by
  obtain ⟨dims, element⟩ := c
  cases old with
  | scalar e => cases dims <;> rfl
  | tensor t => rfl

namespace Broadcast

theorem align_static {ds : List Dim} (h : DimsStatic ds) (rank : Nat) :
    DimsStatic (align rank ds) := by
  intro d hd
  rcases List.mem_append.1 hd with hd | hd
  · rw [List.eq_of_mem_replicate hd]
    simp
  · exact h d hd

theorem zip_static {as bs : List Dim} (ha : DimsStatic as) (hb : DimsStatic bs) (position : Nat) :
    Ensures DimsStatic (zip position as bs) := by
  fun_induction zip position as bs with
  | case1 => exact .error
  | case2 => exact .error
  | case3 position a as b bs d hd ds hds ih =>
    have hrest := ih (fun x hx => ha x (.tail _ hx)) (fun x hx => hb x (.tail _ hx))
    refine .ok (List.forall_mem_cons.2 ⟨?_, hrest ds hds⟩)
    exact Dim.broadcast?_ne_dynamic (ha a List.mem_cons_self) (hb b List.mem_cons_self) hd
  | case4 => exact .ok (by simp [DimsStatic])

theorem dims_static {a b : List Dim} (ha : DimsStatic a) (hb : DimsStatic b) :
    Ensures DimsStatic (dims a b) := by
  have hzip := zip_static (align_static ha (max a.length b.length))
    (align_static hb (max a.length b.length)) 0
  unfold dims
  simp only
  split
  · exact .error
  · next ds hds => exact .ok (hzip ds hds)

end Broadcast

/-- The operands that are there have static types. -/
def Inputs.Static (i : Inputs) : Prop :=
  ∀ ty, some ty ∈ i.operands → DimsStatic ty.dims

namespace Inputs

variable {i : Inputs}

/-- What holds of the dimensions of all operands that are there holds of those that are read. -/
theorem ensures_operandTy {P : List Dim → Prop} (h : ∀ ty, some ty ∈ i.operands → P ty.dims)
    (k : Nat) : Ensures (fun ty => P ty.dims) (i.operandTy k) := by
  unfold Inputs.operandTy
  split
  · next ty hty => exact .ok (h ty (List.mem_of_getElem? hty))
  · exact .error
  · exact .error

theorem ensures_operandDims {P : List Dim → Prop} (h : ∀ ty, some ty ∈ i.operands → P ty.dims)
    (k : Nat) : Ensures P (i.operandDims k) := by
  have hty := ensures_operandTy h k
  unfold Inputs.operandDims Inputs.operandTensor
  cases hk : i.operandTy k with
  | error e => exact .error
  | ok ty =>
    cases ty with
    | scalar e => exact .error
    | tensor t => exact .ok (hty _ hk)

theorem Static.operandTy (h : i.Static) (k : Nat) :
    Ensures (fun ty => DimsStatic ty.dims) (i.operandTy k) :=
  ensures_operandTy h k

theorem Static.operandDims (h : i.Static) (k : Nat) : Ensures DimsStatic (i.operandDims k) :=
  ensures_operandDims h k

end Inputs

namespace Relay

/-- Every component is without dynamic dimensions. -/
def ComponentsStatic (cs : List Component) : Prop :=
  ∀ c ∈ cs, DimsStatic c.dims

/-- Static operands lead to static components, if the rule succeeds. -/
def Rule.Static (rule : Rule) : Prop :=
  ∀ i : Inputs, i.Static → Ensures ComponentsStatic (rule i)

theorem single_static {ds : List Dim} (h : DimsStatic ds) : ComponentsStatic (single ds) := by
  simpa [ComponentsStatic, single] using h

/-- A rule ends with a computation on dimensions. -/
theorem lift_single_static {x : Except Defect (List Dim)} (h : Ensures DimsStatic x) :
    Ensures ComponentsStatic (do return single (← Defect.lift x)) := by
  refine h.mapError.bind fun ds hds => ?_
  exact .ok (single_static hds)

/-! ## Element by element -/

theorem unary_static : Rule.Static unary := by
  intro i h
  unfold unary
  split
  · exact .error
  · refine (h.operandDims 0).bind fun ds hds => ?_
    exact .ok (single_static hds)

theorem binary_static : Rule.Static binary := by
  intro i h
  unfold binary
  split
  · exact .error
  · refine (h.operandTy 0).bind fun left hleft => ?_
    refine (h.operandTy 1).bind fun right hright => ?_
    refine (Broadcast.dims_static hleft hright).mapError.bind fun ds hds => ?_
    exact .ok (single_static hds)

theorem addBias_static {data : List Dim} (h : DimsStatic data) (bias : Dim) (axis : Nat) :
    Ensures DimsStatic (addBias data bias axis) := by
  unfold addBias
  split
  · exact .error
  · next d hd =>
    split
    · exact .error
    · next unified hunified =>
      refine .ok fun x hx => ?_
      rcases List.mem_or_eq_of_mem_set hx with hx | rfl
      · exact h x hx
      · exact Dim.unify?_ne_dynamic (h d (List.mem_of_getElem? hd)) hunified

theorem biasAdd_static : Rule.Static biasAdd := by
  intro i h
  unfold biasAdd
  refine (h.operandDims 0).bind fun data hdata => ?_
  refine .bind_any fun bias => ?_
  split
  · refine .bind_any fun number => .bind_any fun axis => ?_
    exact lift_single_static (addBias_static hdata _ axis)
  · exact .error

theorem softmax_static : Rule.Static softmax := by
  intro i h
  unfold softmax
  refine (h.operandDims 0).bind fun ds hds => ?_
  refine .bind_any fun axis => .bind_any fun _ => ?_
  exact .ok (single_static hds)

theorem cast_static : Rule.Static cast := by
  intro i h
  unfold cast
  refine (h.operandDims 0).bind fun ds hds => ?_
  refine .bind_any fun element => .ok ?_
  simpa [ComponentsStatic] using hds

theorem reduceDims_static {ds : List Dim} (h : DimsStatic ds) (reduced : Nat → Bool)
    (keep : Bool) : DimsStatic (reduceDims ds reduced keep) := by
  intro x hx
  obtain ⟨⟨d, axis⟩, hd, hx⟩ := List.mem_filterMap.1 hx
  simp only at hx
  split at hx
  · split at hx
    · cases hx
      simp
    · cases hx
  · cases hx
    exact h x (List.fst_mem_of_mem_zipIdx hd)

theorem reduction_static : Rule.Static reduction := by
  intro i h
  unfold reduction
  refine (h.operandDims 0).bind fun ds hds => ?_
  refine .bind_any fun keep => .bind_any fun exclude => .bind_any fun axes => ?_
  cases axes with
  | none => exact .ok (single_static (reduceDims_static hds _ keep))
  | some axes =>
    refine .bind_any fun listed => ?_
    exact .ok (single_static (reduceDims_static hds _ keep))

/-! ## Windows -/

theorem Window.outputDim_static (w : Window) {d : Dim} (h : d ≠ .dynamic) :
    Ensures (· ≠ .dynamic) (w.outputDim d) := by
  cases d with
  | dynamic => exact absurd rfl h
  | known n => exact Ensures.map (P := fun _ => True) (fun _ _ => trivial) (by simp)

theorem pool2d_static : Rule.Static pool2d := by
  intro i h
  unfold pool2d
  refine (h.operandDims 0).bind fun data hdata => ?_
  split
  · simp only [DimsStatic, List.forall_mem_cons, List.not_mem_nil] at hdata
    obtain ⟨hn, hc, hh, hw, -⟩ := hdata
    refine .bind_any fun sizes => .bind_any fun size => ?_
    refine .bind_any fun steps => .bind_any fun strides => ?_
    refine .bind_any fun sides => .bind_any fun pad => .bind_any fun ceil => ?_
    refine (Window.outputDim_static _ hh).mapError.bind fun height hheight => ?_
    refine (Window.outputDim_static _ hw).mapError.bind fun width hwidth => ?_
    exact .ok (single_static (by simp [DimsStatic, *]))
  · exact .error

theorem globalPool2d_static : Rule.Static globalPool2d := by
  intro i h
  unfold globalPool2d
  refine (h.operandDims 0).bind fun data hdata => ?_
  split
  · simp only [DimsStatic, List.forall_mem_cons, List.not_mem_nil] at hdata
    exact .ok (single_static (by simp [DimsStatic, hdata]))
  · exact .error

theorem conv2d_static : Rule.Static conv2d := by
  intro i h
  unfold conv2d
  refine (h.operandDims 0).bind fun data hdata => ?_
  refine (h.operandDims 1).bind fun weight hweight => ?_
  split
  · simp only [DimsStatic, List.forall_mem_cons, List.not_mem_nil] at hdata hweight
    obtain ⟨hn, -, hh, hw, -⟩ := hdata
    obtain ⟨ho, -⟩ := hweight
    refine .bind_any fun number => .bind_any fun groups => .bind_any fun _ => ?_
    refine .bind_any fun channels => .bind_any fun _ => .bind_any fun kernel => ?_
    refine .bind_any fun requested => .bind_any fun _ => ?_
    refine .bind_any fun steps => .bind_any fun strides => ?_
    refine .bind_any fun spread => .bind_any fun dilation => ?_
    refine .bind_any fun sides => .bind_any fun pad => ?_
    refine (Window.outputDim_static _ hh).mapError.bind fun height hheight => ?_
    refine (Window.outputDim_static _ hw).mapError.bind fun width hwidth => ?_
    exact .ok (single_static (by simp [DimsStatic, *]))
  · exact .error

/-! ## Products of matrices -/

theorem denseUnits_static (requested : Option Int) {rows : Dim} (h : rows ≠ .dynamic) :
    Ensures (· ≠ .dynamic) (denseUnits requested rows) := by
  unfold denseUnits
  split
  · exact .ok h
  · split
    · exact .error
    · split
      · exact .error
      · next d hd => exact .ok (Dim.unify?_ne_dynamic h hd)

theorem dense_static : Rule.Static dense := by
  intro i h
  unfold dense
  refine (h.operandDims 0).bind fun data hdata => ?_
  refine (h.operandDims 1).bind fun weight hweight => ?_
  split
  · exact .error
  · split
    · exact .error
    · refine .bind_any fun requested => ?_
      refine (denseUnits_static requested (hweight _ List.mem_cons_self)).mapError.bind
        fun units hunits => ?_
      refine .ok (single_static fun d hd => ?_)
      rcases List.mem_append.1 hd with hd | hd
      · exact hdata d ((List.dropLast_sublist data).subset hd)
      · rw [List.mem_singleton.1 hd]
        exact hunits
  · exact .error

theorem batchDim_static {left right : Dim} (hl : left ≠ .dynamic) (hr : right ≠ .dynamic) :
    Ensures (· ≠ .dynamic) (batchDim left right) := by
  unfold batchDim
  split
  · exact .ok hr
  · split
    · exact .ok hl
    · split
      · exact .error
      · next d hd => exact .ok (Dim.unify?_ne_dynamic hl hd)

theorem batchMatmul_static : Rule.Static batchMatmul := by
  intro i h
  unfold batchMatmul
  refine (h.operandDims 0).bind fun left hleft => ?_
  refine (h.operandDims 1).bind fun right hright => ?_
  split
  · simp only [DimsStatic, List.forall_mem_cons, List.not_mem_nil] at hleft hright
    split
    · exact .error
    · refine (batchDim_static hleft.1 hright.1).mapError.bind fun batch hbatch => ?_
      exact .ok (single_static (by simp [DimsStatic, hbatch, hleft, hright]))
  · exact .error

/-! ## Axes that are moved, put in and taken away -/

theorem transposeDims_static {ds : List Dim} (h : DimsStatic ds) (axes : Option (List Int)) :
    Ensures DimsStatic (transposeDims ds axes) := by
  have hpermute : ∀ perm, Ensures DimsStatic (permuteDims ds perm) := by
    intro perm
    unfold permuteDims
    split
    · exact .error
    · split
      · refine .ok fun d hd => ?_
        obtain ⟨axis, -, haxis⟩ := List.mem_filterMap.1 hd
        exact h d (List.mem_of_getElem? haxis)
      · exact .error
  unfold transposeDims
  cases axes with
  | none => exact hpermute _
  | some axes => exact .bind_any hpermute

theorem transpose_static : Rule.Static transpose := by
  intro i h
  unfold transpose
  refine (h.operandDims 0).bind fun ds hds => ?_
  exact .bind_any fun axes => lift_single_static (transposeDims_static hds axes)

theorem expandDims_static {ds : List Dim} (h : DimsStatic ds) (position : Nat) (count : Int) :
    Ensures DimsStatic (expandDims ds position count) := by
  unfold expandDims
  split
  · exact .error
  · split
    · exact .error
    · refine .ok fun d hd => ?_
      simp only [List.mem_append, List.mem_replicate] at hd
      rcases hd with (hd | ⟨-, rfl⟩) | hd
      · exact h d (List.mem_of_mem_take hd)
      · simp
      · exact h d (List.mem_of_mem_drop hd)

theorem expand_static : Rule.Static expand := by
  intro i h
  unfold expand
  refine (h.operandDims 0).bind fun ds hds => ?_
  refine .bind_any fun axis => .bind_any fun position => .bind_any fun count => ?_
  exact lift_single_static (expandDims_static hds position count)

theorem squeezeDims_static {ds : List Dim} (h : DimsStatic ds) (axes : Option (List Int)) :
    Ensures DimsStatic (squeezeDims ds axes) := by
  unfold squeezeDims
  cases axes with
  | none =>
    simp only
    split
    · exact .error
    · exact .ok fun d hd => h d (List.mem_filter.1 hd).1
  | some axes =>
    refine .bind_any fun removed => .ok fun x hx => ?_
    obtain ⟨⟨d, axis⟩, hd, hx⟩ := List.mem_filterMap.1 hx
    simp only at hx
    split at hx
    · cases hx
    · cases hx
      exact h x (List.fst_mem_of_mem_zipIdx hd)

theorem squeeze_static : Rule.Static squeeze := by
  intro i h
  unfold squeeze
  refine (h.operandDims 0).bind fun ds hds => ?_
  exact .bind_any fun axes => lift_single_static (squeezeDims_static hds axes)

/-! ## Operands that are joined -/

theorem joinDim_static {a b : Dim} (ha : a ≠ .dynamic) (hb : b ≠ .dynamic) :
    Ensures (· ≠ .dynamic) (joinDim a b) := by
  cases a with
  | dynamic => exact absurd rfl ha
  | known m =>
    cases b with
    | dynamic => exact absurd rfl hb
    | known n => exact Ensures.map (P := fun _ => True) (fun _ _ => trivial) (by simp)

theorem joinDims_static {as bs : List Dim} (ha : DimsStatic as) (hb : DimsStatic bs)
    (operand axis position : Nat) :
    Ensures DimsStatic (joinDims operand axis position as bs) := by
  induction as generalizing bs position with
  | nil => exact .ok (by simp [DimsStatic])
  | cons a as ih =>
    cases bs with
    | nil => exact .ok (by simp [DimsStatic])
    | cons b bs =>
      rw [DimsStatic, List.forall_mem_cons] at ha hb
      have hrest := ih ha.2 hb.2 (position + 1)
      rw [joinDims]
      split
      · refine (joinDim_static ha.1 hb.1).bind fun d hd => hrest.bind fun ds hds => ?_
        exact .ok (List.forall_mem_cons.2 ⟨hd, hds⟩)
      · split
        · exact .error
        · next d hd =>
          refine hrest.bind fun ds hds => .ok (List.forall_mem_cons.2 ⟨?_, hds⟩)
          exact Dim.unify?_ne_dynamic ha.1 hd

theorem joinRest_static {i : Inputs} (h : i.Static) (axis operand count : Nat)
    {joined : List Dim} (hjoined : DimsStatic joined) :
    Ensures DimsStatic (joinRest i axis joined operand count) := by
  induction count generalizing operand joined with
  | zero => exact .ok hjoined
  | succ count ih =>
    rw [joinRest]
    refine (h.operandDims operand).bind fun ds hds => ?_
    split
    · exact .error
    · refine (joinDims_static hjoined hds operand axis 0).mapError.bind fun out hout => ?_
      exact ih (operand + 1) hout

theorem concatenate_static : Rule.Static concatenate := by
  intro i h
  unfold concatenate
  split
  · exact .error
  · refine (h.operandDims 0).bind fun first hfirst => ?_
    refine .bind_any fun number => .bind_any fun axis => ?_
    refine (joinRest_static h axis 1 _ hfirst).bind fun out hout => ?_
    exact .ok (single_static hout)

/-! ## New shapes -/

theorem productFrom_static {ds : List Dim} (h : DimsStatic ds) (acc : Nat) :
    Ensures (· ≠ .dynamic) (productFrom acc ds) := by
  induction ds generalizing acc with
  | nil => exact .ok (by simp)
  | cons d ds ih =>
    rw [DimsStatic, List.forall_mem_cons] at h
    cases d with
    | dynamic => exact absurd rfl h.1
    | known n =>
      rw [productFrom]
      split
      · exact .error
      · exact ih h.2 _

/-- A slot holds a static dimension, or is still to be filled. -/
theorem layOut_static {ds : List Dim} (h : DimsStatic ds) (source : Nat) (vacant : Bool)
    (newshape : List Int) :
    Ensures (fun slots => ∀ d, some d ∈ slots → d ≠ .dynamic)
      (layOut ds source vacant newshape) := by
  induction newshape generalizing source vacant with
  | nil => exact .ok (by simp)
  | cons entry rest ih =>
    rw [layOut]
    split
    · refine (ih (source + 1) vacant).bind fun slots hslots => .ok fun d hd => ?_
      rcases List.mem_cons.1 hd with heq | hd
      · cases heq
        simp
      · exact hslots d hd
    split
    · split
      · exact .error
      · next copied hcopied =>
        refine (ih (source + 1) vacant).bind fun slots hslots => .ok fun d hd => ?_
        rcases List.mem_cons.1 hd with heq | hd
        · cases heq
          exact h _ (List.mem_of_getElem? hcopied)
        · exact hslots d hd
    split
    · split
      · refine (ih (source + 1) false).bind fun slots hslots => .ok fun d hd => ?_
        exact hslots d (by simpa using hd)
      · exact .error
    split
    · refine (ih ds.length vacant).bind fun slots hslots => .ok fun d hd => ?_
      rcases List.mem_append.1 hd with hd | hd
      · obtain ⟨copied, hcopied, heq⟩ := List.mem_map.1 hd
        cases heq
        exact h d (List.mem_of_mem_drop hcopied)
      · exact hslots d hd
    · exact .error

theorem reshapeDims_static {ds : List Dim} (h : DimsStatic ds) (newshape : List Int) :
    Ensures DimsStatic (reshapeDims ds newshape) := by
  unfold reshapeDims
  refine (layOut_static h 0 true newshape).bind fun slots hslots => .bind_any fun count => ?_
  split
  · split
    · exact .error
    · refine .bind_any fun known => ?_
      split
      · exact .error
      · -- the slot to infer gets a known extent
        refine .ok fun d hd => ?_
        obtain ⟨slot, hslot, rfl⟩ := List.mem_map.1 hd
        cases slot with
        | none => simp
        | some d => exact hslots d hslot
  · have hout : DimsStatic (slots.filterMap id) := by
      intro d hd
      exact hslots d (by simpa using hd)
    refine .bind_any fun after => ?_
    split
    · split
      · exact .ok hout
      · exact .error
    · exact .ok hout

theorem reshape_static : Rule.Static reshape := by
  intro i h
  unfold reshape
  refine (h.operandDims 0).bind fun ds hds => ?_
  exact .bind_any fun newshape => lift_single_static (reshapeDims_static hds newshape)

theorem flattenDims_static {ds : List Dim} (h : DimsStatic ds) :
    Ensures DimsStatic (flattenDims ds) := by
  cases ds with
  | nil => exact .error
  | cons batch rest =>
    rw [DimsStatic, List.forall_mem_cons] at h
    refine (productFrom_static h.2 1).bind fun flat hflat => .ok ?_
    simp [DimsStatic, h.1, hflat]

theorem batchFlatten_static : Rule.Static batchFlatten := by
  intro i h
  unfold batchFlatten
  refine (h.operandDims 0).bind fun ds hds => ?_
  exact lift_single_static (flattenDims_static hds)

/-! ## All rules -/

theorem static_of_mem_rules {rule : Rule} (h : rule ∈ rules) : rule.Static := by
  simp only [rules, List.mem_cons, List.not_mem_nil, or_false] at h
  rcases h with rfl | rfl | rfl | rfl | rfl | rfl | rfl | rfl | rfl | rfl | rfl | rfl | rfl | rfl |
    rfl | rfl | rfl
  · exact unary_static
  · exact binary_static
  · exact reduction_static
  · exact pool2d_static
  · exact globalPool2d_static
  · exact reshape_static
  · exact transpose_static
  · exact expand_static
  · exact squeeze_static
  · exact concatenate_static
  · exact batchFlatten_static
  · exact biasAdd_static
  · exact softmax_static
  · exact dense_static
  · exact batchMatmul_static
  · exact conv2d_static
  · exact cast_static

end Relay

end TensorIR
