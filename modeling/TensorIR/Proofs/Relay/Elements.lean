import TensorIR.Proofs.Fallible
import TensorIR.Proofs.Relay.Operators

/-!
# Which rules set element kinds

A cast sets the element kind that its attribute denotes (`cast_eq_ok_iff`). Every other rule of the
dialect infers the dimensions of one result and says nothing about its elements
(`element_eq_none_of_rule?`).
-/

namespace TensorIR

open Fallible (Ensures)

/-! ## Element kinds and attributes -/

/-- A text is read as the kind of which it is one of the two texts. -/
theorem Element.parse?_eq_some_iff {s : String} {e : Element} :
    parse? s = some e ↔ s = e.text ∨ s = e.longName := by
  constructor
  · intro h
    simpa [parse?] using List.find?_some h
  · rintro (rfl | rfl)
    · exact parse?_text e
    · cases e <;> decide

/-- The element kind that an attribute denotes: the kind itself, or the one that has the text. -/
inductive Attr.Denotes : Attr → Element → Prop
  | element (e : Element) : Denotes (.element e) e
  | text {s : String} {e : Element} (h : s = e.text ∨ s = e.longName) : Denotes (.string s) e

theorem Attr.toElement_eq_ok_iff {a : Attr} {e : Element} : a.toElement = .ok e ↔ a.Denotes e := by
  constructor
  · intro h
    unfold toElement at h
    split at h
    · cases h
      exact .element e
    · next s =>
      split at h
      · next e' hparse =>
        cases h
        exact .text (Element.parse?_eq_some_iff.1 hparse)
      · cases h
    · cases h
  · rintro (_ | h)
    · rfl
    · rw [toElement, Element.parse?_eq_some_iff.2 h]

namespace Relay

/-! ## Rules that leave element kinds alone -/

/-- The rule infers dimensions for one result and nothing else, if it succeeds. -/
def Rule.ShapeOnly (rule : Rule) : Prop :=
  ∀ i : Inputs, Ensures (fun cs => ∃ dims, cs = single dims) (rule i)

/-- A rule that ends with a computation on dimensions. -/
theorem bind_single_shapeOnly {ε : Type} (x : Except ε (List Dim)) :
    Ensures (fun cs => ∃ dims, cs = single dims) (do return single (← x)) :=
  .bind_any fun dims => .ok ⟨dims, rfl⟩

theorem unary_shapeOnly : unary.ShapeOnly := by
  intro i
  unfold unary
  split
  · exact .error
  · exact bind_single_shapeOnly _

theorem binary_shapeOnly : binary.ShapeOnly := by
  intro i
  unfold binary
  split
  · exact .error
  · refine .bind_any fun left => .bind_any fun right => ?_
    exact bind_single_shapeOnly _

theorem biasAdd_shapeOnly : biasAdd.ShapeOnly := by
  intro i
  unfold biasAdd
  refine .bind_any fun data => .bind_any fun bias => ?_
  split
  · refine .bind_any fun number => .bind_any fun axis => ?_
    exact bind_single_shapeOnly _
  · exact .error

theorem softmax_shapeOnly : softmax.ShapeOnly := by
  intro i
  unfold softmax
  refine .bind_any fun dims => .bind_any fun axis => .bind_any fun _ => ?_
  exact .ok ⟨dims, rfl⟩

theorem reduction_shapeOnly : reduction.ShapeOnly := by
  intro i
  unfold reduction
  refine .bind_any fun dims => .bind_any fun keep => .bind_any fun exclude => ?_
  refine .bind_any fun axes => ?_
  cases axes with
  | none => exact .ok ⟨_, rfl⟩
  | some axes => exact .bind_any fun listed => .ok ⟨_, rfl⟩

theorem pool2d_shapeOnly : pool2d.ShapeOnly := by
  intro i
  unfold pool2d
  refine .bind_any fun data => ?_
  split
  · refine .bind_any fun sizes => .bind_any fun size => ?_
    refine .bind_any fun steps => .bind_any fun strides => ?_
    refine .bind_any fun sides => .bind_any fun pad => .bind_any fun ceil => ?_
    exact .bind_any fun height => .bind_any fun width => .ok ⟨_, rfl⟩
  · exact .error

theorem globalPool2d_shapeOnly : globalPool2d.ShapeOnly := by
  intro i
  unfold globalPool2d
  refine .bind_any fun data => ?_
  split
  · exact .ok ⟨_, rfl⟩
  · exact .error

theorem conv2d_shapeOnly : conv2d.ShapeOnly := by
  intro i
  unfold conv2d
  refine .bind_any fun data => .bind_any fun weight => ?_
  split
  · refine .bind_any fun number => .bind_any fun groups => .bind_any fun _ => ?_
    refine .bind_any fun channels => .bind_any fun _ => .bind_any fun kernel => ?_
    refine .bind_any fun size => .bind_any fun _ => ?_
    refine .bind_any fun steps => .bind_any fun strides => ?_
    refine .bind_any fun gaps => .bind_any fun dilation => ?_
    refine .bind_any fun sides => .bind_any fun pad => ?_
    exact .bind_any fun height => .bind_any fun width => .ok ⟨_, rfl⟩
  · exact .error

theorem dense_shapeOnly : dense.ShapeOnly := by
  intro i
  unfold dense
  refine .bind_any fun data => .bind_any fun weight => ?_
  split
  · exact .error
  · split
    · exact .error
    · exact .bind_any fun requested => .bind_any fun units => .ok ⟨_, rfl⟩
  · exact .error

theorem batchMatmul_shapeOnly : batchMatmul.ShapeOnly := by
  intro i
  unfold batchMatmul
  refine .bind_any fun left => .bind_any fun right => ?_
  split
  · split
    · exact .error
    · exact .bind_any fun batch => .ok ⟨_, rfl⟩
  · exact .error

theorem transpose_shapeOnly : transpose.ShapeOnly := by
  intro i
  refine .bind_any fun input => .bind_any fun axes => ?_
  exact bind_single_shapeOnly _

theorem expand_shapeOnly : expand.ShapeOnly := by
  intro i
  refine .bind_any fun input => .bind_any fun axis => ?_
  refine .bind_any fun position => .bind_any fun count => ?_
  exact bind_single_shapeOnly _

theorem squeeze_shapeOnly : squeeze.ShapeOnly := by
  intro i
  refine .bind_any fun input => .bind_any fun axes => ?_
  exact bind_single_shapeOnly _

theorem concatenate_shapeOnly : concatenate.ShapeOnly := by
  intro i
  unfold concatenate
  split
  · exact .error
  · refine .bind_any fun first => .bind_any fun number => .bind_any fun axis => ?_
    exact bind_single_shapeOnly _

theorem reshape_shapeOnly : reshape.ShapeOnly := by
  intro i
  refine .bind_any fun input => .bind_any fun newshape => ?_
  exact bind_single_shapeOnly _

theorem batchFlatten_shapeOnly : batchFlatten.ShapeOnly := by
  intro i
  refine .bind_any fun input => ?_
  exact bind_single_shapeOnly _

/-- The rule of an operator that is not the cast, if it has one, infers dimensions only. -/
theorem shapeOnly_of_mem_operators {o : Operator} (h : o ∈ operators)
    (hname : o.name ≠ "relay.cast") {r : ShapeRule} (hr : o.rule = some r) :
    ∃ rule : Rule, rule.ShapeOnly ∧ r = ShapeRule.ofInputs rule := by
  have hop : ∀ {base : String} {pattern : Pattern} {rule : ShapeRule} {rule' : Rule},
      rule = ShapeRule.ofInputs rule' → rule'.ShapeOnly →
      (operator base pattern rule).rule = some r →
      ∃ rule : Rule, rule.ShapeOnly ∧ r = ShapeRule.ofInputs rule := by
    intro base pattern rule rule' heq hrule hr
    cases hr
    exact ⟨rule', hrule, heq⟩
  simp only [operators, List.mem_cons, List.not_mem_nil, or_false] at h
  rcases h with rfl | rfl | rfl | rfl | rfl | rfl | rfl | rfl | rfl | rfl | rfl | rfl | rfl | rfl |
    rfl | rfl | rfl | rfl | rfl | rfl | rfl | rfl | rfl | rfl | rfl | rfl | rfl | rfl | rfl | rfl |
    rfl
  -- six operators work on one tensor, six on two, and three reduce
  iterate 6 exact hop InContext.unary_eq unary_shapeOnly hr
  iterate 6 exact hop InContext.binary_eq binary_shapeOnly hr
  iterate 3 exact hop InContext.reduction_eq reduction_shapeOnly hr
  iterate 2 exact hop InContext.pool2d_eq pool2d_shapeOnly hr
  · exact hop InContext.globalPool2d_eq globalPool2d_shapeOnly hr
  · exact hop InContext.reshape_eq reshape_shapeOnly hr
  · exact hop InContext.transpose_eq transpose_shapeOnly hr
  · exact hop InContext.expand_eq expand_shapeOnly hr
  · exact hop InContext.squeeze_eq squeeze_shapeOnly hr
  · exact hop InContext.concatenate_eq concatenate_shapeOnly hr
  · exact hop InContext.batchFlatten_eq batchFlatten_shapeOnly hr
  · exact hop InContext.biasAdd_eq biasAdd_shapeOnly hr
  · exact hop InContext.softmax_eq softmax_shapeOnly hr
  · exact hop InContext.dense_eq dense_shapeOnly hr
  · exact hop InContext.batchMatmul_eq batchMatmul_shapeOnly hr
  · exact hop InContext.conv2d_eq conv2d_shapeOnly hr
  · exact absurd rfl hname
  · cases hr

/-- A rule of the dialect that is not the cast's infers components without an element kind. -/
theorem element_eq_none_of_rule? {name : String} {rule : ShapeRule} {c : Context}
    {cs : List Component} (hrule : registry.rule? name = some rule) (hname : name ≠ "relay.cast")
    (hcs : rule c = .ok cs) : ∀ component ∈ cs, component.element = none := by
  obtain ⟨o, ho, hrule'⟩ := Option.bind_eq_some_iff.1 hrule
  obtain ⟨hmem, rfl⟩ := Registry.mem_of_get?_ofList ho
  obtain ⟨r, hr, rfl⟩ := shapeOnly_of_mem_operators hmem hname hrule'
  obtain ⟨dims, rfl⟩ := hr _ cs (ShapeRule.ofInputs_eq_ok_iff.1 hcs)
  simp [single]

/-! ## The cast -/

theorem rule?_cast : registry.rule? "relay.cast" = some (ShapeRule.ofInputs cast) :=
  rule?_of_mem (o := operator "cast" .elementwise (.ofInputs cast)) (by simp [operators])

/-- A cast sets the element kind that its attribute denotes, and keeps the dimensions. -/
theorem cast_eq_ok_iff {i : Inputs} {cs : List Component} :
    cast i = .ok cs ↔ ∃ dims a e, i.operandDims 0 = .ok dims ∧ i.attributes.get? "dtype" = some a ∧
      a.Denotes e ∧ cs = [⟨dims, some e⟩] := by
  have hattr : ∀ e, i.attr Attr.toElement "dtype" = .ok e ↔
      ∃ a, i.attributes.get? "dtype" = some a ∧ a.Denotes e := by
    intro e
    unfold Inputs.attr
    cases i.attributes.get? "dtype" with
    | none => simp
    | some a => simp [Fallible.mapError_eq_ok_iff, Attr.toElement_eq_ok_iff]
  unfold cast
  simp only [Fallible.bind_eq_ok_iff, hattr]
  constructor
  · rintro ⟨dims, hdims, e, ⟨a, ha, he⟩, hcs⟩
    cases hcs
    exact ⟨dims, a, e, hdims, ha, he, rfl⟩
  · rintro ⟨dims, a, e, hdims, ha, he, rfl⟩
    exact ⟨dims, hdims, e, ⟨a, ha, he⟩, rfl⟩

end Relay

end TensorIR
