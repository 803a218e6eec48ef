import TensorIR.Proofs.Fallible
import TensorIR.Registry

/-!
# Rules and registries

Rules that depend on nothing but operand types and attributes, or that pass over some attribute, and
what a registry that was filled from a list holds. A rule that reads operands and attributes through
its context reads inputs: each reading is one of the inputs, with the errors that the context
reports.
-/

namespace TensorIR

/-! ## Rules -/

/-- The rule depends on the types of operands and the attributes only, as far as it succeeds. -/
def ShapeRule.Pure (rule : ShapeRule) : Prop :=
  ∀ c c' : Context, c.inputs = c'.inputs → (rule c).toOption = (rule c').toOption

/-- All rules of the registry are pure. -/
def Registry.Pure (registry : Registry) : Prop :=
  ∀ name rule, registry.rule? name = some rule → rule.Pure

theorem ShapeRule.Pure.ok {rule : ShapeRule} (h : rule.Pure) {c c' : Context}
    (hinputs : c.inputs = c'.inputs) {cs : List Component} (hc : rule c = .ok cs) :
    rule c' = .ok cs :=
  Fallible.eq_ok_of_toOption_eq (h c c' hinputs) hc

theorem ShapeRule.ofInputs_eq_ok_iff {rule : Inputs → Except Fault (List Component)} {c : Context}
    {cs : List Component} : ofInputs rule c = .ok cs ↔ rule c.inputs = .ok cs :=
  Fallible.mapError_eq_ok_iff

/-- A rule that sees the inputs only fails with what its context reports of a fault. -/
theorem ShapeRule.ofInputs_eq_error_iff {rule : Inputs → Except Fault (List Component)}
    {c : Context} {e : Error} :
    ofInputs rule c = .error e ↔ ∃ fault, rule c.inputs = .error fault ∧ c.report fault = e := by
  unfold ofInputs Context.run
  cases rule c.inputs with
  | ok cs => simp [Except.mapError]
  | error fault => simp [Except.mapError]

/-- A rule that sees the inputs only is pure. -/
theorem ShapeRule.pure_ofInputs (rule : Inputs → Except Fault (List Component)) :
    (ofInputs rule).Pure := by
  intro c c' hinputs
  unfold ofInputs Context.run
  rw [hinputs]
  cases rule c'.inputs <;> rfl

/-! ## Readings -/

namespace Context

variable {α : Type} (c : Context) (read : Attr → Except Attr.Mismatch α) (key : String)

@[simp] theorem operandCount_inputs : c.inputs.operandCount = c.operandCount :=
  List.length_map ..

/-- An operand is read by its type alone. -/
@[simp] theorem mapError_operandTy (index : Nat) :
    (c.inputs.operandTy index).mapError c.report = c.operandTy index := by
  unfold Inputs.operandTy operandTy
  simp only [inputs, List.getElem?_map]
  cases hv : c.op.operands[index]? with
  | none => simp [Except.mapError, report, Inputs.operandCount, operandCount]
  | some v =>
    simp only [Option.map_some, Func.valueTy, Func.value, Func.valueTy?]
    cases c.func.value? v with
    | none => simp [Except.mapError, Except.map, report, hv]
    | some value => rfl

@[simp] theorem mapError_operandTensor (index : Nat) :
    (c.inputs.operandTensor index).mapError c.report = c.operandTensor index := by
  unfold Inputs.operandTensor operandTensor
  rw [← mapError_operandTy]
  cases c.inputs.operandTy index with
  | error e => rfl
  | ok ty =>
    simp only [Except.mapError]
    cases ty.tensor? <;> rfl

@[simp] theorem mapError_operandDims (index : Nat) :
    (c.inputs.operandDims index).mapError c.report = c.operandDims index := by
  unfold Inputs.operandDims operandDims
  rw [Fallible.mapError_map, mapError_operandTensor]

@[simp] theorem mapError_attr :
    (c.inputs.attr read key).mapError c.report = c.attr read key := by
  unfold Inputs.attr attr
  simp only [inputs, Operation.attribute?]
  cases c.op.attributes.get? key with
  | none => rfl
  | some a => exact Fallible.mapError_mapError ..

@[simp] theorem mapError_attrD (default : α) :
    (c.inputs.attrD read key default).mapError c.report = c.attrD read key default := by
  unfold Inputs.attrD attrD
  simp only [inputs, Operation.attribute?]
  cases c.op.attributes.get? key with
  | none => rfl
  | some a => exact Fallible.mapError_mapError ..

/-- To read an attribute if it is there is to ask first whether it is. -/
theorem mapError_attr?_bind {β : Type} (k : Option α → Except Error β) :
    ((c.inputs.attr? read key).mapError c.report >>= k) =
      if c.hasAttr key then c.attr read key >>= fun a => k (some a) else k none := by
  unfold Inputs.attr? hasAttr attr
  rw [mapError_attrD]
  unfold attrD
  cases c.op.attribute? key with
  | none => rfl
  | some a => cases hread : read a <;> simp [hread, Except.mapError, Except.map] <;> rfl

end Context

/-- The rule that copies the first operand sees the inputs only. -/
theorem ShapeRule.copyFirst_eq :
    copyFirst = ofInputs fun i => (i.operandDims 0).map fun dims => [⟨dims, none⟩] := by
  funext c
  unfold copyFirst ofInputs Context.run
  rw [Fallible.mapError_map, Context.mapError_operandDims]

/-! ## Registries -/

/-- What the operation carries under a key is nothing to the rule, as far as it succeeds. -/
def ShapeRule.Ignores (rule : ShapeRule) (key : String) : Prop :=
  ∀ op f a, (rule ⟨op.setAttribute key a, f⟩).toOption = (rule ⟨op, f⟩).toOption

/-- No rule of the registry reads the attribute. -/
def Registry.Ignores (registry : Registry) (key : String) : Prop :=
  ∀ name rule, registry.rule? name = some rule → rule.Ignores key

namespace Registry

theorem get?_register (r : Registry) (name name' : String) (operator : Operator) :
    (r.register name operator).get? name' = if name' = name then some operator else r.get? name' :=
  StringMap.get?_insert ..

/-- What is found under a name was registered under that name. -/
theorem mem_of_get?_foldl {operators : List Operator} {r : Registry} {name : String}
    {operator : Operator}
    (h : (operators.foldl (fun r o => r.register o.name o) r).get? name = some operator) :
    operator ∈ operators ∧ operator.name = name ∨ r.get? name = some operator := by
  induction operators generalizing r with
  | nil => exact .inr h
  | cons o operators ih =>
    rcases ih h with ⟨hmem, hname⟩ | hget
    · exact .inl ⟨.tail _ hmem, hname⟩
    · rw [get?_register] at hget
      split at hget
      · next hname =>
        cases hget
        exact .inl ⟨List.mem_cons_self, hname.symm⟩
      · exact .inr hget

theorem mem_of_get?_ofList {operators : List Operator} {name : String} {operator : Operator}
    (h : (ofList operators).get? name = some operator) :
    operator ∈ operators ∧ operator.name = name := by
  rcases mem_of_get?_foldl h with hmem | hnone
  · exact hmem
  · cases hnone

theorem get?_foldl_of_notMem {operators : List Operator} {r : Registry} {name : String}
    (h : name ∉ operators.map Operator.name) :
    (operators.foldl (fun r o => r.register o.name o) r).get? name = r.get? name := by
  induction operators generalizing r with
  | nil => rfl
  | cons o operators ih =>
    rw [List.map_cons, List.mem_cons, not_or] at h
    rw [List.foldl_cons, ih h.2, get?_register, if_neg h.1]

/-- Under different names, every operator is found. -/
theorem get?_ofList_of_mem {operators : List Operator}
    (hnodup : (operators.map Operator.name).Nodup) {operator : Operator}
    (h : operator ∈ operators) : (ofList operators).get? operator.name = some operator := by
  obtain ⟨pre, post, rfl⟩ := List.append_of_mem h
  have hlater : operator.name ∉ post.map Operator.name := by
    rw [List.map_append, List.map_cons] at hnodup
    exact (List.nodup_cons.1 (List.nodup_append.1 hnodup).2.1).1
  rw [ofList, List.foldl_append, List.foldl_cons, get?_foldl_of_notMem hlater, get?_register,
    if_pos rfl]

theorem pure_ofList {operators : List Operator}
    (h : ∀ o ∈ operators, ∀ rule, o.rule = some rule → rule.Pure) : (ofList operators).Pure := by
  intro name rule hrule
  obtain ⟨o, ho, hrule⟩ := Option.bind_eq_some_iff.1 hrule
  exact h o (mem_of_get?_ofList ho).1 rule hrule

end Registry

end TensorIR
