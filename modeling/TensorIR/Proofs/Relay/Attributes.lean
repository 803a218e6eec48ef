import TensorIR.Proofs.Relay.Operators

/-!
# Attributes that the rules read

A rule reads attributes under a few fixed keys (`keys`). What an operation carries under any other
key is nothing to it (`registry_ignores`), so a pass may leave notes there.
-/

namespace TensorIR

namespace Inputs

/-- The same inputs with one attribute more, or with another value for it. -/
def setAttr (i : Inputs) (key : String) (a : Attr) : Inputs :=
  { i with attributes := i.attributes.insert key a }

variable {α : Type} (i : Inputs) {key key' : String} (a : Attr)

@[simp] theorem operandCount_setAttr : (i.setAttr key a).operandCount = i.operandCount := rfl

@[simp] theorem operandTy_setAttr (k : Nat) : (i.setAttr key a).operandTy k = i.operandTy k := rfl

@[simp] theorem operandDims_setAttr (k : Nat) :
    (i.setAttr key a).operandDims k = i.operandDims k := rfl

theorem attr_setAttr (h : ¬key = key') (read : Attr → Except Attr.Mismatch α) :
    (i.setAttr key a).attr read key' = i.attr read key' := by
  simp [attr, setAttr, Ne.symm h]

theorem attrD_setAttr (h : ¬key = key') (read : Attr → Except Attr.Mismatch α) (default : α) :
    (i.setAttr key a).attrD read key' default = i.attrD read key' default := by
  simp [attrD, setAttr, Ne.symm h]

theorem attr?_setAttr (h : ¬key = key') (read : Attr → Except Attr.Mismatch α) :
    (i.setAttr key a).attr? read key' = i.attr? read key' :=
  attrD_setAttr i a h _ none

end Inputs

namespace Relay

/-- The attributes that rules of the dialect read. -/
def keys : List String :=
  ["axes", "axis", "ceil_mode", "channels", "dilation", "dtype", "exclude", "groups", "keepdims",
    "kernel_size", "newshape", "num_newaxis", "padding", "pool_size", "strides", "units"]

theorem joinRest_setAttr (i : Inputs) (key : String) (a : Attr) (axis operand count : Nat)
    (joined : List Dim) :
    joinRest (i.setAttr key a) axis joined operand count =
      joinRest i axis joined operand count := by
  induction count generalizing operand joined with
  | zero => rfl
  | succ count ih => simp only [joinRest, Inputs.operandDims_setAttr, ih]

/-- A rule does not look at attributes under other keys. -/
theorem setAttr_of_mem_rules {rule : Rule} (h : rule ∈ rules) {key : String} (hkey : key ∉ keys)
    (i : Inputs) (a : Attr) : rule (i.setAttr key a) = rule i := by
  simp only [keys, List.mem_cons, List.not_mem_nil, or_false, not_or] at hkey
  simp only [rules, List.mem_cons, List.not_mem_nil, or_false] at h
  rcases h with rfl | rfl | rfl | rfl | rfl | rfl | rfl | rfl | rfl | rfl | rfl | rfl | rfl | rfl |
    rfl | rfl | rfl
  · rfl
  · rfl
  · simp [reduction, Inputs.attrD_setAttr, Inputs.attr?_setAttr, hkey]
  · simp [pool2d, Inputs.attr_setAttr, Inputs.attrD_setAttr, hkey]
  · rfl
  · simp [reshape, Inputs.attr_setAttr, hkey]
  · simp [transpose, Inputs.attr?_setAttr, hkey]
  · simp [expand, Inputs.attr_setAttr, Inputs.attrD_setAttr, hkey]
  · simp [squeeze, Inputs.attr?_setAttr, hkey]
  · simp [concatenate, Inputs.attrD_setAttr, joinRest_setAttr, hkey]
  · rfl
  · simp [biasAdd, Inputs.attrD_setAttr, hkey]
  · simp [softmax, Inputs.attrD_setAttr, hkey]
  · simp [dense, Inputs.attr?_setAttr, hkey]
  · rfl
  · simp [conv2d, Inputs.attrD_setAttr, Inputs.attr?_setAttr, hkey]
  · simp [cast, Inputs.attr_setAttr, hkey]

theorem registry_ignores {key : String} (hkey : key ∉ keys) : registry.Ignores key := by
  intro name rule h op f a
  obtain ⟨r, hr, rfl⟩ := mem_rules_of_rule? h
  have hsame : r (⟨op.setAttribute key a, f⟩ : Context).inputs = r (⟨op, f⟩ : Context).inputs :=
    setAttr_of_mem_rules hr hkey (⟨op, f⟩ : Context).inputs a
  unfold ShapeRule.ofInputs Context.run
  rw [hsame]
  cases r (⟨op, f⟩ : Context).inputs <;> rfl

end Relay

end TensorIR
