import TensorIR.Func.Edit

/-!
# Histories of functions

The edits that keep operand and result lists as they were pushed, as data. `Func.after` makes edits
one after the other, and an edit that fails leaves the function as it is. A function is *built* if
it arises from an empty one in this way; `Func.Built.induct` is the induction that every invariant
of functions goes by.
-/

namespace TensorIR

/-- One edit of a function. -/
inductive Edit where
  | addArgument (ty : Ty)
  | pushOp (op : Operation) (resultTys : List Ty)
  | eraseOp (id : OpId)
  | setValueTy (v : ValueId) (ty : Ty)
  | setSignature (signature : Signature)
  /-- Overwrite everything about an operation but its operands and results. -/
  | relabel (id : OpId) (name : OpName) (attributes : Attributes) (loc : Option String)
  deriving DecidableEq, Inhabited

namespace Func

/-- Make one edit. -/
def apply (f : Func) : Edit → Except Error Func
  | .addArgument ty => .ok (f.addArgument ty).2
  | .pushOp op resultTys => (f.pushOp op resultTys).map Prod.snd
  | .eraseOp id => f.eraseOp id
  | .setValueTy v ty => f.setValueTy v ty
  | .setSignature signature => .ok (f.setSignature signature)
  | .relabel id name attributes loc =>
    f.modifyOp id fun op => { op with name, attributes, loc }

/-- The function after an edit was tried. -/
def edit (f : Func) (e : Edit) : Func :=
  match f.apply e with
  | .ok g => g
  | .error _ => f

/-- The function after edits were tried in order. -/
def after (f : Func) (es : List Edit) : Func :=
  es.foldl edit f

@[simp] theorem after_nil (f : Func) : f.after [] = f := rfl

@[simp] theorem after_cons (f : Func) (e : Edit) (es : List Edit) :
    f.after (e :: es) = (f.edit e).after es := rfl

theorem after_append (f : Func) (es es' : List Edit) :
    f.after (es ++ es') = (f.after es).after es' := by
  unfold after
  exact List.foldl_append

/-- What holds of a function and is kept by every edit that succeeds holds after any edits. -/
theorem after_induct {P : Func → Prop} {f : Func} (h : P f)
    (step : ∀ f e g, P f → f.apply e = .ok g → P g) (es : List Edit) : P (f.after es) := by
  induction es generalizing f with
  | nil => exact h
  | cons e es ih =>
    rw [after_cons]
    apply ih
    unfold edit
    split
    case h_1 g hg => exact step f e g h hg
    case h_2 => exact h

/-- A function that arises from an empty one by edits. -/
def Built (f : Func) : Prop :=
  ∃ name es, f = (empty name).after es

theorem Built.induct {P : Func → Prop} (base : ∀ name, P (empty name))
    (step : ∀ f e g, P f → f.apply e = .ok g → P g) {f : Func} (h : f.Built) : P f := by
  obtain ⟨name, es, rfl⟩ := h
  exact after_induct (base name) step es

end Func

end TensorIR
