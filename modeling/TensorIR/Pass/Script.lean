import TensorIR.Pass.Basic

/-!
# Scripted passes

A script is a list of edits, each for one function or for all. A scripted pass makes the edits in
order and has changed a function if any edit was meant for it.
-/

namespace TensorIR

/-- One edit of a script. -/
inductive Action where
  /-- Leave the function as it is, but call it changed. -/
  | touch
  | fail (e : Error)
  /-- Append a return of nothing. -/
  | pushReturn
  | setTy (value : ValueId) (ty : Ty)
  | erase (op : OpId)
  deriving DecidableEq, Repr, Inhabited

def Action.apply (f : Func) : Action → Except Error Func
  | .touch => .ok f
  | .fail e => .error e
  | .pushReturn => (f.pushReturn []).map Prod.snd
  | .setTy v ty => f.setValueTy v ty
  | .erase id => f.eraseOp id

/-- An edit with the name of the function it is meant for, all functions if there is none. -/
structure Step where
  action : Action
  target : Option String := none
  deriving DecidableEq, Repr, Inhabited

def Step.appliesTo (s : Step) (f : Func) : Bool :=
  s.target.all (· == f.name)

namespace Script

/-- Make the edits in order, up to the first failure. -/
def run : List Step → Func → Outcome Func
  | [], f => ⟨f, .ok false⟩
  | s :: rest, f =>
    if s.appliesTo f then
      match s.action.apply f with
      | .error e => ⟨f, .error e⟩
      | .ok g =>
        let others := run rest g
        ⟨others.state, others.result.map fun _ => true⟩
    else run rest f

def pass (name : String) (stage : Stage) (scope : Scope) (steps : List Step) : Pass where
  name
  stage
  scope
  traced := true
  run _ f := run steps f

end Script

end TensorIR
