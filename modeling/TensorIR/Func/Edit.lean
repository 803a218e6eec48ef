import TensorIR.Func.Basic

/-!
# Edits

Every way to change a function. An edit that fails returns no function, so a function is never left
half changed.
-/

namespace TensorIR.Func

/-- Append an argument and its declared type. -/
def addArgument (f : Func) (ty : Ty) : ValueId × Func :=
  (f.values.size,
    { f with
      arguments := f.arguments ++ [f.values.size]
      signature := { f.signature with inputs := f.signature.inputs ++ [ty] }
      values := f.values.push ⟨ty, .argument f.arguments.length⟩ })

/-- An operand of a new operation must be there and must not belong to an erased operation. -/
def checkOperand (f : Func) (operator : OpName) (v : ValueId) : Except Error Unit :=
  match f.value? v with
  | none => .error (.operandUndefined operator.text f.name v)
  | some ⟨_, .erased⟩ => .error (.operandErased operator.text f.name v)
  | some _ => .ok ()

/-- The use of an operand by the operation `consumer`, if the operand is a result. -/
def useOf? (f : Func) (consumer : OpId) (v : ValueId) : Option Use :=
  match f.value? v with
  | some ⟨_, .result op _⟩ => some ⟨op, consumer, v⟩
  | _ => none

/-- Append an operation with one new result for each type. The results named in `op` are
disregarded. -/
def pushOp (f : Func) (op : Operation) (resultTys : List Ty) : Except Error (OpId × Func) :=
  match op.operands.forM (f.checkOperand op.name) with
  | .error e => .error e
  | .ok () =>
    let id := f.body.nextId
    let results := (List.range resultTys.length).map (f.values.size + ·)
    .ok (id,
      { f with
        values := f.values ++ (resultTys.mapIdx fun i ty => ⟨ty, .result id i⟩).toArray
        body := f.body.push { op with results }
        uses := f.uses ++ op.operands.filterMap (f.useOf? id) })

/-- Append a return of the given values. -/
def pushReturn (f : Func) (values : List ValueId) : Except Error (OpId × Func) :=
  f.pushOp { name := OpName.terminator, operands := values } []

/-- A result of an operation that is to be erased must have no consumers. -/
def checkUnused (f : Func) (operator : OpName) (v : ValueId) : Except Error Unit :=
  match f.consumers v with
  | .error e => .error e
  | .ok [] => .ok ()
  | .ok _ => .error (.resultInUse operator.text v)

/-- Forget where a value comes from. -/
def forget (values : Array Value) (v : ValueId) : Array Value :=
  values.modify v fun value => { value with origin := .erased }

/-- Take away an operation whose results have no consumers. Its results stay, as erased values. -/
def eraseOp (f : Func) (id : OpId) : Except Error Func :=
  match f.op id with
  | .error e => .error e
  | .ok op =>
    match op.results.forM (f.checkUnused op.name) with
    | .error e => .error e
    | .ok () =>
      .ok
        { f with
          values := op.results.foldl forget f.values
          body := f.body.erase id
          uses := f.uses.filter fun use => use.producer != id && use.consumer != id }

/-- Overwrite the type of a value. -/
def setValueTy (f : Func) (v : ValueId) (ty : Ty) : Except Error Func :=
  match f.value? v with
  | none => .error (.valueNotFound v f.name)
  | some _ => .ok { f with values := f.values.modify v fun value => { value with ty } }

def setSignature (f : Func) (signature : Signature) : Func :=
  { f with signature }

/-- Change an operation in place. Recorded uses and origins of values stay as they are, even if
operands or results change. -/
def modifyOp (f : Func) (id : OpId) (change : Operation → Operation) : Except Error Func :=
  match f.op id with
  | .error e => .error e
  | .ok _ => .ok { f with body := f.body.modify id change }

def setOperands (f : Func) (id : OpId) (operands : List ValueId) : Except Error Func :=
  f.modifyOp id fun op => { op with operands }

def setResults (f : Func) (id : OpId) (results : List ValueId) : Except Error Func :=
  f.modifyOp id fun op => { op with results }

def setAttribute (f : Func) (id : OpId) (key : String) (value : Attr) : Except Error Func :=
  f.modifyOp id fun op => op.setAttribute key value

def setName (f : Func) (id : OpId) (name : OpName) : Except Error Func :=
  f.modifyOp id fun op => { op with name }

def setLoc (f : Func) (id : OpId) (loc : Option String) : Except Error Func :=
  f.modifyOp id fun op => { op with loc }

end TensorIR.Func
