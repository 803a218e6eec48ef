import TensorIR.Proofs.Func.WellFormed

/-!
# Edits made in place

A push and an erasure change a function in several steps: a node is added, values are made one by
one, uses are linked one by one, and so on. `InPlace.pushOp` and `InPlace.eraseOp` make these steps
on one function, where whatever was changed before a step that stops stays changed, and where
reading a value or linking an operation that is not there is a trap.

On a function that satisfies the invariant nothing of this can be seen from outside. All checks come
before the first change, and no step after them can trap, so an edit in place either ends like
`Func.pushOp` and `Func.eraseOp`, which make a new function at once, or it is refused and the
function is as it was before (`InPlace.pushOp_run`, `InPlace.eraseOp_run`).
-/

namespace TensorIR.Func.InPlace

/-- Why an edit stops before its end. -/
inductive Stop where
  | refused (e : Error)
  /-- Something is read, written or linked that is not there. -/
  | trap
  deriving Inhabited

/-- A step of an edit. What it has changed when it stops stays changed. -/
abbrev Step := EStateM Stop Func

/-! ## Steps -/

/-- Have the function answer a question about itself. -/
def ask {α : Type} (question : Func → Except Error α) : Step α := fun f =>
  match question f with
  | .ok a => .ok a f
  | .error e => .error (.refused e) f

/-- Append an operation under the next number. -/
def addNode (op : Operation) : Step OpId := fun f =>
  .ok f.body.nextId { f with body := f.body.push op }

/-- Make the next value. -/
def addValue (ty : Ty) (origin : Origin) : Step ValueId := fun f =>
  .ok f.values.size { f with values := f.values.push ⟨ty, origin⟩ }

/-- Fill in the results of an operation. -/
def fillResults (id : OpId) (results : List ValueId) : Step Unit := fun f =>
  if id ∈ f.opIds then
    .ok () { f with body := f.body.modify id fun op => { op with results } }
  else .error .trap f

/-- Record a use between two operations. -/
def link (use : Use) : Step Unit := fun f =>
  if use.producer ∈ f.opIds ∧ use.consumer ∈ f.opIds then .ok () { f with uses := f.uses ++ [use] }
  else .error .trap f

/-- Record the use of an operand by the operation `consumer`, if the operand is a result. -/
def linkOperand (consumer : OpId) (v : ValueId) : Step Unit := fun f =>
  if v < f.values.size then
    match f.useOf? consumer v with
    | some use => link use f
    | none => .ok () f
  else .error .trap f

/-- Take away an operation, and with it the uses that it has a part in. -/
def removeNode (id : OpId) : Step Unit := fun f =>
  .ok () { f with
    body := f.body.erase id
    uses := f.uses.filter fun use => use.producer != id && use.consumer != id }

def markErased (v : ValueId) : Step Unit := fun f =>
  if v < f.values.size then .ok () { f with values := forget f.values v } else .error .trap f

/-! ## Edits -/

/-- Append an operation: check the operands, add it without results, make its results, fill them in,
and link its operands. -/
def pushOp (op : Operation) (resultTys : List Ty) : Step OpId := do
  op.operands.forM fun v => ask fun f => f.checkOperand op.name v
  let id ← addNode { op with results := [] }
  let results ← resultTys.zipIdx.mapM fun entry => addValue entry.1 (.result id entry.2)
  fillResults id results
  op.operands.forM (linkOperand id)
  return id

/-- Erase an operation: check that nothing takes its results, remove it, and mark its results. -/
def eraseOp (id : OpId) : Step Unit := do
  let op ← ask fun f => f.op id
  op.results.forM fun v => ask fun f => f.checkUnused op.name v
  removeNode id
  op.results.forM markErased

/-- How an edit ends that is made at once, or not at all. -/
def atOnce {α : Type} (f : Func) : Except Error (α × Func) → EStateM.Result Stop Func α
  | .ok (a, g) => .ok a g
  | .error e => .error (.refused e) f

/-- The steps end with what the edit makes at once, or with its error and the function as it was. -/
structure Atomic {α : Type} (f : Func) (steps : Step α) (edit : Except Error (α × Func)) :
    Prop where
  ok_iff : ∀ a g, steps.run f = .ok a g ↔ edit = .ok (a, g)
  error_iff : ∀ stop g,
    steps.run f = .error stop g ↔ g = f ∧ ∃ e, stop = .refused e ∧ edit = .error e

/-! ## Runs -/

section

variable {α β : Type} {f g : Func} {x : Step α} {k : α → Step β} {a : α} {id : OpId}

theorem run_bind_of_ok (h : x.run f = .ok a g) : (x >>= k).run f = (k a).run g := by
  rw [EStateM.run_bind, h]

theorem run_bind_of_error {s : Stop} (h : x.run f = .error s g) :
    (x >>= k).run f = .error s g := by
  rw [EStateM.run_bind, h]

theorem atomic_of_run {edit : Except Error (α × Func)} (h : x.run f = atOnce f edit) :
    Atomic f x edit := by
  cases edit with
  | ok r => constructor <;> simp [h, atOnce, Prod.ext_iff]
  | error e =>
    constructor
    · simp [h, atOnce]
    · intro stop g
      simp only [h, atOnce, EStateM.Result.error.injEq, Except.error.injEq]
      constructor
      · rintro ⟨rfl, rfl⟩
        exact ⟨rfl, e, rfl, rfl⟩
      · rintro ⟨rfl, _, rfl, rfl⟩
        exact ⟨rfl, rfl⟩

theorem ask_run (question : Func → Except Error α) (f : Func) :
    (ask question).run f = atOnce f ((question f).map (·, f)) := by
  cases h : question f <;> simp [ask, EStateM.run, atOnce, Except.map, h]

/-- Questions one after the other are one question, and change nothing. -/
theorem forM_ask_run (check : ValueId → Func → Except Error Unit) (values : List ValueId)
    (f : Func) :
    (values.forM fun v => ask (check v)).run f =
      atOnce f ((values.forM fun v => check v f).map (·, f)) := by
  induction values with
  | nil => rfl
  | cons v values ih =>
    change (ask (check v) >>= fun _ => values.forM fun v => ask (check v)).run f =
      atOnce f ((check v f >>= fun _ => values.forM fun v => check v f).map (·, f))
    cases hv : check v f with
    | error e => exact run_bind_of_error (by rw [ask_run, hv]; rfl)
    | ok u =>
      rw [run_bind_of_ok (a := u) (g := f) (by rw [ask_run, hv]; rfl), ih]
      rfl

/-- Values made one after the other have consecutive numbers. -/
theorem mapM_addValue_run (id : OpId) (tys : List Ty) (f : Func) :
    (tys.zipIdx.mapM fun entry => addValue entry.1 (.result id entry.2)).run f =
      .ok ((List.range tys.length).map (f.values.size + ·))
        { f with
          values := f.values ++ (tys.mapIdx fun i ty => ⟨ty, .result id i⟩).toArray } := by
  have hentries : ∀ (entries : List (Ty × Nat)) (f : Func),
      (entries.mapM fun entry => addValue entry.1 (.result id entry.2)).run f =
        .ok ((List.range entries.length).map (f.values.size + ·))
          { f with
            values := f.values ++
              (entries.map fun entry => (⟨entry.1, .result id entry.2⟩ : Value)).toArray } := by
    intro entries
    induction entries with
    | nil => simp
    | cons entry entries ih =>
      intro f
      have hnew : (addValue entry.1 (.result id entry.2)).run f = .ok f.values.size
        { f with values := f.values.push ⟨entry.1, .result id entry.2⟩ } := rfl
      rw [List.mapM_cons, run_bind_of_ok hnew, run_bind_of_ok (ih _), EStateM.run_pure]
      simp [List.range_succ_eq_map, Function.comp_def, Nat.add_right_comm, Nat.add_assoc]
  rw [hentries, List.length_zipIdx, List.mapIdx_eq_zipIdx_map]

/-- No operand fails to be linked if it is there and what produces it is. -/
theorem forM_linkOperand_run {operands : List ValueId} (hid : id ∈ f.opIds)
    (hthere : ∀ v ∈ operands, v < f.values.size)
    (hproducer : ∀ v ∈ operands, ∀ use, f.useOf? id v = some use → use.producer ∈ f.opIds) :
    (operands.forM (linkOperand id)).run f =
      .ok () { f with uses := f.uses ++ operands.filterMap (f.useOf? id) } := by
  induction operands generalizing f with
  | nil => simp
  | cons v operands ih =>
    rw [List.forall_mem_cons] at hthere hproducer
    change (linkOperand id v >>= fun _ => operands.forM (linkOperand id)).run f = _
    cases huse : f.useOf? id v with
    | none =>
      have hskipped : (linkOperand id v).run f = .ok () f := by
        simp [linkOperand, EStateM.run, hthere.1, huse]
      rw [run_bind_of_ok hskipped, ih hid hthere.2 hproducer.2, List.filterMap_cons_none huse]
    | some use =>
      have hlinked : (linkOperand id v).run f = .ok () { f with uses := f.uses ++ [use] } := by
        obtain ⟨-, -, hconsumer, -⟩ := useOf?_eq_some_iff.1 huse
        simp [linkOperand, EStateM.run, hthere.1, huse, link, hproducer.1 use huse, hconsumer, hid]
      -- linking changes neither numbers nor origins
      have hrest := ih (f := { f with uses := f.uses ++ [use] }) hid hthere.2 hproducer.2
      rw [run_bind_of_ok hlinked, hrest, List.filterMap_cons_some huse]
      simp only [List.append_assoc, List.singleton_append]
      rfl

theorem forM_markErased_run {results : List ValueId}
    (hthere : ∀ v ∈ results, v < f.values.size) :
    (results.forM markErased).run f =
      .ok () { f with values := results.foldl forget f.values } := by
  induction results generalizing f with
  | nil => rfl
  | cons v results ih =>
    rw [List.forall_mem_cons] at hthere
    change (markErased v >>= fun _ => results.forM markErased).run f = _
    have hmarked : (markErased v).run f = .ok () { f with values := forget f.values v } := by
      simp [markErased, EStateM.run, hthere.1]
    rw [run_bind_of_ok hmarked, ih (by simpa [forget] using hthere.2)]
    rfl

/-- To fill in the results of an operation just appended comes to appending it with them. -/
theorem fillResults_run {op : Operation} {results : List ValueId}
    (hbody : g.body = f.body.push { op with results := [] }) :
    (fillResults f.body.nextId results).run g =
      .ok () { g with body := f.body.push { op with results } } := by
  have hold : f.body.nodes.map (fun node =>
      (⟨node.id, if node.id = f.body.nextId then { node.op with results } else node.op⟩ : Node)) =
        f.body.nodes := by
    refine (List.map_congr_left fun node hnode => ?_).trans (List.map_id _)
    have hne : node.id ≠ f.body.nextId := fun heq =>
      f.body.nextId_notMem_ids (heq ▸ List.mem_map_of_mem hnode)
    rw [if_neg hne, id]
  have hfilled : g.body.modify f.body.nextId (fun op => { op with results }) =
      f.body.push { op with results } := by
    simp [hbody, Body.push, Body.modify, Body.mapOps, hold]
  have hthere : f.body.nextId ∈ g.opIds := by
    simp [opIds, hbody, Body.ids]
  rw [EStateM.run, fillResults, if_pos hthere, hfilled]

/-- The operands of an operation that was just appended can be linked if they were alive before. -/
theorem linkOperands_run (hf : f.Invariant) {operands : List ValueId}
    (hlive : ∀ v ∈ operands, ∃ o, f.origin? v = some o ∧ o ≠ .erased)
    (hids : g.opIds = f.opIds ++ [id])
    (horigin : ∀ v o, f.origin? v = some o → g.origin? v = some o) :
    (operands.forM (linkOperand id)).run g =
      .ok () { g with uses := g.uses ++ operands.filterMap (f.useOf? id) } := by
  have huses : ∀ v ∈ operands, g.useOf? id v = f.useOf? id v := by
    intro v hv
    obtain ⟨o, ho, -⟩ := hlive v hv
    rw [useOf?_eq, useOf?_eq, ho, horigin v o ho]
  rw [forM_linkOperand_run (by simp [hids]), List.filterMap_congr huses]
  · intro v hv
    obtain ⟨o, ho, -⟩ := hlive v hv
    exact lt_size_of_origin? (horigin v o ho)
  · intro v hv use huse
    rw [huses v hv] at huse
    obtain ⟨k, hk, -⟩ := useOf?_eq_some_iff.1 huse
    rw [hids]
    exact List.mem_append_left _ (hf.producer_mem_opIds hk)

/-- **A push in place ends like a push at once.** -/
theorem pushOp_run (hf : f.Invariant) (op : Operation) (tys : List Ty) :
    (pushOp op tys).run f = atOnce f (f.pushOp op tys) := by
  unfold pushOp
  cases hcheck : op.operands.forM (f.checkOperand op.name) with
  | error e =>
    have hpush : f.pushOp op tys = .error e := by
      unfold Func.pushOp
      rw [hcheck]
    rw [hpush]
    exact run_bind_of_error (by rw [forM_ask_run, hcheck]; rfl)
  | ok u =>
    have hlive : ∀ v ∈ op.operands, ∃ o, f.origin? v = some o ∧ o ≠ .erased :=
      fun v hv => checkOperand_eq_ok_iff.1 (Fallible.forM_eq_ok_iff.1 hcheck v hv)
    have hchecked : (op.operands.forM fun v => ask fun f => f.checkOperand op.name v).run f =
        .ok u f := by
      rw [forM_ask_run, hcheck]
      rfl
    -- the function with the operation, with its results, and with these filled in
    let added : Func := { f with body := f.body.push { op with results := [] } }
    let results := (List.range tys.length).map (f.values.size + ·)
    let valued : Func := { added with
      values := f.values ++ (tys.mapIdx fun i ty => ⟨ty, .result f.body.nextId i⟩).toArray }
    let filled : Func := { valued with body := f.body.push { op with results } }
    have hadded : (addNode { op with results := [] }).run f = .ok f.body.nextId added := rfl
    have hvalued : (tys.zipIdx.mapM fun entry =>
        addValue entry.1 (.result f.body.nextId entry.2)).run added = .ok results valued :=
      mapM_addValue_run f.body.nextId tys added
    have hfilled : (fillResults f.body.nextId results).run valued = .ok () filled :=
      fillResults_run rfl
    have hlinked : (op.operands.forM (linkOperand f.body.nextId)).run filled = .ok ()
        { filled with uses := f.uses ++ op.operands.filterMap (f.useOf? f.body.nextId) } := by
      refine linkOperands_run hf hlive ?_ ?_
      · simp [opIds, Body.ids, filled]
      · intro v o ho
        rw [← ho]
        unfold origin? value?
        rw [Array.getElem?_append_left (lt_size_of_origin? ho)]
    rw [run_bind_of_ok hchecked, run_bind_of_ok hadded, run_bind_of_ok hvalued,
      run_bind_of_ok hfilled, run_bind_of_ok hlinked, EStateM.run_pure,
      pushOp_eq_ok_iff.2 ⟨hlive, rfl, rfl⟩]
    rfl

/-- **An erasure in place ends like an erasure at once.** -/
theorem eraseOp_run (hf : f.Invariant) (id : OpId) :
    (eraseOp id).run f = atOnce f ((f.eraseOp id).map ((), ·)) := by
  unfold eraseOp Func.eraseOp
  cases hop : f.op? id with
  | none =>
    have hmissing : f.op id = .error (.operationNotFound id f.name) := by rw [Func.op, hop]
    rw [hmissing]
    exact run_bind_of_error (by rw [ask_run, hmissing]; rfl)
  | some op =>
    have hfound : f.op id = .ok op := by rw [Func.op, hop]
    have hasked : (ask fun f => f.op id).run f = .ok op f := by
      rw [ask_run, hfound]
      rfl
    rw [run_bind_of_ok hasked, hfound]
    cases hcheck : op.results.forM (f.checkUnused op.name) with
    | error e =>
      simp only [hcheck]
      exact run_bind_of_error (by rw [forM_ask_run, hcheck]; rfl)
    | ok u =>
      have hchecked : (op.results.forM fun v => ask fun f => f.checkUnused op.name v).run f =
          .ok u f := by
        rw [forM_ask_run, hcheck]
        rfl
      let removed : Func := { f with
        body := f.body.erase id
        uses := f.uses.filter fun use => use.producer != id && use.consumer != id }
      have hremoved : (removeNode id).run f = .ok () removed := rfl
      have hmarked : (op.results.forM markErased).run removed =
          .ok () { removed with values := op.results.foldl forget f.values } :=
        forM_markErased_run fun v hv => hf.result_lt (Body.op?_eq_some_iff.1 hop) hv
      rw [run_bind_of_ok hchecked, run_bind_of_ok hremoved, hmarked]
      simp only [hcheck]
      rfl

end

end TensorIR.Func.InPlace
