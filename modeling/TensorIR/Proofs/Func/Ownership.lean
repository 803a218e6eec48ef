import TensorIR.Proofs.Func.Checking
import TensorIR.Proofs.Func.Naming

/-!
# Checked functions and the owners of their values

Who owns a value is written down twice: the value knows which operation it comes from, and the
operation lists its results. Edits keep the two in step, but the operands and results of an
operation can also be overwritten, by any values whatever (`Mutation`).

The check of a function asks the values only. So in a function that passes it every operand is an
argument or comes from an earlier operation, as far as the value knows; that the operation lists it,
and that no value is listed twice, holds if lists and records agree, and they do as long as no
result list has been overwritten (`owned_of_verify`). Otherwise a function can pass the check with
an operand that nothing defines (`unowned_verified`).
-/

namespace TensorIR

/-- One change of a function: an edit, or other operands or results for an operation. -/
inductive Mutation where
  | edit (e : Edit)
  | setOperands (id : OpId) (operands : List ValueId)
  | setResults (id : OpId) (results : List ValueId)
  deriving DecidableEq, Inhabited

namespace Func

/-- Make one change. -/
def mutate (f : Func) : Mutation → Except Error Func
  | .edit e => f.apply e
  | .setOperands id operands => f.setOperands id operands
  | .setResults id results => f.setResults id results

/-- The function after a change was tried. -/
def mutated (f : Func) (m : Mutation) : Func :=
  match f.mutate m with
  | .ok g => g
  | .error _ => f

/-- The function after changes were tried in order. -/
def afterAll (f : Func) (ms : List Mutation) : Func :=
  ms.foldl mutated f

variable {f g : Func} {v : ValueId} {id : OpId}

/-- What holds of a function and is kept by every change of the list that succeeds holds after the
changes. -/
theorem afterAll_induct {P : Func → Prop} {ms : List Mutation} (h : P f)
    (step : ∀ f, ∀ m ∈ ms, ∀ g, P f → f.mutate m = .ok g → P g) : P (f.afterAll ms) := by
  induction ms generalizing f with
  | nil => exact h
  | cons m ms ih =>
    refine ih (f := f.mutated m) ?_ fun f m' hm' => step f m' (.tail _ hm')
    unfold mutated
    split
    · next g hg => exact step f m List.mem_cons_self g h hg
    · exact h

/-! ## Arguments -/

/-- A value that is recorded as an argument is one, at its place. -/
def ArgumentsRecorded (f : Func) : Prop :=
  ∀ v n, f.origin? v = some (.argument n) → f.arguments[n]? = some v

namespace ArgumentsRecorded

theorem empty (name : String) : (Func.empty name).ArgumentsRecorded := by
  intro v n ho
  simp [origin?, value?, Func.empty] at ho

/-- Changes that leave the arguments alone and record no other value as one. -/
theorem of_origin? (h : f.ArgumentsRecorded) (harguments : g.arguments = f.arguments)
    (horigin : ∀ v n, g.origin? v = some (.argument n) → f.origin? v = some (.argument n)) :
    g.ArgumentsRecorded := by
  intro v n ho
  rw [harguments]
  exact h v n (horigin v n ho)

theorem apply (h : f.ArgumentsRecorded) {e : Edit} (hg : f.apply e = .ok g) :
    g.ArgumentsRecorded := by
  cases e with
  | addArgument ty =>
    cases hg
    intro v n ho
    change (f.arguments ++ [f.values.size])[n]? = some v
    rw [origin?_addArgument] at ho
    split at ho
    · next hv =>
      cases ho
      simp [hv]
    · have hn := h v n ho
      rw [List.getElem?_append_left (List.getElem?_eq_some_iff.1 hn).1, hn]
  | pushOp op tys =>
    obtain ⟨⟨id, g'⟩, hpush, rfl⟩ := Fallible.map_eq_ok_iff.1 hg
    refine h.of_origin? (arguments_pushOp hpush) fun v n ho => ?_
    rw [origin?_pushOp hpush] at ho
    split at ho
    · exact ho
    · split at ho <;> cases ho
  | eraseOp id =>
    obtain ⟨op, hop, -⟩ := eraseOp_eq_ok_iff.1 hg
    refine h.of_origin? (arguments_eraseOp hg) fun v n ho => ?_
    rw [origin?_eraseOp hg hop] at ho
    obtain ⟨o, ho', heq⟩ := Option.map_eq_some_iff.1 ho
    split at heq
    · cases heq
    · rw [ho', heq]
  | setValueTy v' ty =>
    cases eq_of_setValueTy hg
    refine h.of_origin? rfl fun v n ho => ?_
    rwa [origin?_modify_ty] at ho
  | setSignature signature =>
    cases hg
    exact h
  | relabel id name attributes loc =>
    cases eq_of_modifyOp hg
    exact h

theorem mutate (h : f.ArgumentsRecorded) {m : Mutation} (hg : f.mutate m = .ok g) :
    g.ArgumentsRecorded := by
  cases m with
  | edit e => exact h.apply hg
  | setOperands id operands =>
    cases eq_of_modifyOp hg
    exact h
  | setResults id results =>
    cases eq_of_modifyOp hg
    exact h

end ArgumentsRecorded

/-! ## Results -/

namespace ResultsRecorded

/-- Changes that leave origins and result lists alone. -/
theorem of_owners (h : f.ResultsRecorded) (horigin : ∀ v, g.origin? v = f.origin? v)
    (howners : g.body.nodes.map (fun node => (node.id, node.op.results)) =
      f.body.nodes.map fun node => (node.id, node.op.results)) : g.ResultsRecorded := by
  have howner : ∀ (f : Func) (v : ValueId) (id : OpId) (k : Nat),
      (∃ w ∈ f.wirings, w.id = id ∧ w.results[k]? = some v) ↔
        ∃ o ∈ f.body.nodes.map (fun node => (node.id, node.op.results)),
          o.1 = id ∧ o.2[k]? = some v := by
    simp [wirings, Node.wiring]
  intro v id k
  rw [horigin, h v, howner, howner, howners]

theorem modifyOp (h : f.ResultsRecorded) {change : Operation → Operation}
    (hchange : ∀ op, (change op).results = op.results) (hg : f.modifyOp id change = .ok g) :
    g.ResultsRecorded := by
  cases eq_of_modifyOp hg
  refine h.of_owners (fun _ => rfl) ?_
  simp only [Body.modify, Body.nodes_mapOps, List.map_map]
  refine List.map_congr_left fun node _ => ?_
  simp only [Function.comp_apply]
  split
  · rw [hchange]
  · rfl

theorem apply (h : f.ResultsRecorded) {e : Edit} (hg : f.apply e = .ok g) :
    g.ResultsRecorded := by
  cases e with
  | addArgument ty =>
    cases hg
    exact h.addArgument ty
  | pushOp op tys =>
    obtain ⟨⟨id, g'⟩, hpush, rfl⟩ := Fallible.map_eq_ok_iff.1 hg
    exact h.pushOp hpush
  | eraseOp id => exact h.eraseOp hg
  | setValueTy v ty =>
    cases eq_of_setValueTy hg
    exact h.of_owners (f.origin?_modify_ty v · ty) rfl
  | setSignature signature =>
    cases hg
    exact h
  | relabel id name attributes loc =>
    refine h.modifyOp ?_ hg
    exact fun _ => rfl

theorem mutate (h : f.ResultsRecorded) {m : Mutation}
    (hm : ∀ id results, m ≠ .setResults id results) (hg : f.mutate m = .ok g) :
    g.ResultsRecorded := by
  cases m with
  | edit e => exact h.apply hg
  | setOperands id operands =>
    refine h.modifyOp ?_ hg
    exact fun _ => rfl
  | setResults id results => exact absurd rfl (hm id results)

end ResultsRecorded

/-! ## What the check asks -/

/-- An operand passes the check if it is recorded as an argument or as a result of an operation in
front. -/
theorem verifyOperand_eq_ok_iff {position : Nat} {op : Operation} :
    f.verifyOperand position op v = .ok () ↔
      (∃ n, f.origin? v = some (.argument n)) ∨
        ∃ p k, f.origin? v = some (.result p k) ∧
          (f.body.position? p).any (· < position) = true := by
  unfold verifyOperand origin?
  cases f.value? v with
  | none => simp
  | some value =>
    obtain ⟨ty, origin⟩ := value
    cases origin <;> simp

theorem verifyOperand_of_verify (h : f.verify = .ok ()) {position : Nat} {node : Node}
    (hnode : f.body.nodes[position]? = some node) (hv : v ∈ node.op.operands) :
    f.verifyOperand position node.op v = .ok () := by
  obtain ⟨_, hnodes, -⟩ := Fallible.bind_eq_ok_iff.1 h
  have hchecked : f.verifyNode position node = .ok () :=
    Fallible.forM_eq_ok_iff.1 hnodes (node, position) (List.mem_zipIdx_iff_getElem?.2 hnode)
  obtain ⟨_, hoperands, -⟩ := Fallible.bind_eq_ok_iff.1 hchecked
  exact Fallible.forM_eq_ok_iff.1 hoperands v hv

/-- In a function that passes the check, an operand is recorded as an argument or as a result of an
operation in front. -/
theorem recorded_of_verify (h : f.verify = .ok ()) {pre post : List Node} {node : Node}
    (hs : f.body.nodes = pre ++ node :: post) (hv : v ∈ node.op.operands) :
    (∃ n, f.origin? v = some (.argument n)) ∨
      ∃ p ∈ pre, ∃ k, f.origin? v = some (.result p.id k) := by
  have hnode : f.body.nodes[pre.length]? = some node := by simp [hs]
  refine (verifyOperand_eq_ok_iff.1 (verifyOperand_of_verify h hnode hv)).imp_right ?_
  rintro ⟨id, k, ho, hbefore⟩
  obtain ⟨i, hi, hlt⟩ := (Option.any_eq_true _ _).1 hbefore
  obtain ⟨hlen, hid, -⟩ := List.idxOf?_eq_some_iff.1 hi
  have hi' : i < pre.length := of_decide_eq_true hlt
  refine ⟨pre[i], List.getElem_mem hi', k, ?_⟩
  have hpre : pre[i].id = id := by
    simp only [← hid, Body.ids, hs, List.getElem_map, List.getElem_append_left hi']
  rw [hpre, ho]

/-! ## Owners -/

/-- Every operand is an argument, printed as such, or a result that an operation in front lists,
printed by its place among all results; and no value is listed twice. -/
structure Owned (f : Func) : Prop where
  operand_owned : ∀ pre node post, f.body.nodes = pre ++ node :: post → ∀ v ∈ node.op.operands,
    (∃ n : Nat, f.arguments[n]? = some v ∧ f.valueName v = "%arg" ++ toString n) ∨
      ∃ p ∈ pre, v ∈ p.op.results ∧
        ∃ k : Nat, f.results[k]? = some v ∧ f.valueName v = "%" ++ toString (resultNumber k)
  nodup_results : f.results.Nodup

theorem ResultsRecorded.owned (hf : f.ResultsRecorded) (hargs : f.ArgumentsRecorded)
    (h : f.verify = .ok ()) : f.Owned := by
  refine ⟨fun pre node post hs v hv => ?_, hf.nodup_results⟩
  rcases recorded_of_verify h hs hv with ⟨n, ho⟩ | ⟨p, hp, k, ho⟩
  · have hn := hargs v n ho
    exact .inl ⟨n, hn, hf.valueName_argument hn ho⟩
  · have hmem : p ∈ f.body.nodes := by simp [hs, hp]
    have hlisted : v ∈ p.op.results := (hf.mem_results_iff (wiring_mem hmem)).2 ⟨k, ho⟩
    have hres : v ∈ f.results := mem_results_iff_exists.2 ⟨p, hmem, hlisted⟩
    obtain ⟨i, hi⟩ := List.mem_iff_getElem?.1 hres
    exact .inr ⟨p, hp, hlisted, i, hi, hf.valueName_result hi⟩

/-- **What a passed check says about owners.** Take any function that arises by edits and by
overwriting operands and results with whatever values, and let it pass the check. Then every operand
is an argument or is recorded as a result of an earlier operation. If, besides, values are recorded
as results where operations list them, every operand is owned and has a printed name that stands for
it further up, and no value is listed twice; and that is so unless result lists have been
overwritten. -/
theorem owned_of_verify (name : String) (ms : List Mutation)
    (h : ((empty name).afterAll ms).verify = .ok ()) :
    let f := (empty name).afterAll ms
    (∀ pre node post, f.body.nodes = pre ++ node :: post → ∀ v ∈ node.op.operands,
      v ∈ f.arguments ∨ ∃ p ∈ pre, ∃ k, f.origin? v = some (.result p.id k)) ∧
    (f.ResultsRecorded → f.Owned) ∧
    ((∀ id results, .setResults id results ∉ ms) → f.ResultsRecorded) := by
  have hargs : ((empty name).afterAll ms).ArgumentsRecorded :=
    afterAll_induct (.empty name) fun _ _ _ _ hf hg => hf.mutate hg
  refine ⟨fun pre node post hs v hv => ?_, fun hf => hf.owned hargs h, fun hms => ?_⟩
  · refine (recorded_of_verify h hs hv).imp_left ?_
    rintro ⟨n, ho⟩
    exact List.mem_of_getElem? (hargs v n ho)
  · refine afterAll_induct (.empty name) fun _ m hm _ hf hg => hf.mutate ?_ hg
    rintro id results rfl
    exact hms id results hm

/-- An operation is erased, its number goes to another one, and that gets other operands. -/
theorem owned_of_verify_rewired :
    let ty := Ty.scalar .f32
    let ms : List Mutation :=
      [.edit (.addArgument ty), .edit (.pushOp { name := ⟨"relay.exp"⟩, operands := [0] } [ty]),
        .edit (.pushOp { name := ⟨"relay.sqrt"⟩, operands := [0] } [ty]), .edit (.eraseOp 1),
        .edit (.pushOp { name := ⟨"relay.tanh"⟩, operands := [0] } [ty]), .setOperands 1 [1],
        .edit (.pushOp { name := .terminator, operands := [3] } [])]
    let f := (empty "main").afterAll ms
    f.verify = .ok () ∧ (∀ id results, .setResults id results ∉ ms) ∧ f.Owned ∧
      f.body.nodes.map (fun node => node.op.operands.map f.valueName) =
        [["%arg0"], ["%0"], ["%1"]] := by
  intro ty ms f
  have hverify : f.verify = .ok () := by decide +kernel
  have hresults : ∀ id results, .setResults id results ∉ ms := by simp [ms]
  obtain ⟨-, howned, hrecorded⟩ := owned_of_verify "main" ms hverify
  exact ⟨hverify, hresults, howned (hrecorded hresults), by decide +kernel⟩

/-- The check does not look at result lists: it passes a function in which no operation lists an
operand, which then has no printed name, and functions in which two operations, or one operation
twice, list one value. -/
theorem unowned_verified :
    let ty := Ty.scalar .f32
    let build (id : OpId) (results : List ValueId) : Func := (empty "main").afterAll
      [.edit (.addArgument ty), .edit (.pushOp { name := ⟨"relay.exp"⟩, operands := [0] } [ty]),
        .edit (.pushOp { name := ⟨"relay.tanh"⟩, operands := [1] } [ty]),
        .edit (.pushOp { name := .terminator, operands := [2] } []), .setResults id results]
    let unlisted := build 0 []
    let shared := build 1 [1, 2]
    let repeated := build 0 [1, 1]
    (unlisted.verify = .ok () ∧ (unlisted.op? 1).map Operation.operands = some [1] ∧
      1 ∉ unlisted.arguments ∧ (∀ node ∈ unlisted.body.nodes, 1 ∉ node.op.results) ∧
      unlisted.valueName 1 = "%<invalid 1>") ∧
    (shared.verify = .ok () ∧ shared.results = [1, 1, 2]) ∧
    repeated.verify = .ok () ∧ repeated.results = [1, 1, 2] := by
  decide +kernel

end Func

end TensorIR
