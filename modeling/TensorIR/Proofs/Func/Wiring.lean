import Mathlib.Data.List.Nodup
import TensorIR.Func.Edit
import TensorIR.Proofs.Fallible

/-!
# The wiring of a function

The wiring of a function is what its values and operations have to do with each other: which values
every operation takes and owns, where every value comes from, and the recorded uses. Types, names,
attributes, locations and the signature are no part of it.

Every edit is described once by what it does to the wiring (`wirings_pushOp`, `origin?_pushOp` and
so on), so that later proofs need not open it.
-/

namespace TensorIR

/-- The values that an operation takes and owns, under its number. -/
structure Wiring where
  id : OpId
  operands : List ValueId
  results : List ValueId
  deriving DecidableEq, Repr, Inhabited

def Node.wiring (node : Node) : Wiring :=
  ⟨node.id, node.op.operands, node.op.results⟩

/-! ## Bodies -/

namespace Body

variable {b : Body} {id : OpId} {op : Operation}

/-- The operation under a number is the one that stands in the body with it. -/
theorem op?_eq_some_iff : b.op? id = some op ↔ ⟨id, op⟩ ∈ b.nodes := by
  unfold op? find?
  rw [Option.map_eq_some_iff]
  constructor
  · intro h
    obtain ⟨node, hfind, rfl⟩ := h
    have hid : node.id = id := by simpa using List.find?_some hfind
    rw [← hid]
    exact List.mem_of_find?_eq_some hfind
  · intro hmem
    refine ⟨⟨id, op⟩, ?_, rfl⟩
    obtain ⟨node, hnode⟩ : ∃ node, b.nodes.find? (fun node => node.id == id) = some node := by
      rw [← Option.isSome_iff_exists, List.find?_isSome]
      exact ⟨_, hmem, by simp⟩
    have hid : node.id = id := by simpa using List.find?_some hnode
    have heq : node = ⟨id, op⟩ :=
      List.inj_on_of_nodup_map b.nodup_ids (List.mem_of_find?_eq_some hnode) hmem hid
    rw [hnode, heq]

theorem mem_ids_iff : id ∈ b.ids ↔ ∃ op, b.op? id = some op := by
  unfold ids
  rw [List.mem_map]
  constructor
  · intro h
    obtain ⟨⟨id', op⟩, hmem, rfl⟩ := h
    exact ⟨op, op?_eq_some_iff.2 hmem⟩
  · intro h
    obtain ⟨op, hop⟩ := h
    exact ⟨_, op?_eq_some_iff.1 hop, rfl⟩

/-- The numbers in use are those that were given out and are not free. -/
theorem mem_ids_iff_allocated : id ∈ b.ids ↔ id < b.capacity ∧ id ∉ b.free := by
  have hnodup : (b.ids ++ b.free).Nodup := b.ids_perm.nodup_iff.2 List.nodup_range
  have hmem : id ∈ b.ids ++ b.free ↔ id < b.capacity := by
    rw [← List.mem_range]
    exact b.ids_perm.mem_iff
  rw [List.mem_append] at hmem
  constructor
  · intro hid
    exact ⟨hmem.1 (.inl hid), fun hfree => (List.nodup_append.1 hnodup).2.2 id hid id hfree rfl⟩
  · intro h
    obtain ⟨hlt, hfree⟩ := h
    exact (hmem.2 hlt).resolve_right hfree

@[simp] theorem nodes_push (b : Body) (op : Operation) :
    (b.push op).nodes = b.nodes ++ [⟨b.nextId, op⟩] := rfl

/-- The next number is that of no operation. -/
theorem nextId_notMem_ids (b : Body) : b.nextId ∉ b.ids := by
  have hnodup := (b.push default).nodup_ids
  rw [ids, nodes_push, List.map_append, List.nodup_append] at hnodup
  exact fun hmem => hnodup.2.2 _ hmem _ List.mem_cons_self rfl

@[simp] theorem nodes_mapOps (b : Body) (f : Node → Operation) :
    (b.mapOps f).nodes = b.nodes.map fun node => ⟨node.id, f node⟩ := rfl

theorem nodes_erase (b : Body) (id : OpId) :
    (b.erase id).nodes = b.nodes.filter fun node => node.id != id := by
  unfold erase
  split
  · rfl
  · next hid =>
    symm
    rw [List.filter_eq_self]
    intro node hnode
    have hne : node.id ≠ id := fun h => hid (h ▸ List.mem_map_of_mem hnode)
    simpa using hne

end Body

namespace Func

variable {f g : Func} {v : ValueId} {id : OpId}

/-- The wirings of the operations, in program order. -/
def wirings (f : Func) : List Wiring :=
  f.body.nodes.map Node.wiring

/-- Where a value comes from, if it is there. -/
def origin? (f : Func) (v : ValueId) : Option Origin :=
  (f.value? v).map Value.origin

theorem origin?_eq_none_iff : f.origin? v = none ↔ f.values.size ≤ v := by
  simp [origin?, value?]

theorem lt_size_of_origin? {o : Origin} (h : f.origin? v = some o) : v < f.values.size := by
  by_contra hlt
  rw [origin?_eq_none_iff.2 (Nat.le_of_not_lt hlt)] at h
  cases h

theorem map_id_wirings (f : Func) : f.wirings.map Wiring.id = f.opIds := by
  simp [wirings, opIds, Body.ids, Node.wiring, Function.comp_def]

theorem nodup_ids_wirings (f : Func) : (f.wirings.map Wiring.id).Nodup := by
  rw [map_id_wirings]
  exact f.body.nodup_ids

/-- Two operations with one number are the same. -/
theorem wiring_inj {w w' : Wiring} (hw : w ∈ f.wirings) (hw' : w' ∈ f.wirings)
    (h : w.id = w'.id) : w = w' :=
  List.inj_on_of_nodup_map f.nodup_ids_wirings hw hw' h

theorem node_inj {n n' : Node} (hn : n ∈ f.body.nodes) (hn' : n' ∈ f.body.nodes)
    (h : n.id = n'.id) : n = n' :=
  List.inj_on_of_nodup_map f.body.nodup_ids hn hn' h

theorem wiring_mem {node : Node} (h : node ∈ f.body.nodes) : node.wiring ∈ f.wirings :=
  List.mem_map_of_mem h

theorem mem_wirings_of_op? {op : Operation} (h : f.op? id = some op) :
    ⟨id, op.operands, op.results⟩ ∈ f.wirings :=
  List.mem_map.2 ⟨⟨id, op⟩, Body.op?_eq_some_iff.1 h, rfl⟩

/-- The use of an operand depends on its origin only. -/
theorem useOf?_eq (f : Func) (consumer : OpId) (v : ValueId) :
    f.useOf? consumer v =
      match f.origin? v with
      | some (.result op _) => some ⟨op, consumer, v⟩
      | _ => none := by
  unfold useOf? origin?
  cases f.value? v with
  | none => rfl
  | some value =>
    obtain ⟨ty, origin⟩ := value
    cases origin <;> rfl

theorem useOf?_eq_some_iff {consumer : OpId} {u : Use} :
    f.useOf? consumer v = some u ↔
      ∃ k, f.origin? v = some (.result u.producer k) ∧ u.consumer = consumer ∧ u.value = v := by
  rw [useOf?_eq]
  split
  · next op k h =>
    rw [h, Option.some.injEq]
    constructor
    · rintro rfl
      exact ⟨k, rfl, rfl, rfl⟩
    · intro hx
      obtain ⟨k', hk, rfl, rfl⟩ := hx
      obtain ⟨rfl, -⟩ : op = u.producer ∧ k = k' := by simpa using hk
      rfl
  · next h =>
    constructor
    · intro hu
      cases hu
    · intro hx
      obtain ⟨k, hk, -⟩ := hx
      exact absurd hk (h _ _)

/-- Where a value is produced depends on its origin only. -/
theorem producer_eq (f : Func) (v : ValueId) :
    f.producer v =
      match f.origin? v with
      | none => .error (.valueNotFound v f.name)
      | some (.argument _) => .ok none
      | some (.result op _) => .ok (some op)
      | some .erased => .error (.valueErased v f.name) := by
  unfold producer Func.value origin?
  cases f.value? v with
  | none => rfl
  | some value =>
    obtain ⟨ty, origin⟩ := value
    cases origin <;> rfl

theorem producer_eq_some_iff :
    f.producer v = .ok (some id) ↔ ∃ k, f.origin? v = some (.result id k) := by
  rw [producer_eq]
  rcases f.origin? v with - | (n | ⟨op, k⟩ | -) <;> simp

theorem producer_eq_none_iff :
    f.producer v = .ok none ↔ ∃ n, f.origin? v = some (.argument n) := by
  rw [producer_eq]
  rcases f.origin? v with - | (n | ⟨op, k⟩ | -) <;> simp

/-! ## What edits do to the wiring -/

@[simp] theorem wirings_addArgument (f : Func) (ty : Ty) :
    (f.addArgument ty).2.wirings = f.wirings := rfl

theorem origin?_addArgument (f : Func) (ty : Ty) (v : ValueId) :
    (f.addArgument ty).2.origin? v =
      if v = f.values.size then some (.argument f.arguments.length) else f.origin? v := by
  unfold origin? value? addArgument
  rw [Array.getElem?_push]
  split <;> rfl

/-- An operand passes the check of a new operation if it is there and not erased. -/
theorem checkOperand_eq_ok_iff {operator : OpName} :
    f.checkOperand operator v = .ok () ↔ ∃ o, f.origin? v = some o ∧ o ≠ .erased := by
  unfold checkOperand origin?
  cases f.value? v with
  | none => simp
  | some value =>
    obtain ⟨ty, origin⟩ := value
    cases origin <;> simp

/-- The results of a new operation are numbered from the next value on. -/
theorem getElem?_newResults {n k size : Nat} :
    ((List.range n).map (size + ·))[k]? = some v ↔ k < n ∧ size + k = v := by
  rw [List.getElem?_map]
  by_cases hk : k < n
  · simp [hk]
  · simp [hk]

section pushOp

variable {op : Operation} {tys : List Ty}

/-- A push succeeds exactly if every operand is there and not erased; then it appends the operation
under the next number, with new values as results. -/
theorem pushOp_eq_ok_iff :
    f.pushOp op tys = .ok (id, g) ↔
      (∀ v ∈ op.operands, ∃ o, f.origin? v = some o ∧ o ≠ .erased) ∧
      id = f.body.nextId ∧
      g = { f with
        values := f.values ++ (tys.mapIdx fun i ty => ⟨ty, .result f.body.nextId i⟩).toArray
        body := f.body.push
          { op with results := (List.range tys.length).map (f.values.size + ·) }
        uses := f.uses ++ op.operands.filterMap (f.useOf? f.body.nextId) } := by
  unfold pushOp
  cases h : op.operands.forM (f.checkOperand op.name) with
  | error e =>
    simp only [reduceCtorEq, false_iff]
    intro hx
    obtain ⟨hops, -⟩ := hx
    have hok : op.operands.forM (f.checkOperand op.name) = .ok () :=
      Fallible.forM_eq_ok_iff.2 fun v hv => checkOperand_eq_ok_iff.2 (hops v hv)
    rw [h] at hok
    cases hok
  | ok u =>
    have hops : ∀ v ∈ op.operands, ∃ o, f.origin? v = some o ∧ o ≠ .erased :=
      fun v hv => checkOperand_eq_ok_iff.1 (Fallible.forM_eq_ok_iff.1 h v hv)
    simp only [Except.ok.injEq, Prod.mk.injEq]
    constructor
    · intro hx
      obtain ⟨rfl, rfl⟩ := hx
      exact ⟨hops, rfl, rfl⟩
    · intro hx
      obtain ⟨-, rfl, rfl⟩ := hx
      exact ⟨rfl, rfl⟩

theorem wirings_pushOp (h : f.pushOp op tys = .ok (id, g)) :
    g.wirings = f.wirings ++
      [⟨f.body.nextId, op.operands, (List.range tys.length).map (f.values.size + ·)⟩] := by
  obtain ⟨-, -, rfl⟩ := pushOp_eq_ok_iff.1 h
  simp [wirings, Node.wiring]

theorem origin?_pushOp (h : f.pushOp op tys = .ok (id, g)) (v : ValueId) :
    g.origin? v =
      if v < f.values.size then f.origin? v
      else if v - f.values.size < tys.length then
        some (.result f.body.nextId (v - f.values.size))
      else none := by
  obtain ⟨-, -, rfl⟩ := pushOp_eq_ok_iff.1 h
  unfold origin? value?
  simp only [Array.getElem?_append, List.getElem?_toArray, List.getElem?_mapIdx]
  by_cases hv : v < f.values.size
  · simp [hv]
  · by_cases hk : v - f.values.size < tys.length
    · simp [hv, hk]
    · simp [hv, hk]

theorem arguments_pushOp (h : f.pushOp op tys = .ok (id, g)) : g.arguments = f.arguments := by
  obtain ⟨-, -, rfl⟩ := pushOp_eq_ok_iff.1 h
  rfl

theorem uses_pushOp (h : f.pushOp op tys = .ok (id, g)) :
    g.uses = f.uses ++ op.operands.filterMap (f.useOf? f.body.nextId) := by
  obtain ⟨-, -, rfl⟩ := pushOp_eq_ok_iff.1 h
  rfl

end pushOp

/-- Forgetting the origins of values leaves all others alone. -/
theorem getElem?_foldl_forget (results : List ValueId) (values : Array Value) (v : ValueId) :
    (results.foldl forget values)[v]? = (values[v]?).map fun value =>
      if v ∈ results then { value with origin := .erased } else value := by
  induction results generalizing values with
  | nil => simp
  | cons r results ih =>
    rw [List.foldl_cons, ih]
    unfold forget
    rw [Array.getElem?_modify]
    by_cases hr : r = v
    · subst hr
      simp only [if_pos, List.mem_cons, true_or, Option.map_map]
      congr 1
      funext value
      simp
    · simp [hr, Ne.symm hr]

section eraseOp

variable {op : Operation}

/-- An erasure succeeds exactly if the operation is there and its results pass the check; then it
takes the operation and its uses away and forgets where its results came from. -/
theorem eraseOp_eq_ok_iff :
    f.eraseOp id = .ok g ↔
      ∃ op, f.op? id = some op ∧ (∀ v ∈ op.results, f.checkUnused op.name v = .ok ()) ∧
        g = { f with
          values := op.results.foldl forget f.values
          body := f.body.erase id
          uses := f.uses.filter fun use => use.producer != id && use.consumer != id } := by
  unfold eraseOp Func.op
  cases f.op? id with
  | none => simp
  | some op =>
    cases h : op.results.forM (f.checkUnused op.name) with
    | error e =>
      simp only [h, reduceCtorEq, Option.some.injEq, false_iff]
      intro hx
      obtain ⟨op', rfl, hchecks, -⟩ := hx
      rw [Fallible.forM_eq_ok_iff.2 hchecks] at h
      cases h
    | ok u =>
      simp only [h, Option.some.injEq, Except.ok.injEq]
      constructor
      · rintro rfl
        exact ⟨op, rfl, Fallible.forM_eq_ok_iff.1 h, rfl⟩
      · intro hx
        obtain ⟨op', rfl, -, rfl⟩ := hx
        rfl

theorem wirings_eraseOp (h : f.eraseOp id = .ok g) :
    g.wirings = f.wirings.filter fun w => w.id != id := by
  obtain ⟨op, -, -, rfl⟩ := eraseOp_eq_ok_iff.1 h
  simp [wirings, Body.nodes_erase, List.filter_map, Node.wiring, Function.comp_def]

theorem origin?_eraseOp (h : f.eraseOp id = .ok g) (hop : f.op? id = some op) (v : ValueId) :
    g.origin? v = (f.origin? v).map fun o => if v ∈ op.results then .erased else o := by
  obtain ⟨op', hop', -, rfl⟩ := eraseOp_eq_ok_iff.1 h
  obtain rfl : op' = op := by simpa [hop] using hop'.symm
  unfold origin? value?
  rw [getElem?_foldl_forget, Option.map_map, Option.map_map]
  congr 1
  funext value
  simp only [Function.comp_apply]
  split <;> rfl

theorem arguments_eraseOp (h : f.eraseOp id = .ok g) : g.arguments = f.arguments := by
  obtain ⟨op, -, -, rfl⟩ := eraseOp_eq_ok_iff.1 h
  rfl

theorem uses_eraseOp (h : f.eraseOp id = .ok g) :
    g.uses = f.uses.filter fun use => use.producer != id && use.consumer != id := by
  obtain ⟨op, -, -, rfl⟩ := eraseOp_eq_ok_iff.1 h
  rfl

end eraseOp

theorem eq_of_setValueTy {ty : Ty} (h : f.setValueTy v ty = .ok g) :
    g = { f with values := f.values.modify v fun value => { value with ty } } := by
  unfold setValueTy at h
  split at h
  · cases h
  · cases h
    rfl

theorem eq_of_modifyOp {change : Operation → Operation} (h : f.modifyOp id change = .ok g) :
    g = { f with body := f.body.modify id change } := by
  unfold modifyOp at h
  split at h
  · cases h
  · cases h
    rfl

/-- Edits of types leave all origins alone. -/
theorem origin?_modify_ty (f : Func) (v v' : ValueId) (ty : Ty) :
    ({ f with values := f.values.modify v fun value => { value with ty } } : Func).origin? v' =
      f.origin? v' := by
  unfold origin? value?
  rw [Array.getElem?_modify]
  split
  · rw [Option.map_map]
    rfl
  · rfl

/-- Changes of operations that leave operands and results alone leave the wiring alone. -/
theorem wirings_mapOps {change : Node → Operation}
    (h : ∀ node ∈ f.body.nodes,
      (change node).operands = node.op.operands ∧ (change node).results = node.op.results) :
    ({ f with body := f.body.mapOps change } : Func).wirings = f.wirings := by
  unfold wirings
  rw [Body.nodes_mapOps, List.map_map]
  apply List.map_congr_left
  intro node hnode
  obtain ⟨hops, hresults⟩ := h node hnode
  simp [Node.wiring, hops, hresults]

end Func

end TensorIR
