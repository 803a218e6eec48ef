import TensorIR.Proofs.Func.Checking
import TensorIR.Proofs.Func.Naming
import TensorIR.Proofs.Fusion.Numbers
import TensorIR.Proofs.Inference.Typing

/-!
# Functions made anew

A function can be made anew from what is left of it: its arguments, then its operations in program
order, each with its attributes in order of keys, and nothing that was erased on the way. The new
function numbers values and operations without gaps, in order, whatever the numbers were before; it
is the same program in the same order (`aligned_rebuild`). So nobody who prints, checks or fuses a
function can tell which edits it went through (`rebuild_indistinguishable`).
-/

namespace TensorIR.Func

/-- The number of a value in the function made anew: arguments come first, then results. -/
def newValue (f : Func) (v : ValueId) : ValueId :=
  f.defined.idxOf v

/-- The number of an operation in the function made anew: its place in program order. -/
def newOp (f : Func) (id : OpId) : OpId :=
  f.opIds.idxOf id

/-- An operation as it is pushed again: its attributes are set one after the other in order of
keys. -/
def newOperation (f : Func) (op : Operation) : Operation :=
  { op with
    operands := op.operands.map f.newValue
    attributes := .ofList op.attributes.toList }

/-- Push an operation again, with the types that its results have now. -/
def pushAgain (f : Func) (op : Operation) : Edit :=
  .pushOp (f.newOperation op) (op.results.filterMap f.valueTy?)

/-- How to make a function anew. -/
def recipe (f : Func) : List Edit :=
  f.argumentTys.map .addArgument ++ f.body.ops.map f.pushAgain ++ [.setSignature f.signature]

/-- The function made anew. -/
def rebuild (f : Func) : Func :=
  (empty f.name).after f.recipe

variable {f g : Func} {pre post : List Node} {node : Node} {v : ValueId}

/-! ## New numbers -/

/-- The members of a list without repetitions have consecutive places. -/
theorem map_idxOf_append {l m r : List Nat} (h : (l ++ m ++ r).Nodup) :
    m.map (l ++ m ++ r).idxOf = (List.range m.length).map (l.length + ·) := by
  apply List.ext_getElem
  · simp
  · intro k hk _
    rw [List.length_map] at hk
    have hlt : l.length + k < (l ++ m ++ r).length := by
      simp only [List.length_append]
      omega
    have hget : (l ++ m ++ r)[l.length + k] = m[k] := by
      simp [hk]
    rw [List.getElem_map, List.getElem_map, List.getElem_range, ← hget]
    exact h.idxOf_getElem _ hlt

/-- The arguments and the results of some operations. -/
def definedBy (f : Func) (nodes : List Node) : List ValueId :=
  f.arguments ++ nodes.flatMap fun node => node.op.results

theorem definedBy_nodes (f : Func) : f.definedBy f.body.nodes = f.defined := by
  simp [definedBy, defined, results, Body.ops, List.flatMap_map]

theorem definedBy_snoc (f : Func) (pre : List Node) (node : Node) :
    f.definedBy (pre ++ [node]) = f.definedBy pre ++ node.op.results := by
  simp [definedBy]

/-- The values of a program in their order around an operation. -/
theorem defined_eq_append (hnodes : f.body.nodes = pre ++ node :: post) :
    f.defined =
      f.definedBy pre ++ node.op.results ++ post.flatMap fun node => node.op.results := by
  rw [← definedBy_nodes, hnodes]
  simp [definedBy]

theorem map_newValue_arguments (hf : f.Invariant) :
    f.arguments.map f.newValue = List.range f.arguments.length := by
  have hnodup : ([] ++ f.arguments ++ f.results).Nodup := hf.nodup_defined
  unfold newValue defined
  simpa using map_idxOf_append hnodup

theorem map_newValue_results (hf : f.Invariant) (hnodes : f.body.nodes = pre ++ node :: post) :
    node.op.results.map f.newValue =
      (List.range node.op.results.length).map ((f.definedBy pre).length + ·) := by
  have hnodup := hf.nodup_defined
  unfold newValue
  rw [defined_eq_append hnodes] at hnodup ⊢
  exact map_idxOf_append hnodup

/-- An operand has its new number when its operation is pushed again. -/
theorem newValue_lt_of_operand (hf : f.Invariant) (hnodes : f.body.nodes = pre ++ node :: post)
    (hv : v ∈ node.op.operands) : f.newValue v < (f.definedBy pre).length := by
  have hmem : v ∈ f.definedBy pre := by
    rcases hf.wellFormed.operand_defined pre node post hnodes v hv with harg | ⟨p, hp, hres⟩
    · exact List.mem_append_left _ harg
    · exact List.mem_append_right _ (List.mem_flatMap.2 ⟨p, hp, hres⟩)
  rw [newValue, defined_eq_append hnodes, List.append_assoc, List.idxOf_append_of_mem hmem]
  exact List.idxOf_lt_length_of_mem hmem

theorem newOp_eq (hnodes : f.body.nodes = pre ++ node :: post) : f.newOp node.id = pre.length :=
  idxOf_of_getElem? (by simp [hnodes])

/-! ## One edit after the other -/

/-- A function made anew up to some operations. -/
structure RebuiltUpTo (f : Func) (pre : List Node) (g : Func) : Prop where
  name : g.name = f.name
  arguments : g.arguments = f.arguments.map f.newValue
  nodes : g.body.nodes = pre.map fun node => ⟨f.newOp node.id, node.op.rename f.newValue⟩
  free : g.body.free = []
  capacity : g.body.capacity = pre.length
  tys : g.tys.toList.map some = (f.definedBy pre).map f.valueTy?
  live : ∀ v, g.origin? v ≠ some .erased

theorem map_ty_mapIdx (tys : List Ty) (origin : Nat → Origin) :
    (tys.mapIdx fun i ty => (⟨ty, origin i⟩ : Value)).map Value.ty = tys := by
  apply List.ext_getElem?
  intro i
  rw [List.getElem?_map, List.getElem?_mapIdx, Option.map_map]
  exact Option.map_id' ..

theorem toList_tys_pushOp {op : Operation} {resultTys : List Ty} {id : OpId} {g' : Func}
    (h : g.pushOp op resultTys = .ok (id, g')) :
    g'.tys.toList = g.tys.toList ++ resultTys := by
  obtain ⟨-, -, rfl⟩ := pushOp_eq_ok_iff.1 h
  have hnew := map_ty_mapIdx resultTys (.result g.body.nextId)
  simp only [tys, Array.map_append, Array.toList_append, Array.toList_map, hnew]

/-- The values of a program have types, so reading the types of some leaves none out. -/
theorem map_valueTy?_eq (hf : f.Invariant) {l : List ValueId} (hl : ∀ v ∈ l, v ∈ f.defined) :
    l.map f.valueTy? = (l.filterMap f.valueTy?).map some :=
  (ShapeInference.filterMap_eq_iff_map_eq fun v hv => hf.exists_valueTy? (hl v hv)).1 rfl

theorem length_filterMap_valueTy? (hf : f.Invariant) {l : List ValueId}
    (hl : ∀ v ∈ l, v ∈ f.defined) : (l.filterMap f.valueTy?).length = l.length := by
  have hlength := congrArg List.length (map_valueTy?_eq hf hl)
  rw [List.length_map, List.length_map] at hlength
  exact hlength.symm

theorem RebuiltUpTo.size_eq (h : RebuiltUpTo f pre g) :
    g.values.size = (f.definedBy pre).length := by
  have hlength := congrArg List.length h.tys
  rwa [List.length_map, List.length_map, Array.length_toList, size_tys] at hlength

/-- A value has its type under its new number. -/
theorem RebuiltUpTo.valueTy?_newValue (h : RebuiltUpTo f f.body.nodes g) (hv : v ∈ f.defined) :
    g.valueTy? (f.newValue v) = f.valueTy? v := by
  have hlt : f.defined.idxOf v < f.defined.length := List.idxOf_lt_length_of_mem hv
  have hplace : f.defined[f.newValue v]? = some v := by
    rw [newValue, List.getElem?_eq_getElem hlt, List.getElem_idxOf]
  have hget : (g.valueTy? (f.newValue v)).map some = some (f.valueTy? v) := by
    rw [← getElem?_tys, ← Array.getElem?_toList, ← List.getElem?_map, h.tys, definedBy_nodes,
      List.getElem?_map, hplace, Option.map_some]
  cases hty : g.valueTy? (f.newValue v) with
  | none => simp [hty] at hget
  | some ty => simpa [hty] using hget

/-- A function with arguments and nothing else. -/
theorem after_addArguments (name : String) (tys : List Ty) :
    let g := (empty name).after (tys.map .addArgument)
    g.name = name ∧ g.arguments = List.range tys.length ∧ g.body = Body.empty ∧
      g.values = (tys.mapIdx fun i ty => ⟨ty, .argument i⟩).toArray := by
  induction tys using List.reverseRecOn with
  | nil => exact ⟨rfl, rfl, rfl, rfl⟩
  | append_singleton tys ty ih =>
    obtain ⟨hname, harguments, hbody, hvalues⟩ := ih
    rw [List.map_append, after_append]
    refine ⟨hname, ?_, hbody, ?_⟩
    · change _ ++ [_] = _
      rw [harguments, hvalues, List.length_append, List.length_singleton, List.range_succ]
      simp
    · change Array.push _ _ = _
      rw [harguments, hvalues]
      simp

theorem rebuiltUpTo_nil (hf : f.Invariant) :
    RebuiltUpTo f [] ((empty f.name).after (f.argumentTys.map .addArgument)) := by
  obtain ⟨hname, harguments, hbody, hvalues⟩ := after_addArguments f.name f.argumentTys
  have hdefined : ∀ v ∈ f.arguments, v ∈ f.defined := fun _ => mem_defined_of_argument
  have hmap : f.arguments.map f.valueTy? = f.argumentTys.map some := map_valueTy?_eq hf hdefined
  have hlength : f.argumentTys.length = f.arguments.length := length_filterMap_valueTy? hf hdefined
  constructor
  case name => exact hname
  case arguments => rw [harguments, map_newValue_arguments hf, hlength]
  case nodes =>
    rw [hbody]
    rfl
  case free =>
    rw [hbody]
    rfl
  case capacity =>
    rw [hbody]
    rfl
  case tys =>
    rw [tys, hvalues, Array.toList_map, map_ty_mapIdx, ← hmap]
    simp [definedBy]
  case live =>
    intro v
    rw [origin?, value?, hvalues]
    simp

/-- Pushing the next operation again gives it and its results their new numbers. -/
theorem RebuiltUpTo.pushOp (hf : f.Invariant) (hnodes : f.body.nodes = pre ++ node :: post)
    (h : RebuiltUpTo f pre g) {id : OpId} {g' : Func}
    (hpush : g.pushOp (f.newOperation node.op) (node.op.results.filterMap f.valueTy?) =
      .ok (id, g')) :
    RebuiltUpTo f (pre ++ [node]) g' := by
  have hnode : node ∈ f.body.nodes := by simp [hnodes]
  have hdefined : ∀ v ∈ node.op.results, v ∈ f.defined := fun _ => mem_defined_of_result hnode
  have hmap := map_valueTy?_eq hf hdefined
  have hlength := length_filterMap_valueTy? hf hdefined
  have hid : g.body.nextId = f.newOp node.id := by
    rw [Body.nextId, h.free, List.headD_nil, h.capacity, newOp_eq hnodes]
  have horigin := origin?_pushOp hpush
  have htys := toList_tys_pushOp hpush
  obtain ⟨-, -, rfl⟩ := pushOp_eq_ok_iff.1 hpush
  constructor
  case name => exact h.name
  case arguments => exact h.arguments
  case nodes =>
    rw [Body.nodes_push, h.nodes, hid, hlength, h.size_eq, ← map_newValue_results hf hnodes,
      List.map_append, newOperation, StringMap.ofList_eq_of_perm (.refl _)]
    rfl
  case free => simp [Body.push, Body.afterNext, h.free]
  case capacity => simp [Body.push, Body.afterNext, h.free, h.capacity]
  case tys =>
    rw [htys, definedBy_snoc, List.map_append, List.map_append, h.tys, hmap]
  case live =>
    intro v
    rw [horigin]
    split
    · exact h.live v
    · split <;> simp

/-- The next operation can be pushed again: its operands have their new numbers. -/
theorem RebuiltUpTo.pushAgain (hf : f.Invariant) (hnodes : f.body.nodes = pre ++ node :: post)
    (h : RebuiltUpTo f pre g) : RebuiltUpTo f (pre ++ [node]) (g.edit (f.pushAgain node.op)) := by
  have hoperands : ∀ v ∈ node.op.operands.map f.newValue,
      ∃ o, g.origin? v = some o ∧ o ≠ .erased := by
    intro v hv
    obtain ⟨u, hu, rfl⟩ := List.mem_map.1 hv
    have hlt := newValue_lt_of_operand hf hnodes hu
    rw [← h.size_eq] at hlt
    cases ho : g.origin? (f.newValue u) with
    | none => exact absurd (origin?_eq_none_iff.1 ho) (Nat.not_le.2 hlt)
    | some o => exact ⟨o, rfl, fun he => h.live _ (he ▸ ho)⟩
  obtain ⟨⟨id, g'⟩, hpush⟩ :
      ∃ r, g.pushOp (f.newOperation node.op) (node.op.results.filterMap f.valueTy?) = .ok r :=
    ⟨_, pushOp_eq_ok_iff.2 ⟨hoperands, rfl, rfl⟩⟩
  have hedit : g.edit (f.pushAgain node.op) = g' := by
    rw [edit, Func.pushAgain, Func.apply, hpush]
    rfl
  rw [hedit]
  exact h.pushOp hf hnodes hpush

theorem RebuiltUpTo.after (hf : f.Invariant) (hnodes : f.body.nodes = pre ++ post)
    (h : RebuiltUpTo f pre g) :
    RebuiltUpTo f f.body.nodes (g.after (post.map fun node => f.pushAgain node.op)) := by
  induction post generalizing pre g with
  | nil =>
    rw [List.append_nil] at hnodes
    rw [hnodes]
    exact h
  | cons node post ih =>
    rw [List.map_cons, after_cons]
    exact ih (by simp [hnodes]) (h.pushAgain hf hnodes)

/-- **The function made anew is the same program in the same order.** -/
theorem aligned_rebuild (hf : f.Invariant) : Aligned f f.rebuild f.newOp f.newValue := by
  have h := (rebuiltUpTo_nil hf).after hf (List.nil_append _).symm
  have hrebuild : f.rebuild = (((empty f.name).after (f.argumentTys.map .addArgument)).after
      (f.body.nodes.map fun node => f.pushAgain node.op)).setSignature f.signature := by
    rw [rebuild, recipe, after_append, after_append, Body.ops, List.map_map]
    rfl
  rw [hrebuild]
  exact ⟨h.name, h.arguments, h.nodes, fun _ => h.valueTy?_newValue, rfl⟩

/-- **What a function went through does not show.** A built function and the one made anew from what
is left of it print to the same text and pass the check or fail it in the same way. Fusion gives the
same answer on both, or fails on both with errors of the same kind, and what it leaves prints to
the same text again. -/
theorem rebuild_indistinguishable (hf : f.Built) :
    Aligned f f.rebuild f.newOp f.newValue ∧ f.rebuild.text = f.text ∧
      f.rebuild.verify = f.verify ∧
      ∀ dialect registry,
        (Fusion.run dialect registry f.rebuild).result.mapError Error.kind =
          (Fusion.run dialect registry f).result.mapError Error.kind ∧
        (Fusion.run dialect registry f.rebuild).state.text =
          (Fusion.run dialect registry f).state.text := by
  have hinv : f.Invariant := hf.invariant
  have hinv' : f.rebuild.Invariant := Built.invariant ⟨_, _, rfl⟩
  have h := aligned_rebuild hinv
  refine ⟨h, h.text_eq hinv hinv', h.verify_eq hinv hinv', fun dialect registry => ?_⟩
  obtain ⟨hresult, hstate⟩ := Fusion.run_aligned h hinv hinv' dialect registry
  refine ⟨hresult, hstate.text_eq ?_ ?_⟩
  · exact Fusion.invariant_run hinv dialect registry
  · exact Fusion.invariant_run hinv' dialect registry

/-- An operation is erased and its number goes to one that stands behind, an argument comes after
results, and attributes are set later, the last key first. -/
theorem rebuild_indistinguishable_tanh :
    let ty : Ty := .tensor ⟨.f32, [.known 2, .known 3]⟩
    let attributes : Attributes := (∅ : Attributes).insert "b" (.int 1) |>.insert "a" (.bool true)
    let f := (empty "main").after
      [.addArgument ty,
        .pushOp { name := ⟨"relay.exp"⟩, operands := [0] } [ty],
        .pushOp { name := ⟨"relay.sqrt"⟩, operands := [0] } [ty],
        .addArgument ty,
        .eraseOp 0,
        .pushOp { name := ⟨"relay.tanh"⟩, operands := [2] } [ty],
        .pushOp { name := ⟨"relay.add"⟩, operands := [4, 3] } [ty],
        .relabel 1 ⟨"relay.sqrt"⟩ attributes none,
        .pushOp { name := .terminator, operands := [5] } []]
    f.Built ∧ f.opIds = [1, 0, 2, 3] ∧ f.rebuild.opIds = [0, 1, 2, 3] ∧
      f.defined = [0, 3, 2, 4, 5] ∧ f.rebuild.defined = [0, 1, 2, 3, 4] ∧
      f.rebuild.text = f.text ∧ f.rebuild.verify = .ok () ∧
      (Fusion.run "relay" Relay.registry f.rebuild).result = .ok true ∧
      (Fusion.run "relay" Relay.registry f.rebuild).state.text =
        (Fusion.run "relay" Relay.registry f).state.text := by
  intro ty attributes f
  have hf : f.Built := ⟨_, _, rfl⟩
  obtain ⟨h, htext, hverify, hfusion⟩ := rebuild_indistinguishable hf
  obtain ⟨hresult, hstate⟩ := hfusion "relay" Relay.registry
  have hok : f.verify = .ok () ∧ (Fusion.run "relay" Relay.registry f).result = .ok true := by
    decide +kernel
  rw [hok.2] at hresult
  exact ⟨hf, by decide, h.opIds_eq.trans (by decide), by decide, h.defined_eq.trans (by decide),
    htext, hverify.trans hok.1, Fallible.mapError_eq_ok_iff.1 hresult, hstate⟩

end TensorIR.Func
