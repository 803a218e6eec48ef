import TensorIR.Proofs.Fusion.Marks
import TensorIR.Proofs.Inference.Typing

/-!
# What the passes leave alone

Inference writes types and the signature, fusion writes one attribute, and neither is part of the
structure of a program. The structure is what `Func.outline` keeps, and it is all that the check of
a function looks at (`verify_outline`). So both passes leave the answer of the check as it was
(`passes_keep_structure`), on any function, well formed or not, and whether they succeed or fail.
-/

namespace TensorIR

/-- An operation without its attributes. -/
def Operation.bare (op : Operation) : Operation := { op with attributes := ∅ }

namespace Func

variable {f g : Func}

/-- What remains of a function if types, the signature and attributes are forgotten: the operations
in program order, with their numbers, names, operands, results and locations; the numbers that are
free; the arguments; where each value comes from; and the recorded uses. -/
def outline (f : Func) : Func :=
  { f with
    signature := {}
    values := f.values.map fun value => { value with ty := default }
    body := f.body.mapOps fun node => node.op.bare }

/-! ## Checks -/

theorem value?_outline (f : Func) (v : ValueId) :
    f.outline.value? v = (f.value? v).map fun value => { value with ty := default } := by
  simp [outline, value?]

theorem opIds_outline (f : Func) : f.outline.opIds = f.opIds := by
  simp [outline, opIds, Body.ids, Function.comp_def]

theorem verifyOperand_outline (f : Func) (position : Nat) (op : Operation) (v : ValueId) :
    f.outline.verifyOperand position op.bare v = f.verifyOperand position op v := by
  have hposition : ∀ id, f.outline.body.position? id = f.body.position? id := by
    intro id
    have hids : f.outline.body.ids = f.body.ids := f.opIds_outline
    rw [Body.position?, hids, Body.position?]
  unfold verifyOperand
  rw [value?_outline]
  cases f.value? v with
  | none => rfl
  | some value =>
    simp only [Option.map_some, hposition]
    rfl

theorem verifyNode_outline (f : Func) (position : Nat) (node : Node) :
    f.outline.verifyNode position ⟨node.id, node.op.bare⟩ = f.verifyNode position node := by
  have hoperands : node.op.operands.forM (f.outline.verifyOperand position node.op.bare) =
      node.op.operands.forM (f.verifyOperand position node.op) := by
    congr 1
    funext v
    exact f.verifyOperand_outline position node.op v
  unfold verifyNode
  rw [opIds_outline]
  exact congrArg (· >>= _) hoperands

theorem terminator_outline (f : Func) : f.outline.terminator = f.terminator := by
  have hreturns : f.outline.returns = f.returns := by
    simp [outline, returns, List.filter_map, Function.comp_def, Operation.isReturn, Operation.bare]
  unfold terminator
  rw [hreturns]
  rfl

theorem verify_outline (f : Func) : f.outline.verify = f.verify := by
  have hnodes : (f.outline.body.nodes.zipIdx.forM fun e => f.outline.verifyNode e.2 e.1) =
      f.body.nodes.zipIdx.forM fun e => f.verifyNode e.2 e.1 := by
    have hbody : f.outline.body.nodes = f.body.nodes.map fun node => ⟨node.id, node.op.bare⟩ := rfl
    rw [hbody, List.zipIdx_map]
    refine Fallible.forM_map_congr ?_
    rintro ⟨node, position⟩ -
    exact f.verifyNode_outline position node
  have hcycle : f.outline.hasCycle = f.hasCycle := by
    unfold hasCycle
    rw [opIds_outline]
    rfl
  unfold verify
  rw [terminator_outline, hcycle]
  exact congrArg (· >>= _) hnodes

/-- Functions of one structure pass the check, or fail it in the same way. -/
theorem verify_eq_of_outline (h : g.outline = f.outline) : g.verify = f.verify := by
  rw [← verify_outline g, h, verify_outline]

theorem Retyped.outline_eq (h : Retyped f g) : g.outline = f.outline := by
  have hvalues : (g.values.map fun value => { value with ty := (default : Ty) }) =
      f.values.map fun value => { value with ty := default } := by
    refine Array.ext_getElem? fun v => ?_
    have horigin := congrArg (Option.map (Value.mk default)) (h.origin? v)
    simpa [Func.origin?, value?, Function.comp_def] using horigin
  unfold outline
  rw [h.name, h.arguments, h.body, h.uses, hvalues]

end Func

/-! ## Inference -/

namespace ShapeInference

open Func (Retyped)

variable (registry : Registry) (dialect : String) (terminator : OpId) (f : Func)

theorem retyped_walk (nodes : List Node) :
    Retyped f (walk registry dialect terminator nodes f).state := by
  induction nodes generalizing f with
  | nil => exact .refl f
  | cons node rest ih =>
    rw [walk]
    split
    · exact ih f
    · next rule _ =>
      split
      · exact .refl f
      · next g changed hstep =>
        obtain ⟨cs, -, -, -, rfl, -⟩ := inferOp_eq_ok_iff.1 hstep
        exact (retyped_write f _).trans (ih _)

theorem retyped_reconcile : Retyped f (reconcile f terminator).state := by
  unfold reconcile
  split
  · exact .refl f
  · split
    · exact .refl f
    · exact (Retyped.refl f).setSignature _

/-- Inference changes types and the signature only. -/
theorem retyped_run : Retyped f (run dialect registry f).state := by
  unfold run
  split
  · exact .refl f
  · next t _ =>
    have hwalk := retyped_walk registry dialect t f f.body.nodes
    simp only
    split
    · exact hwalk
    · exact hwalk.trans (retyped_reconcile t _)

end ShapeInference

/-! ## Fusion -/

namespace Fusion

variable {registry : Registry} {dialect : String} {f g : Func} {p : Plan}

/-- The same function, but operations of the dialect that are no returns may carry another group. -/
structure Regrouped (dialect : String) (f g : Func) : Prop where
  name : g.name = f.name
  arguments : g.arguments = f.arguments
  signature : g.signature = f.signature
  values : g.values = f.values
  uses : g.uses = f.uses
  free : g.body.free = f.body.free
  capacity : g.body.capacity = f.body.capacity
  nodes : List.Forall₂ (fun node node' => node'.id = node.id ∧
    (node'.op = node.op ∨ node.op.isReturn = false ∧ node.op.name.dialect = dialect ∧
      ∃ group, node'.op = node.op.setAttribute groupAttr group)) f.body.nodes g.body.nodes

theorem Regrouped.refl (f : Func) : Regrouped dialect f f :=
  ⟨rfl, rfl, rfl, rfl, rfl, rfl, rfl, List.forall₂_same.2 fun _ _ => ⟨rfl, .inl rfl⟩⟩

theorem Regrouped.outline_eq (h : Regrouped dialect f g) : g.outline = f.outline := by
  have hnodes : List.Forall₂ Eq (f.body.nodes.map fun node => (⟨node.id, node.op.bare⟩ : Node))
      (g.body.nodes.map fun node => ⟨node.id, node.op.bare⟩) := by
    rw [List.forall₂_map_left_iff, List.forall₂_map_right_iff]
    refine h.nodes.imp ?_
    rintro node node' ⟨hid, hop | ⟨-, -, group, hop⟩⟩
    · rw [hid, hop]
    · rw [hid, hop]
      rfl
  have hbody : (g.body.mapOps fun node => node.op.bare) =
      f.body.mapOps fun node => node.op.bare := by
    rw [List.forall₂_eq_eq_eq] at hnodes
    simp only [Body.mapOps, Body.mk.injEq]
    exact ⟨hnodes.symm, h.free, h.capacity⟩
  unfold Func.outline
  rw [h.name, h.arguments, h.values, h.uses, hbody]

/-- One operation gets a group, or none does. -/
theorem groups_assign {p' : Plan} {node : Node} (h : assign registry dialect f p node = .ok p') :
    p'.groups = p.groups ∨
      isGrouped dialect node.op = true ∧ ∃ group, p'.groups = p.groups ++ [(node.id, group)] := by
  rcases assign_cases h with ⟨-, rfl⟩ | ⟨hgrouped, ⟨group, -, rfl⟩ | ⟨-, rfl⟩⟩
  · exact .inl rfl
  · exact .inr ⟨hgrouped, _, rfl⟩
  · exact .inr ⟨hgrouped, _, rfl⟩

/-- A plan has groups for operations of the dialect that are no returns. -/
theorem isGrouped_of_plan (h : plan registry dialect f = .ok p) {node : Node}
    (hnode : node ∈ f.body.nodes) {group : Nat} (hgroup : p.groupOf? node.id = some group) :
    isGrouped dialect node.op = true := by
  -- along the body, what has a group is among the operations so far
  have hplanned : ∀ id group, p.groupOf? id = some group →
      ∃ n ∈ f.body.nodes, n.id = id ∧ isGrouped dialect n.op = true := by
    refine Fallible.foldlM_induct (P := fun pre (p : Plan) => ∀ id group,
      p.groupOf? id = some group → ∃ n ∈ pre, n.id = id ∧ isGrouped dialect n.op = true)
      ?_ h (by simp [Plan.groupOf?])
    intro pre n post p p' _ hpre hassign id group hid
    have hold : p.groupOf? id = some group →
        ∃ m ∈ pre ++ [n], m.id = id ∧ isGrouped dialect m.op = true := by
      intro hid
      obtain ⟨m, hm, hmid⟩ := hpre id group hid
      exact ⟨m, List.mem_append_left _ hm, hmid⟩
    unfold Plan.groupOf? at hid hold
    rcases groups_assign hassign with heq | ⟨hgrouped, new, heq⟩
    · rw [heq] at hid
      exact hold hid
    · rw [heq, List.lookup_append, Option.or_eq_some_iff] at hid
      rcases hid with hid | ⟨-, hid⟩
      · exact hold hid
      · have hn : id = n.id := by
          by_contra hne
          simp [List.lookup_cons, beq_eq_false_iff_ne.2 hne] at hid
        exact ⟨n, by simp, hn.symm, hgrouped⟩
  obtain ⟨n, hn, hid, hgrouped⟩ := hplanned node.id group hgroup
  rwa [← Func.node_inj hn hnode hid]

theorem regrouped_write (h : plan registry dialect f = .ok p) :
    Regrouped dialect f (write p f) := by
  refine ⟨rfl, rfl, rfl, rfl, rfl, rfl, rfl, ?_⟩
  unfold write
  rw [Body.nodes_mapOps, List.forall₂_map_right_iff, List.forall₂_same]
  intro node hnode
  refine ⟨rfl, ?_⟩
  unfold mark
  split
  · exact .inl rfl
  · next group hgroup =>
    have hgrouped := isGrouped_of_plan h hnode hgroup
    simp only [isGrouped, Bool.and_eq_true, Bool.not_eq_true', beq_iff_eq] at hgrouped
    exact .inr ⟨hgrouped.1, hgrouped.2, _, rfl⟩

/-- Fusion changes groups only, and nothing at all if it fails. -/
theorem regrouped_run (registry : Registry) (dialect : String) (f : Func) :
    Regrouped dialect f (run dialect registry f).state ∧
      ∀ e, (run dialect registry f).result = .error e → (run dialect registry f).state = f := by
  unfold run
  split
  · exact ⟨.refl f, fun _ _ => rfl⟩
  · split
    · exact ⟨.refl f, fun _ _ => rfl⟩
    · next p hplan => exact ⟨regrouped_write hplan, by simp⟩

end Fusion

/-- **The passes do not touch the structure of a program.** On any function, for any dialect and any
registry, and whether the pass succeeds or fails: inference changes types and the signature only,
fusion changes the groups of operations of its dialect only and nothing at all if it fails, and the
check of the function gives the answer that it gave before. -/
theorem passes_keep_structure (f : Func) (dialect : String) (registry : Registry) :
    let inferred := ShapeInference.run dialect registry f
    let fused := Fusion.run dialect registry f
    (Func.Retyped f inferred.state ∧ inferred.state.outline = f.outline ∧
      inferred.state.verify = f.verify) ∧
    Fusion.Regrouped dialect f fused.state ∧ fused.state.outline = f.outline ∧
      fused.state.verify = f.verify ∧ ∀ e, fused.result = .error e → fused.state = f := by
  intro inferred fused
  have hre : Func.Retyped f inferred.state := ShapeInference.retyped_run registry dialect f
  obtain ⟨hgroups, herror⟩ := Fusion.regrouped_run registry dialect f
  exact ⟨⟨hre, hre.outline_eq, Func.verify_eq_of_outline hre.outline_eq⟩,
    hgroups, hgroups.outline_eq, Func.verify_eq_of_outline hgroups.outline_eq, herror⟩

end TensorIR
