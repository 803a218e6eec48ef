import TensorIR.Func.Verify
import TensorIR.Proofs.Func.Cycles
import TensorIR.Proofs.Func.Renumbering

/-!
# Checks of functions that satisfy the invariant

In a function that satisfies the invariant every operand is defined before it is used and uses do
not run in a circle (`Invariant.hasCycle_eq_false`), so only its returns can make it fail the check.
Which operations are returns and whether they come last does not depend on numbers, and so the same
program in the same order gets the same answer (`Aligned.verify_eq`).
-/

namespace TensorIR.Func

variable {f g : Func} {ops : OpId → OpId} {values : ValueId → ValueId} {v : ValueId}
  {position : Nat} {node : Node}

/-! ## Operands -/

theorem position?_eq_some {id : OpId} (h : id ∈ f.opIds) :
    f.body.position? id = some (f.opIds.idxOf id) := by
  unfold Body.position?
  rw [opIds, List.idxOf_eq_getD_idxOf?]
  cases hidx : f.body.ids.idxOf? id with
  | none => exact absurd h (List.idxOf?_eq_none_iff.1 hidx)
  | some i => rfl

theorem idxOf_of_getElem? (h : f.body.nodes[position]? = some node) :
    f.opIds.idxOf node.id = position := by
  have hid : f.opIds[position]? = some node.id := by
    rw [opIds, Body.ids, List.getElem?_map, h, Option.map_some]
  obtain ⟨hlt, hid⟩ := List.getElem?_eq_some_iff.1 hid
  rw [← hid]
  exact f.body.nodup_ids.idxOf_getElem position hlt

theorem Invariant.verifyOperand_eq_ok (hf : f.Invariant)
    (hnode : f.body.nodes[position]? = some node) (hv : v ∈ node.op.operands) :
    f.verifyOperand position node.op v = .ok () := by
  have hmem : node ∈ f.body.nodes := List.mem_of_getElem? hnode
  obtain ⟨o, ho, hne⟩ := hf.operand_origin? (wiring_mem hmem) hv
  obtain ⟨⟨ty, _⟩, hvalue, rfl⟩ := Option.map_eq_some_iff.1 ho
  unfold verifyOperand
  simp only [hvalue]
  split
  · rfl
  · exact absurd rfl hne
  · next producer k =>
    have hlt : f.opIds.idxOf producer < position := by
      rw [← idxOf_of_getElem? hnode]
      exact hf.idxOf_lt_of_feeds ⟨v, (hf.mem_uses_iff (wiring_mem hmem) ho).2 hv⟩
    simp [position?_eq_some (hf.producer_mem_opIds ho), hlt]

/-- Only a return that does not come last fails the check of an operation. -/
theorem Invariant.verifyNode_eq (hf : f.Invariant) (hnode : f.body.nodes[position]? = some node) :
    f.verifyNode position node =
      if node.op.isReturn && f.opIds.getLast? != some node.id then
        .error (.returnNotLast f.name node.op.describe)
      else .ok () := by
  have hoperands : node.op.operands.forM (f.verifyOperand position node.op) = .ok () :=
    Fallible.forM_eq_ok_iff.2 fun _ hv => hf.verifyOperand_eq_ok hnode hv
  unfold verifyNode
  rw [hoperands]
  rfl

/-! ## Functions in the same order -/

namespace Aligned

theorem verifyNode_eq (h : Aligned f g ops values) (hf : f.Invariant) (hg : g.Invariant)
    (hnode : f.body.nodes[position]? = some node) :
    g.verifyNode position ⟨ops node.id, node.op.rename values⟩ = f.verifyNode position node := by
  have hnode' : g.body.nodes[position]? = some ⟨ops node.id, node.op.rename values⟩ := by
    rw [h.nodes, List.getElem?_map, hnode, Option.map_some]
  have hlast : (g.opIds.getLast? != some (ops node.id)) =
      (f.opIds.getLast? != some node.id) := by
    rw [h.opIds_eq, List.getLast?_map, Bool.eq_iff_iff, bne_iff_ne, bne_iff_ne, not_iff_not]
    constructor
    · intro heq
      obtain ⟨id, hid, heq⟩ := Option.map_eq_some_iff.1 heq
      rw [hid, h.renumbering.ops_inj (List.mem_of_getLast? hid)
        (List.mem_map_of_mem (List.mem_of_getElem? hnode)) heq]
    · intro heq
      rw [heq, Option.map_some]
  rw [hf.verifyNode_eq hnode, hg.verifyNode_eq hnode', hlast, h.name]
  rfl

theorem discard_terminator_eq (h : Aligned f g ops values) :
    discard g.terminator = discard f.terminator := by
  have hreturns : g.returns = f.returns.map ops := by
    simp [returns, h.nodes, List.filter_map, Function.comp_def, Operation.isReturn,
      Operation.rename]
  unfold terminator
  rw [hreturns, h.name]
  rcases f.returns with _ | ⟨id, _ | ⟨id', rest⟩⟩
  · rfl
  · rfl
  · simp

/-- The same program in the same order passes the check, or fails it in the same way. -/
theorem verify_eq (h : Aligned f g ops values) (hf : f.Invariant) (hg : g.Invariant) :
    g.verify = f.verify := by
  have hnodes : (g.body.nodes.zipIdx.forM fun e => g.verifyNode e.2 e.1) =
      f.body.nodes.zipIdx.forM fun e => f.verifyNode e.2 e.1 := by
    rw [h.nodes, List.zipIdx_map]
    refine Fallible.forM_map_congr ?_
    rintro ⟨node, position⟩ hmem
    exact h.verifyNode_eq hf hg (List.mem_zipIdx_iff_getElem?.1 hmem)
  unfold verify
  rw [h.discard_terminator_eq, hf.hasCycle_eq_false, hg.hasCycle_eq_false]
  exact congrArg (· >>= _) hnodes

end Aligned

end TensorIR.Func
