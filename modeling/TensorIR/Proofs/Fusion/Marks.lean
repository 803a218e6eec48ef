import TensorIR.Proofs.Fusion.Static

/-!
# Fusion does not read what it writes

The marks that fusion leaves are attributes, and which operations belong together does not depend on
attributes (`plan_write`). So a second run finds the same groups, and every operation carries its
own already (`run_of_run`).
-/

namespace TensorIR.Fusion

variable {registry : Registry} {dialect : String} {f g : Func} {p q : Plan}

theorem isReturn_mark (p : Plan) (node : Node) : (mark p node).isReturn = node.op.isReturn := by
  unfold Operation.isReturn
  rw [name_mark]

theorem terminator_write (p : Plan) (f : Func) : (write p f).terminator = f.terminator := by
  have hreturns : (write p f).returns = f.returns := by
    simp [write, Func.returns, List.filter_map, Function.comp_def, isReturn_mark]
  unfold Func.terminator
  rw [hreturns]
  rfl

theorem op?_write (p : Plan) {id : OpId} {op : Operation} (h : f.op? id = some op) :
    (write p f).op? id = some (mark p ⟨id, op⟩) :=
  Body.op?_eq_some_iff.2 (List.mem_map.2 ⟨_, Body.op?_eq_some_iff.1 h, rfl⟩)

/-! ## The same groups -/

theorem opIds_write (p : Plan) (f : Func) : (write p f).opIds = f.opIds := by
  simp [write, Func.opIds, Body.ids, Function.comp_def]

theorem consumers_write (p : Plan) (f : Func) (v : ValueId) :
    (write p f).consumers v = f.consumers v := by
  have htakers : ((write p f).body.nodes.filter fun node => node.op.operands.contains v).map Node.id
      = (f.body.nodes.filter fun node => node.op.operands.contains v).map Node.id := by
    simp [write, List.filter_map, Function.comp_def, operands_mark]
  unfold Func.consumers
  rw [opIds_write, htakers]
  rfl

theorem assign_write (node : Node) :
    assign registry dialect (write p f) q ⟨node.id, mark p node⟩ =
      assign registry dialect f q node := by
  have hjoin : ∀ pattern,
      joinable? (write p f) q (mark p node) pattern = joinable? f q node.op pattern := by
    intro pattern
    unfold joinable?
    rw [operands_mark]
    simp only [consumers_write]
    rfl
  unfold assign isGrouped
  rw [isReturn_mark, name_mark]
  simp only [hjoin]

theorem plan_write (p : Plan) (f : Func) :
    plan registry dialect (write p f) = plan registry dialect f := by
  unfold plan
  generalize ({} : Plan) = q
  change (f.body.nodes.map fun node => (⟨node.id, mark p node⟩ : Node)).foldlM _ q = _
  rw [List.foldlM_map]
  congr 1
  funext q node
  exact assign_write node

theorem staticValues_write (h : f.StaticValues) (p : Plan) : (write p f).StaticValues where
  arguments := h.arguments
  results node hnode v hv := by
    obtain ⟨n, hn, rfl⟩ := List.mem_map.1 hnode
    rw [results_mark] at hv
    exact h.results n hn v hv

/-! ## Marks that are there -/

theorem needsMark_mark (p : Plan) (node : Node) : needsMark p ⟨node.id, mark p node⟩ = false := by
  unfold needsMark
  split
  · rfl
  · next group hgroup =>
    have hattr : (mark p node).attribute? groupAttr = some (.int group) := attribute?_mark hgroup
    simp [hattr]

theorem mark_of_not_needsMark {node : Node} (h : needsMark p node = false) :
    mark p node = node.op := by
  unfold needsMark at h
  unfold mark
  split at h
  · rfl
  · next group hgroup =>
    have hattr : node.op.attribute? groupAttr = some (.int group) := by simpa using h
    simp [Operation.setAttribute, StringMap.insert_of_get? hattr]

/-- An operation needs its mark exactly if the mark changes an attribute. -/
theorem needsMark_iff {node : Node} :
    needsMark p node = true ↔ (mark p node).attributes ≠ node.op.attributes := by
  constructor
  · intro h hsame
    have hattr : (mark p node).attribute? groupAttr = node.op.attribute? groupAttr := by
      rw [Operation.attribute?, hsame, Operation.attribute?]
    unfold needsMark at h
    split at h
    · cases h
    · next group hgroup =>
      rw [attribute?_mark hgroup] at hattr
      simp [← hattr] at h
  · intro h
    by_contra hno
    exact h (congrArg Operation.attributes (mark_of_not_needsMark (eq_false_of_ne_true hno)))

theorem write_of_not_needsMark (h : ∀ node ∈ f.body.nodes, needsMark p node = false) :
    write p f = f := by
  have hbody : f.body.mapOps (mark p) = f.body := by
    simp only [Body.mapOps]
    congr 1
    conv_rhs => rw [← List.map_id f.body.nodes]
    refine List.map_congr_left fun node hnode => ?_
    rw [mark_of_not_needsMark (h node hnode)]
    rfl
  unfold write
  rw [hbody]

theorem write_write (p : Plan) (f : Func) : write p (write p f) = write p f := by
  refine write_of_not_needsMark fun node hnode => ?_
  obtain ⟨n, -, rfl⟩ := List.mem_map.1 hnode
  exact needsMark_mark p n

/-- A second run of fusion changes nothing. -/
theorem run_of_run {changed : Bool} (h : run dialect registry f = ⟨g, .ok changed⟩) :
    run dialect registry g = ⟨g, .ok false⟩ := by
  obtain ⟨hstatic, p, hplan, rfl, -⟩ := run_eq_ok_iff.1 h
  refine run_eq_ok_iff.2 ⟨?_, p, ?_, (write_write p f).symm, ?_⟩
  · rw [checkStatic_eq_ok_iff] at hstatic ⊢
    exact staticValues_write hstatic p
  · rw [plan_write]
    exact hplan
  · rw [eq_comm, List.any_eq_false]
    intro node hnode
    obtain ⟨n, -, rfl⟩ := List.mem_map.1 hnode
    simp [needsMark_mark]

end TensorIR.Fusion
