import TensorIR.Proofs.Func.Renumbering
import TensorIR.Proofs.Fusion.Static

/-!
# Fusion does not see numbers

On the same program in the same order under other numbers, fusion makes the same plan up to the
numbers (`plan_aligned`), so it leaves the same program again, or refuses both functions for types
that are not static (`run_aligned`).
-/

namespace TensorIR

namespace Func

variable {f g : Func} {ops : OpId → OpId} {values : ValueId → ValueId} {v : ValueId}

theorem staticValues_iff : f.StaticValues ↔ ∀ v ∈ f.defined, f.HasStaticTy v := by
  constructor
  · intro h v hv
    rcases List.mem_append.1 hv with harg | hres
    · exact h.arguments v harg
    · obtain ⟨node, hnode, hv⟩ := mem_results_iff_exists.1 hres
      exact h.results node hnode v hv
  · intro h
    exact ⟨fun v hv => h v (mem_defined_of_argument hv),
      fun node hnode v hv => h v (mem_defined_of_result hnode hv)⟩

theorem Aligned.staticValues_iff (h : Aligned f g ops values) :
    g.StaticValues ↔ f.StaticValues := by
  rw [Func.staticValues_iff, Func.staticValues_iff, h.defined_eq, List.forall_mem_map]
  refine forall₂_congr fun v hv => ?_
  rw [HasStaticTy, HasStaticTy, h.tys v hv]

end Func

namespace Fusion

open Func (Aligned Invariant)

variable {registry : Registry} {dialect : String} {f g : Func} {ops : OpId → OpId}
  {values : ValueId → ValueId} {p p' q : Plan} {node : Node}

/-! ## The same plan -/

/-- Operations that stand for each other are in the same groups. -/
structure Plan.Matches (f : Func) (ops : OpId → OpId) (p q : Plan) : Prop where
  anchors : q.anchors = p.anchors
  groupOf? : ∀ id ∈ f.opIds, q.groupOf? (ops id) = p.groupOf? id

theorem Plan.Matches.put (h : Aligned f g ops values) (hm : p.Matches f ops q) {id : OpId}
    (hid : id ∈ f.opIds) (group : Nat) (anchors : Array Pattern) :
    Plan.Matches f ops ⟨p.groups ++ [(id, group)], anchors⟩
      ⟨q.groups ++ [(ops id, group)], anchors⟩ where
  anchors := rfl
  groupOf? id' hid' := by
    have hold : q.groups.lookup (ops id') = p.groups.lookup id' := hm.groupOf? id' hid'
    have heq : (ops id' == ops id) = (id' == id) := by
      rw [Bool.eq_iff_iff, beq_iff_eq, beq_iff_eq]
      exact ⟨h.renumbering.ops_inj hid' hid, congrArg ops⟩
    unfold Plan.groupOf?
    rw [List.lookup_append, List.lookup_append, hold, List.lookup_cons, List.lookup_cons, heq]
    rfl

/-- An operation may join the same group under both numbers. -/
theorem joinable?_aligned (h : Aligned f g ops values) (hf : f.Invariant) (hg : g.Invariant)
    (hm : p.Matches f ops q) (hnode : node ∈ f.body.nodes) (pattern : Pattern) :
    joinable? g q (node.op.rename values) pattern = joinable? f p node.op pattern := by
  unfold joinable?
  cases hops : node.op.operands with
  | nil => simp [Operation.rename, hops]
  | cons first rest =>
    have hrename : (node.op.rename values).operands = values first :: rest.map values := by
      simp [Operation.rename, hops]
    have hfirst : first ∈ node.op.operands := by simp [hops]
    obtain ⟨o, ho, hne⟩ := hf.operand_origin? (Func.wiring_mem hnode) hfirst
    simp only [hrename]
    cases o with
    | erased => exact absurd rfl hne
    | argument n =>
      rw [Func.producer_eq, Func.producer_eq, ho, h.renumbering.origin?_argument hf hg ho]
    | result producer k =>
      have hproducer : producer ∈ f.opIds := hf.producer_mem_opIds ho
      have hconsumers := h.consumers_eq hf hg (hf.operand_mem_defined hnode hfirst)
      rw [hf.consumers_eq ho hne] at hconsumers
      rw [Func.producer_eq, Func.producer_eq, ho, h.renumbering.origin?_result hf hg ho]
      simp only [hm.groupOf? producer hproducer, hm.anchors, hconsumers, hf.consumers_eq ho hne,
        Except.map, List.length_map]

/-- One more operation. -/
theorem assign_aligned (h : Aligned f g ops values) (hf : f.Invariant) (hg : g.Invariant)
    (hnode : node ∈ f.body.nodes) (hm : p.Matches f ops q)
    (hassign : assign registry dialect f p node = .ok p') :
    ∃ q', assign registry dialect g q ⟨ops node.id, node.op.rename values⟩ = .ok q' ∧
      p'.Matches f ops q' := by
  have hid : node.id ∈ f.opIds := List.mem_map_of_mem hnode
  have hgrouped : isGrouped dialect (node.op.rename values) = isGrouped dialect node.op := rfl
  have hname : (node.op.rename values).name = node.op.name := rfl
  unfold assign at hassign ⊢
  simp only [hgrouped, hname, joinable?_aligned h hf hg hm hnode]
  by_cases hyes : isGrouped dialect node.op = true
  · simp only [if_pos hyes] at hassign ⊢
    cases hjoin : joinable? f p node.op (registry.pattern node.op.name.text) with
    | error e => simp [hjoin] at hassign
    | ok found =>
      simp only [hjoin] at hassign ⊢
      cases found with
      | some group =>
        cases hassign
        refine ⟨_, rfl, ?_⟩
        rw [Plan.join, Plan.join, hm.anchors]
        exact hm.put h hid group _
      | none =>
        cases hassign
        refine ⟨_, rfl, ?_⟩
        rw [Plan.start, Plan.start, hm.anchors]
        exact hm.put h hid _ _
  · rw [if_neg hyes] at hassign ⊢
    cases hassign
    exact ⟨q, rfl, hm⟩

theorem plan_aligned (h : Aligned f g ops values) (hf : f.Invariant) (hg : g.Invariant)
    (hplan : plan registry dialect f = .ok p) :
    ∃ q, plan registry dialect g = .ok q ∧ p.Matches f ops q := by
  unfold plan
  rw [h.nodes]
  refine Fallible.exists_foldlM_map ?_ hplan ⟨rfl, fun _ _ => rfl⟩
  intro node hnode p q p' hm hassign
  exact assign_aligned h hf hg hnode hm hassign

/-! ## The same marks -/

theorem mark_aligned (hm : p.Matches f ops q) (hnode : node ∈ f.body.nodes) :
    mark q ⟨ops node.id, node.op.rename values⟩ = (mark p node).rename values := by
  unfold mark
  rw [hm.groupOf? node.id (List.mem_map_of_mem hnode)]
  cases p.groupOf? node.id <;> rfl

theorem needsMark_aligned (hm : p.Matches f ops q) (hnode : node ∈ f.body.nodes) :
    needsMark q ⟨ops node.id, node.op.rename values⟩ = needsMark p node := by
  unfold needsMark
  rw [hm.groupOf? node.id (List.mem_map_of_mem hnode)]
  rfl

theorem defined_write (p : Plan) (f : Func) : (write p f).defined = f.defined := by
  simp [write, Func.defined, Func.results, Body.ops, List.flatMap_map, results_mark]

theorem write_aligned (h : Aligned f g ops values) (hm : p.Matches f ops q) :
    Aligned (write p f) (write q g) ops values where
  name := h.name
  arguments := h.arguments
  nodes := by
    unfold write
    rw [Body.nodes_mapOps, Body.nodes_mapOps, h.nodes, List.map_map, List.map_map]
    apply List.map_congr_left
    intro node hnode
    exact congrArg (Node.mk (ops node.id)) (mark_aligned hm hnode)
  tys := by
    rw [defined_write]
    exact h.tys
  signature := h.signature

/-! ## The run -/

/-- A value of the program has a type, so a check of it can only find that it is not static. -/
theorem kind_of_check (hf : f.Invariant) {v : ValueId} (hv : v ∈ f.defined) {report : Ty → Error}
    (hreport : ∀ ty, (report ty).kind = .pass) {e : Error}
    (h : (do
      let ty ← f.valueTy v
      if ty.isStatic then .ok () else .error (report ty) : Except Error Unit) = .error e) :
    e.kind = .pass := by
  obtain ⟨ty, hty⟩ := hf.exists_valueTy? hv
  rcases Fallible.bind_eq_error_iff.1 h with hnone | ⟨ty', -, h⟩
  · rw [Func.valueTy_eq_ok_iff.2 hty] at hnone
    cases hnone
  · split at h
    · cases h
    · cases h
      exact hreport ty'

/-- What fusion refuses, it refuses for types that are not static. -/
theorem run_of_not_static (dialect : String) (registry : Registry) (hf : f.Invariant)
    (h : ¬f.StaticValues) : ∃ e, run dialect registry f = ⟨f, .error e⟩ ∧ e.kind = .pass := by
  cases hcheck : checkStatic f with
  | ok u => exact absurd (checkStatic_eq_ok_iff.1 hcheck) h
  | error e =>
    refine ⟨e, by rw [run, hcheck], ?_⟩
    rcases Fallible.bind_eq_error_iff.1 hcheck with hargs | ⟨_, -, hresults⟩
    · obtain ⟨v, hv, he⟩ := Fallible.exists_of_forM_eq_error hargs
      exact kind_of_check hf (Func.mem_defined_of_argument hv) (fun _ => rfl) he
    · obtain ⟨op, hop, he⟩ := Fallible.exists_of_forM_eq_error hresults
      obtain ⟨node, hnode, rfl⟩ := List.mem_map.1 hop
      obtain ⟨v, hv, he⟩ := Fallible.exists_of_forM_eq_error he
      exact kind_of_check hf (Func.mem_defined_of_result hnode hv) (fun _ => rfl) he

/-- Fusion keeps the invariant, whether it succeeds or fails. -/
theorem invariant_run (hf : f.Invariant) (dialect : String) (registry : Registry) :
    (run dialect registry f).state.Invariant := by
  unfold run
  split
  · exact hf
  · split
    · exact hf
    · exact invariant_write hf _

/-- The same program in the same order under other numbers gets the same answer, and is the same
program afterwards. Only an error may name other numbers. -/
theorem run_aligned (h : Aligned f g ops values) (hf : f.Invariant) (hg : g.Invariant)
    (dialect : String) (registry : Registry) :
    (run dialect registry g).result.mapError Error.kind =
      (run dialect registry f).result.mapError Error.kind ∧
    Aligned (run dialect registry f).state (run dialect registry g).state ops values := by
  by_cases hstatic : f.StaticValues
  · have hstatic' : g.StaticValues := h.staticValues_iff.2 hstatic
    obtain ⟨p, hp⟩ := exists_plan registry dialect hf
    obtain ⟨q, hq, hm⟩ := plan_aligned h hf hg hp
    have hany : g.body.nodes.any (needsMark q) = f.body.nodes.any (needsMark p) := by
      rw [h.nodes, List.any_map, Bool.eq_iff_iff, List.any_eq_true, List.any_eq_true]
      refine exists_congr fun node => and_congr_right fun hnode => ?_
      rw [Function.comp_apply, needsMark_aligned hm hnode]
    rw [run_eq_ok_iff.2 ⟨checkStatic_eq_ok_iff.2 hstatic, p, hp, rfl, rfl⟩,
      run_eq_ok_iff.2 ⟨checkStatic_eq_ok_iff.2 hstatic', q, hq, rfl, rfl⟩, hany]
    exact ⟨rfl, write_aligned h hm⟩
  · have hstatic' : ¬g.StaticValues := fun hg => hstatic (h.staticValues_iff.1 hg)
    obtain ⟨e, hrun, hkind⟩ := run_of_not_static dialect registry hf hstatic
    obtain ⟨e', hrun', hkind'⟩ := run_of_not_static dialect registry hg hstatic'
    rw [hrun, hrun']
    exact ⟨by simp only [Except.mapError, hkind, hkind'], h⟩

end Fusion

end TensorIR
