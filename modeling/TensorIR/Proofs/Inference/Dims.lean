import TensorIR.Proofs.Func.Renumbering
import TensorIR.Proofs.Inference.Typing
import TensorIR.Proofs.Relay.Static

/-!
# What holds of all dimensions after inference

A property of dimensions that holds of the types that inference has no say in holds of all types
after it exactly if the rules, asked about operands that have the property, infer components that
have it (`Solves.forall_dims_iff`).
-/

namespace TensorIR

/-- The value is there, and its dimensions have the property. -/
def Func.DimsHave (P : List Dim → Prop) (f : Func) (v : ValueId) : Prop :=
  ∃ ty, f.valueTy? v = some ty ∧ P ty.dims

instance (P : List Dim → Prop) [DecidablePred P] (f : Func) (v : ValueId) :
    Decidable (f.DimsHave P v) :=
  decidable_of_iff ((f.valueTy? v).any (fun ty => decide (P ty.dims)) = true)
    (by simp [Func.DimsHave, Option.any_eq_true])

namespace ShapeInference

variable {P : List Dim → Prop} {registry : Registry} {dialect : String} {terminator : OpId}
  {f g : Func} {node : Node}

/-- The return belongs to a dialect of its own, so what is passed over in any other dialect has no
rule there. -/
theorem foreign_of_skipped (hterm : f.terminator = .ok terminator)
    (hdialect : OpName.terminator.dialect ≠ dialect) (hnode : node ∈ f.body.nodes)
    (hskip : Skipped registry dialect terminator node) :
    node.op.name.dialect ≠ dialect ∨ registry.rule? node.op.name.text = none := by
  rcases hskip with hid | hskip
  · obtain ⟨op, hop, hreturn⟩ := Func.exists_op?_of_terminator hterm
    have hnode' : f.op? node.id = some node.op := Body.op?_eq_some_iff.2 hnode
    obtain rfl : op = node.op := by simpa [hid, hop] using hnode'
    have hname : node.op.name = OpName.terminator := by
      simpa [Operation.isReturn] using hreturn
    rw [hname]
    exact .inl hdialect
  · exact hskip

/-- An operation with a rule of the dialect is visited. -/
theorem ruleFor?_of_rule? (hterm : f.terminator = .ok terminator) (hnode : node ∈ f.body.nodes)
    {rule : ShapeRule} (hrule : Relay.registry.rule? node.op.name.text = some rule) :
    ruleFor? Relay.registry Relay.dialectName terminator node = some rule := by
  refine ruleFor?_eq_some_iff.2 ⟨fun hskip => ?_, hrule⟩
  rcases foreign_of_skipped hterm (by decide) hnode hskip with hforeign | hnone
  · exact hforeign (Relay.dialect_of_rule? hrule)
  · rw [hnone] at hrule
    cases hrule

theorem forall_inputs_of_dimsHave {op : Operation} (h : ∀ v ∈ op.operands, g.DimsHave P v) :
    ∀ ty, some ty ∈ (⟨op, g⟩ : Context).inputs.operands → P ty.dims := by
  intro ty hty
  obtain ⟨v, hv, htyv⟩ := List.mem_map.1 hty
  obtain ⟨ty', hty', hP⟩ := h v hv
  obtain rfl : ty' = ty := by simpa [hty'] using htyv
  exact hP

/-- The dimensions of the results are those of the components. -/
theorem dimsHave_results_iff {cs : List Component}
    (hresults : ∀ v ∈ node.op.results, v < f.values.size)
    (hlen : cs.length = node.op.results.length)
    (hsol : ∀ p ∈ node.op.results.zip cs, g.valueTy? p.1 = (f.valueTy? p.1).map p.2.resolve) :
    (∀ v ∈ node.op.results, g.DimsHave P v) ↔ ∀ c ∈ cs, P c.dims := by
  have hpair : ∀ p ∈ node.op.results.zip cs, g.DimsHave P p.1 ↔ P p.2.dims := by
    rintro ⟨v, c⟩ hp
    obtain ⟨old, hold⟩ := Func.exists_valueTy?_iff.2 (hresults v (List.of_mem_zip hp).1)
    simp [Func.DimsHave, hsol _ hp, hold, c.dims_resolve]
  have hfst : (node.op.results.zip cs).map Prod.fst = node.op.results :=
    List.map_fst_zip (by omega)
  have hsnd : (node.op.results.zip cs).map Prod.snd = cs := List.map_snd_zip (by omega)
  rw [← hfst, ← hsnd, List.forall_mem_map, List.forall_mem_map, hsnd]
  constructor
  · intro h p hp
    exact (hpair p hp).1 (h p hp)
  · intro h p hp
    exact (hpair p hp).2 (h p hp)

namespace Solves

variable (hsol : Solves registry dialect terminator f.body.nodes f g)

include hsol

theorem dimsHave_of_kept {v : ValueId} (h : f.DimsHave P v)
    (hv : ∀ node ∈ f.body.nodes, ¬Skipped registry dialect terminator node →
      v ∉ node.op.results) : g.DimsHave P v := by
  obtain ⟨ty, hty, hP⟩ := h
  exact ⟨ty, (hsol.kept v hv).trans hty, hP⟩

/-- All dimensions have the property if the rules keep to it, and only then. -/
theorem forall_dims_iff (hf : f.Invariant) (harguments : ∀ v ∈ f.arguments, f.DimsHave P v)
    (hskipped : ∀ node ∈ f.body.nodes, Skipped registry dialect terminator node →
      ∀ v ∈ node.op.results, f.DimsHave P v) :
    (∀ v ∈ f.defined, g.DimsHave P v) ↔
      ∀ node ∈ f.body.nodes, ∀ rule, ruleFor? registry dialect terminator node = some rule →
        (∀ v ∈ node.op.operands, g.DimsHave P v) →
          ∀ cs, rule ⟨node.op, g⟩ = .ok cs → ∀ c ∈ cs, P c.dims := by
  have hresults : ∀ {node rule cs}, node ∈ f.body.nodes →
      ruleFor? registry dialect terminator node = some rule → rule ⟨node.op, g⟩ = .ok cs →
      ((∀ v ∈ node.op.results, g.DimsHave P v) ↔ ∀ c ∈ cs, P c.dims) := by
    intro node rule cs hnode hrule hcs
    obtain ⟨cs', hcs', hlen, htys⟩ := hsol.inferred node hnode rule hrule
    obtain rfl : cs' = cs := by simpa [hcs'] using hcs
    exact dimsHave_results_iff (fun v hv => hf.result_lt hnode hv) hlen htys
  constructor
  · intro h node hnode rule hrule _ cs hcs
    exact (hresults hnode hrule hcs).1 fun v hv => h v (Func.mem_defined_of_result hnode hv)
  · intro h
    have harguments' : ∀ v ∈ f.arguments, g.DimsHave P v := by
      intro v hv
      refine hsol.dimsHave_of_kept (harguments v hv) fun node hnode _ => ?_
      exact hf.notMem_results_of_mem_arguments hnode hv
    have hbody := hf.value_induct harguments' fun node hnode hoperands => by
      by_cases hskip : Skipped registry dialect terminator node
      · intro v hv
        refine hsol.dimsHave_of_kept (hskipped node hnode hskip v hv) fun n hn hlive hin => ?_
        -- a value is a result of one operation only
        obtain rfl := hf.node_unique hnode hn hv hin
        exact hlive hskip
      · obtain ⟨rule, hrule⟩ := exists_rule_of_not_skipped hskip
        obtain ⟨cs, hcs, -⟩ := hsol.inferred node hnode rule hrule
        exact (hresults hnode hrule hcs).2 (h node hnode rule hrule hoperands cs hcs)
    intro v hv
    rcases List.mem_append.1 hv with harg | hres
    · exact harguments' v harg
    · obtain ⟨node, hnode, hv⟩ := Func.mem_results_iff_exists.1 hres
      exact (hbody node hnode).2 v hv

end Solves

end ShapeInference

end TensorIR
