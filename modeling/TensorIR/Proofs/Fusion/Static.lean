import TensorIR.Proofs.Fusion.Groups
import TensorIR.Proofs.Inference.Step

/-!
# When fusion succeeds

Fusion asks for static types, and on a function that satisfies the invariant this is all it asks
for: operands are there, so producers and consumers can always be found (`exists_plan`), and a run
succeeds exactly if all types are static (`run_succeeds_iff`).
-/

namespace TensorIR

/-- The value is there, and its type leaves no dimension open. -/
def Func.HasStaticTy (f : Func) (v : ValueId) : Prop :=
  ∃ ty, f.valueTy? v = some ty ∧ ty.isStatic = true

instance (f : Func) (v : ValueId) : Decidable (f.HasStaticTy v) :=
  decidable_of_iff ((f.valueTy? v).any Ty.isStatic = true) (Option.any_eq_true ..)

/-- Every argument and every result of an operation has a static type. -/
structure Func.StaticValues (f : Func) : Prop where
  arguments : ∀ v ∈ f.arguments, f.HasStaticTy v
  results : ∀ node ∈ f.body.nodes, ∀ v ∈ node.op.results, f.HasStaticTy v

namespace Fusion

variable {registry : Registry} {dialect : String} {f : Func} {p : Plan} {node : Node}

/-! ## Static types -/

theorem checkArgument_eq_ok_iff {v : ValueId} :
    checkArgument f v = .ok () ↔ f.HasStaticTy v := by
  unfold checkArgument Func.HasStaticTy
  simp only [Fallible.bind_eq_ok_iff, Func.valueTy_eq_ok_iff, ite_eq_left_iff, reduceCtorEq,
    imp_false, not_not]

theorem checkResult_eq_ok_iff {op : Operation} {v : ValueId} :
    checkResult f op v = .ok () ↔ f.HasStaticTy v := by
  unfold checkResult Func.HasStaticTy
  simp only [Fallible.bind_eq_ok_iff, Func.valueTy_eq_ok_iff, ite_eq_left_iff, reduceCtorEq,
    imp_false, not_not]

theorem checkStatic_eq_ok_iff : checkStatic f = .ok () ↔ f.StaticValues := by
  have hresults : (f.body.ops.forM fun op => op.results.forM (checkResult f op)) = .ok () ↔
      ∀ node ∈ f.body.nodes, ∀ v ∈ node.op.results, f.HasStaticTy v := by
    simp only [Body.ops, Fallible.forM_eq_ok_iff, List.forall_mem_map, checkResult_eq_ok_iff]
  have harguments : f.arguments.forM (checkArgument f) = .ok () ↔
      ∀ v ∈ f.arguments, f.HasStaticTy v := by
    simp only [Fallible.forM_eq_ok_iff, checkArgument_eq_ok_iff]
  unfold checkStatic
  rw [Fallible.bind_eq_ok_iff]
  constructor
  · intro h
    obtain ⟨_, ha, hr⟩ := h
    exact ⟨harguments.1 ha, hresults.1 hr⟩
  · intro h
    exact ⟨(), harguments.2 h.arguments, hresults.2 h.results⟩

/-! ## Groups -/

/-- A group can be looked for: the first operand is an argument or a result. -/
theorem exists_joinable? (hf : f.Invariant) (hnode : node ∈ f.body.nodes) (p : Plan)
    (pattern : Pattern) : ∃ found, joinable? f p node.op pattern = .ok found := by
  unfold joinable?
  split
  · exact ⟨_, rfl⟩
  · next first rest hops =>
    obtain ⟨o, ho, hne⟩ := hf.operand_origin? (v := first) (Func.wiring_mem hnode)
      (by simp [Node.wiring, hops])
    rw [Func.producer_eq, ho]
    cases o with
    | erased => exact absurd rfl hne
    | argument n => exact ⟨_, rfl⟩
    | result producer k =>
      simp only [hf.consumers_eq ho hne]
      split
      · exact ⟨_, rfl⟩
      · split <;> exact ⟨_, rfl⟩

theorem exists_assign (hf : f.Invariant) (hnode : node ∈ f.body.nodes) (p : Plan) :
    ∃ p', assign registry dialect f p node = .ok p' := by
  unfold assign
  split
  · obtain ⟨found, hfound⟩ := exists_joinable? hf hnode p (registry.pattern node.op.name.text)
    simp only [hfound]
    cases found <;> exact ⟨_, rfl⟩
  · exact ⟨p, rfl⟩

theorem exists_plan (registry : Registry) (dialect : String) (hf : f.Invariant) :
    ∃ p, plan registry dialect f = .ok p :=
  Fallible.exists_foldlM fun p _ hnode => exists_assign hf hnode p

/-- Fusion succeeds exactly on static types. -/
theorem run_succeeds_iff (hf : f.Invariant) :
    (∃ changed, (run dialect registry f).result = .ok changed) ↔ f.StaticValues := by
  rw [← checkStatic_eq_ok_iff]
  unfold run
  obtain ⟨p, hp⟩ := exists_plan registry dialect hf
  cases hstatic : checkStatic f with
  | error e => simp
  | ok u => simp [hp]

end Fusion

end TensorIR
