import TensorIR.Proofs.Inference.Typing

/-!
# What a failed inference leaves

A run fails before it has touched anything, for want of the one return, or it stops at an operation
whose rule refuses to answer. Since the types of an operation's results are written all at once or
not at all, what is left in the second case is the typing of the operations in front of that one
(`StoppedAt`), and nothing else has changed. `run_stops` says that there is no third case.
-/

namespace TensorIR

theorem Func.terminator_eq_error {f : Func} {e : Error} (h : f.terminator = .error e) :
    f.returns.length ≠ 1 ∧ e.kind = .malformed := by
  unfold Func.terminator at h
  split at h
  · cases h
  · next hnone =>
    cases h
    exact ⟨by simp [hnone], rfl⟩
  · next hone _ =>
    cases h
    refine ⟨fun hlen => ?_, rfl⟩
    obtain ⟨id, hid⟩ := List.length_eq_one_iff.1 hlen
    exact hone id hid

namespace ShapeInference

open Func (Retyped)

variable {registry : Registry} {dialect : String} {terminator : OpId} {f g : Func} {e : Error}
  {pre post nodes : List Node} {node : Node}

/-! ## Prefixes of the body -/

theorem Forward.left (h : Forward (pre ++ post)) : Forward pre := by
  induction pre with
  | nil => trivial
  | cons node pre ih =>
    obtain ⟨hoperands, hresults, hnodup, hrest⟩ := h
    refine ⟨?_, ?_, hnodup, ih hrest⟩
    · intro v hv later hin
      exact hoperands v hv later (List.mem_append_left post hin)
    · intro v hv later hin
      exact hresults v hv later (List.mem_append_left post hin)

theorem Forward.disjoint (h : Forward (pre ++ post)) {earlier later : Node} (he : earlier ∈ pre)
    (hl : later ∈ post) {v : ValueId} (hv : v ∈ earlier.op.results) : v ∉ later.op.results := by
  induction pre with
  | nil => cases he
  | cons node pre ih =>
    obtain ⟨-, hresults, -, hrest⟩ := h
    rcases List.mem_cons.1 he with rfl | he
    · exact hresults v hv later (List.mem_append_right pre hl)
    · exact ih hrest he

/-! ## The operation that fails -/

theorem kind_blame (op : Operation) (e : Error) : (blame op e).kind = .shapeInference := by
  unfold blame
  split
  · next h => exact h
  · rfl

/-- A step fails exactly for want of an answer with a component for each result. -/
theorem inferOp_eq_error {op : Operation} {rule : ShapeRule}
    (hresults : ∀ v ∈ op.results, v < f.values.size) (h : inferOp f op rule = .error e) :
    e.kind = .shapeInference ∧ ∀ cs, rule ⟨op, f⟩ = .ok cs → cs.length ≠ op.results.length := by
  constructor
  · unfold inferOp at h
    split at h
    · next hcs =>
      cases h
      unfold components at hcs
      split at hcs
      · cases hcs
        exact kind_blame ..
      · split at hcs
        · cases hcs
        · cases hcs
          rfl
    · next cs _ =>
      -- the types of the results can be read
      have hold : ∀ p ∈ op.results.zip cs, ∃ old, f.valueTy? p.1 = some old := fun p hp =>
        Func.exists_valueTy?_iff.2 (hresults p.1 (List.of_mem_zip hp).1)
      rw [updates_eq_ok_iff.2 ⟨hold, rfl⟩] at h
      cases h
  · intro cs hcs hlen
    rw [inferOp_eq_ok_iff.2 ⟨cs, hcs, hlen, hresults, rfl, rfl⟩] at h
    cases h

/-- A walk that fails has succeeded on all operations in front of some operation, and stops in the
state in which that one fails. -/
theorem walk_eq_error (h : walk registry dialect terminator nodes f = ⟨g, .error e⟩) :
    ∃ pre node post now rule, nodes = pre ++ node :: post ∧
      walk registry dialect terminator pre f = ⟨g, .ok now⟩ ∧
      ruleFor? registry dialect terminator node = some rule ∧
      inferOp g node.op rule = .error e := by
  induction nodes generalizing f with
  | nil => cases h
  | cons first rest ih =>
    rw [walk] at h
    cases hrule : ruleFor? registry dialect terminator first with
    | none =>
      simp only [hrule] at h
      obtain ⟨pre, node, post, now, rule, rfl, hpre, hnode, hfail⟩ := ih h
      refine ⟨first :: pre, node, post, now, rule, rfl, ?_, hnode, hfail⟩
      exact walk_cons_eq_ok_iff.2 (.inl ⟨ruleFor?_eq_none_iff.1 hrule, hpre⟩)
    | some rule =>
      cases hstep : inferOp f first.op rule with
      | error e' =>
        simp only [hrule, hstep] at h
        cases h
        exact ⟨[], first, rest, false, rule, rfl, rfl, hrule, hstep⟩
      | ok p =>
        obtain ⟨f₁, changed⟩ := p
        rcases hwalk : walk registry dialect terminator rest f₁ with ⟨g', result⟩
        simp only [hrule, hstep, hwalk] at h
        cases result with
        | ok later => cases h
        | error e' =>
          cases h
          obtain ⟨pre, node, post, now, rule', rfl, hpre, hnode, hfail⟩ := ih hwalk
          refine ⟨first :: pre, node, post, changed || now, rule', rfl, ?_, hnode, hfail⟩
          exact walk_cons_eq_ok_iff.2 (.inr ⟨rule, f₁, changed, now, hrule, hstep, hpre, rfl⟩)

/-! ## The state it leaves -/

/-- Inference of `f` has stopped at `node` and left `g`. -/
structure StoppedAt (registry : Registry) (dialect : String) (terminator : OpId) (f g : Func)
    (pre : List Node) (node : Node) (post : List Node) : Prop where
  body : f.body.nodes = pre ++ node :: post
  live : ¬Skipped registry dialect terminator node
  /-- The rule fails on the types that are there, or it does not infer one component for each
  result. -/
  refused : ∀ rule, registry.rule? node.op.name.text = some rule →
    ∀ cs, rule ⟨node.op, g⟩ = .ok cs → cs.length ≠ node.op.results.length
  /-- The walk over the operations in front succeeds and ends with the types that are there. -/
  reached : ∃ now, walk registry dialect terminator pre f = ⟨g, .ok now⟩
  /-- These types solve the equations of the operations in front, -/
  solves : Solves registry dialect terminator pre f g
  /-- and no others do. -/
  unique : ∀ h, Solves registry dialect terminator pre f h → ∀ v, h.valueTy? v = g.valueTy? v
  results : ∀ later ∈ node :: post, ∀ v ∈ later.op.results, g.valueTy? v = f.valueTy? v
  arguments : ∀ v ∈ f.arguments, g.valueTy? v = f.valueTy? v
  signature : g.signature = f.signature
  retyped : Retyped f g

theorem walk_stops (hr : registry.Pure) (hf : f.Invariant)
    (h : walk registry dialect terminator f.body.nodes f = ⟨g, .error e⟩) :
    e.kind = .shapeInference ∧
      ∃ pre node post, StoppedAt registry dialect terminator f g pre node post := by
  obtain ⟨pre, node, post, now, rule, hnodes, hpre, hrule, hfail⟩ := walk_eq_error h
  have hforward := forward_of_invariant hf
  rw [hnodes] at hforward
  obtain ⟨hre, hsig, hsol⟩ := walk_solves hr hforward.left hpre
  obtain ⟨hlive, hrule'⟩ := ruleFor?_eq_some_iff.1 hrule
  have hresults : ∀ v ∈ node.op.results, v < g.values.size := by
    intro v hv
    rw [hre.size_eq]
    exact hf.result_lt (by simp [hnodes]) hv
  obtain ⟨hkind, hrefused⟩ := inferOp_eq_error hresults hfail
  refine ⟨hkind, pre, node, post, hnodes, hlive, ?_, ⟨now, hpre⟩, hsol, ?_, ?_, ?_, hsig, hre⟩
  · intro rule' hrule''
    obtain rfl : rule' = rule := by simpa [hrule'] using hrule''.symm
    exact hrefused
  · intro s hs v
    obtain ⟨w, later, hwalk, htys⟩ := walk_of_solution hr hforward.left
      (fun n hn v hv => hf.result_lt (by simp [hnodes, hn]) hv) hs.inferred
      (fun _ _ _ _ _ => rfl) (fun v hv => (hs.kept v hv).symm)
    rw [hpre] at hwalk
    cases hwalk
    exact (htys v).symm
  · intro later hlater v hv
    refine hsol.kept v fun n hn _ hin => ?_
    exact hforward.disjoint hn hlater hin hv
  · intro v hv
    refine hsol.kept v fun n hn _ => ?_
    exact hf.notMem_results_of_mem_arguments (by simp [hnodes, hn]) hv

/-- Once the walk is through, a built function cannot fail: the signature can be read off. -/
theorem run_eq_error (hr : registry.Pure) (hf : f.Invariant)
    (h : run dialect registry f = ⟨g, .error e⟩) :
    f.terminator = .error e ∧ g = f ∨
      ∃ t, f.terminator = .ok t ∧ walk registry dialect t f.body.nodes f = ⟨g, .error e⟩ := by
  unfold run at h
  cases ht : f.terminator with
  | error e' =>
    simp only [ht] at h
    cases h
    exact .inl ⟨rfl, rfl⟩
  | ok t =>
    rcases hwalk : walk registry dialect t f.body.nodes f with ⟨w, result⟩
    cases result with
    | error e' =>
      simp only [ht, hwalk] at h
      cases h
      exact .inr ⟨t, rfl, hwalk⟩
    | ok now =>
      obtain ⟨hre, -, -⟩ := walk_solves hr (forward_of_invariant hf) hwalk
      obtain ⟨op, hop, -⟩ := Func.exists_op?_of_terminator ht
      have hop' : w.op? t = some op := by
        rw [← hop, Func.op?, Func.op?, hre.body]
      obtain ⟨signature, hsig⟩ := exists_actualSignature (hre.invariant hf) hop'
      simp only [ht, hwalk, reconcile_eq_ok_iff.2 ⟨signature, hsig, rfl, rfl⟩] at h
      cases h

/-- **A failed run leaves the inferred prefix.** On a built function it fails because there is not
exactly one return, and leaves the function as it is; or it has stopped at an operation. -/
theorem run_stops (hf : f.Built) (hr : registry.Pure) (dialect : String)
    (h : (run dialect registry f).result = .error e) :
    let g := (run dialect registry f).state
    f.returns.length ≠ 1 ∧ e.kind = .malformed ∧ g = f ∨
      e.kind = .shapeInference ∧ ∃ t pre node post,
        f.terminator = .ok t ∧ StoppedAt registry dialect t f g pre node post := by
  have hinv := hf.invariant
  rcases hrun : run dialect registry f with ⟨g, result⟩
  rw [hrun] at h
  cases h
  rcases run_eq_error hr hinv hrun with ⟨ht, rfl⟩ | ⟨t, ht, hwalk⟩
  · obtain ⟨hreturns, hkind⟩ := Func.terminator_eq_error ht
    exact .inl ⟨hreturns, hkind, rfl⟩
  · obtain ⟨hkind, pre, node, post, hstopped⟩ := walk_stops hr hinv hwalk
    exact .inr ⟨hkind, t, pre, node, post, ht, hstopped⟩

/-- The third operation has one result where its rule infers two; the first, with two results, has
got both types, and the fourth, which its rule could type, has got none. -/
theorem run_stops_at_third :
    let ty : Ty := .scalar .f32
    let pair : ShapeRule := .fixed [⟨[.known 2], none⟩, ⟨[], some .i8⟩]
    let registry := Registry.ofList
      [{ name := "t.pair", rule := some pair }, { name := "t.copy", rule := some .copyFirst }]
    let f := (Func.empty "main").after
      [.addArgument ty,
        .pushOp { name := ⟨"t.pair"⟩ } [ty, ty],
        .pushOp { name := ⟨"t.copy"⟩, operands := [1] } [ty],
        .pushOp { name := ⟨"t.pair"⟩, operands := [3] } [ty],
        .pushOp { name := ⟨"t.copy"⟩, operands := [3] } [ty],
        .pushOp { name := .terminator, operands := [5] } []]
    let g := (run "t" registry f).state
    let row : Ty := .tensor ⟨.f32, [.known 2]⟩
    f.Built ∧ registry.Pure ∧
      (run "t" registry f).result = .error (.resultCount "t.pair" 2 1) ∧
      (∃ t pre node post, f.terminator = .ok t ∧ StoppedAt registry "t" t f g pre node post) ∧
      g.tys = #[ty, row, .scalar .i8, row, ty, ty] := by
  intro ty pair registry f g row
  have hf : f.Built := ⟨_, _, rfl⟩
  have hr : registry.Pure := by
    refine Registry.pure_ofList fun o ho rule hrule => ?_
    simp only [List.mem_cons, List.not_mem_nil, or_false] at ho
    rcases ho with rfl | rfl
    · cases hrule
      exact fun _ _ _ => rfl
    · cases hrule
      rw [ShapeRule.copyFirst_eq]
      exact ShapeRule.pure_ofInputs _
  obtain ⟨hrun, htys⟩ : (run "t" registry f).result = .error (.resultCount "t.pair" 2 1) ∧
      g.tys = #[ty, row, .scalar .i8, row, ty, ty] := by decide +kernel
  rcases run_stops hf hr "t" hrun with ⟨-, hkind, -⟩ | ⟨-, hstopped⟩
  · cases hkind
  · exact ⟨hf, hr, hrun, hstopped, htys⟩

end ShapeInference

end TensorIR
