import TensorIR.Proofs.Inference.Typing
import TensorIR.Proofs.Refinement.Rules

/-!
# Shape inference on refined functions

Two functions that differ only in how much their types know go through shape inference side by side.
Each step keeps the refinement (`inferOp_refines`), hence the whole walk does (`walk_refines`), so
what inference says about a function with dynamic dimensions is never contradicted when these
become known (`run_refines`).
-/

namespace TensorIR

/-- The same function, with a refined type for every value. -/
structure Func.Refines (f f' : Func) : Prop where
  retyped : Func.Retyped f f'
  tys : ∀ v, Option.Rel Ty.Refines (f.valueTy? v) (f'.valueTy? v)

namespace ShapeInference

variable {registry : Registry} {dialect : String} {terminator : OpId} {f f' g g' : Func}

theorem inputs_refines (h : f.Refines f') (op : Operation) :
    (⟨op, f⟩ : Context).inputs.Refines (⟨op, f'⟩ : Context).inputs where
  attributes := rfl
  operands := by
    refine List.rel_map ?_ (List.forall₂_same.2 fun v _ => rfl)
    rintro v _ rfl
    exact h.tys v

/-- A step on both functions keeps the refinement. -/
theorem inferOp_refines {op : Operation} {rule : Relay.Rule} (hrule : rule.Monotone)
    (hnodup : op.results.Nodup) (h : f.Refines f') {changed changed' : Bool}
    (hstep : inferOp f op (ShapeRule.ofInputs rule) = .ok (g, changed))
    (hstep' : inferOp f' op (ShapeRule.ofInputs rule) = .ok (g', changed')) : g.Refines g' := by
  obtain ⟨cs, hcs, hlen, hre, -, hkept, hnew⟩ := inferOp_spec hnodup hstep
  obtain ⟨cs', hcs', -, hre', -, hkept', hnew'⟩ := inferOp_spec hnodup hstep'
  obtain ⟨c, c', rfl, rfl, hc⟩ := hrule _ _ (inputs_refines h op) cs cs'
    (ShapeRule.ofInputs_eq_ok_iff.1 hcs) (ShapeRule.ofInputs_eq_ok_iff.1 hcs')
  obtain ⟨r, hr⟩ : ∃ r, op.results = [r] := List.length_eq_one_iff.1 hlen.symm
  refine ⟨?_, fun v => ?_⟩
  · exact hre.symm.trans (h.retyped.trans hre')
  · by_cases hv : v ∈ op.results
    · obtain rfl : v = r := by simpa [hr] using hv
      have hp : ∀ c : Component, (v, c) ∈ op.results.zip [c] := by simp [hr]
      rw [hnew _ (hp c), hnew' _ (hp c')]
      have htys := h.tys v
      generalize f.valueTy? v = x at htys
      generalize f'.valueTy? v = x' at htys
      cases htys with
      | none => exact .none
      | some hty => exact .some (hc.resolve hty)
    · rw [hkept v hv, hkept' v hv]
      exact h.tys v

/-- Two walks side by side keep the refinement. -/
theorem walk_refines {nodes : List Node} {now now' : Bool}
    (hnodup : ∀ node ∈ nodes, node.op.results.Nodup) (h : f.Refines f')
    (hwalk : walk Relay.registry dialect terminator nodes f = ⟨g, .ok now⟩)
    (hwalk' : walk Relay.registry dialect terminator nodes f' = ⟨g', .ok now'⟩) :
    g.Refines g' := by
  induction nodes generalizing f f' now now' with
  | nil =>
    cases hwalk
    cases hwalk'
    exact h
  | cons node rest ih =>
    rw [List.forall_mem_cons] at hnodup
    -- both walks pass over the operation, or both infer its types
    rcases walk_cons_eq_ok_iff.1 hwalk with
      ⟨hskip, hwalk⟩ | ⟨rule, f₁, now₁, later, hrule, hstep, hwalk, -⟩
    · rcases walk_cons_eq_ok_iff.1 hwalk' with ⟨-, hwalk'⟩ | ⟨_, _, _, _, hrule', -⟩
      · exact ih hnodup.2 h hwalk hwalk'
      · exact absurd hskip (ruleFor?_eq_some_iff.1 hrule').1
    · rcases walk_cons_eq_ok_iff.1 hwalk' with
        ⟨hskip, -⟩ | ⟨rule', f₁', now₁', later', hrule', hstep', hwalk', -⟩
      · exact absurd hskip (ruleFor?_eq_some_iff.1 hrule).1
      · rw [hrule] at hrule'
        cases hrule'
        obtain ⟨r, hr, rfl⟩ := Relay.mem_rules_of_rule? (ruleFor?_eq_some_iff.1 hrule).2
        have hmono := Relay.monotone_of_mem_rules hr
        exact ih hnodup.2 (inferOp_refines hmono hnodup.1 h hstep hstep') hwalk hwalk'

/-- **Dynamic dimensions are a sound abstraction.** If inference succeeds on a function and on a
refinement of it, the types it leaves in the refinement refine those it leaves in the function. -/
theorem run_refines {changed changed' : Bool} (hf : f.Built) (h : f.Refines f')
    (hrun : (run Relay.dialectName Relay.registry f).result = .ok changed)
    (hrun' : (run Relay.dialectName Relay.registry f').result = .ok changed') :
    (run Relay.dialectName Relay.registry f).state.Refines
      (run Relay.dialectName Relay.registry f').state := by
  rcases hg : run Relay.dialectName Relay.registry f with ⟨g, result⟩
  rcases hg' : run Relay.dialectName Relay.registry f' with ⟨g', result'⟩
  rw [hg] at hrun
  rw [hg'] at hrun'
  cases hrun
  cases hrun'
  obtain ⟨t, w, now, signature, ht, hwalk, -, rfl, -⟩ := run_eq_ok_iff.1 hg
  obtain ⟨t', w', now', signature', ht', hwalk', -, rfl, -⟩ := run_eq_ok_iff.1 hg'
  have hterm : f'.terminator = f.terminator := by
    unfold Func.terminator Func.returns
    rw [h.retyped.body, h.retyped.name]
  rw [hterm, ht] at ht'
  cases ht'
  rw [h.retyped.body] at hwalk'
  have hnodup : ∀ node ∈ f.body.nodes, node.op.results.Nodup := fun node hnode =>
    hf.invariant.nodup_results_of_mem (Func.wiring_mem hnode)
  have hw := walk_refines hnodup h hwalk hwalk'
  exact ⟨(hw.retyped.symm.setSignature signature).symm.setSignature signature', hw.tys⟩

/-- Beside an extent 3 a dynamic one counts as 3, and still does if it turns out to be 1. -/
theorem run_refines_flatten :
    let edits (batch channels : Dim) : List Edit :=
      [.addArgument (.tensor ⟨.f32, [batch, channels, .known 2]⟩),
        .pushOp { name := ⟨"relay.constant"⟩ } [.tensor ⟨.f32, [.known 3, .known 1]⟩],
        .pushOp { name := ⟨"relay.add"⟩, operands := [0, 1] } [.scalar .f32],
        .pushOp { name := ⟨"relay.nn.batch_flatten"⟩, operands := [2] } [.scalar .f32],
        .pushOp { name := .terminator, operands := [3] } []]
    let f := (Func.empty "main").after (edits .dynamic .dynamic)
    let f' := (Func.empty "main").after (edits (.known 5) (.known 1))
    let g := (run Relay.dialectName Relay.registry f).state
    let g' := (run Relay.dialectName Relay.registry f').state
    f.Built ∧ f.Refines f' ∧ g.Refines g' ∧
      g.valueTy? 3 = some (.tensor ⟨.f32, [.dynamic, .known 6]⟩) ∧
      g'.valueTy? 3 = some (.tensor ⟨.f32, [.known 5, .known 6]⟩) := by
  intro edits f f' g g'
  have hf : f.Built := ⟨_, _, rfl⟩
  have htys : f.Refines f' := by
    have hf' : f' = (f.retype f'.tys).setSignature f'.signature := by decide +kernel
    have hall : List.Forall₂ Ty.Refines f.tys.toList f'.tys.toList := by decide +kernel
    refine ⟨hf' ▸ (f.retyped_retype f'.tys).setSignature f'.signature, fun v => ?_⟩
    have hv := forall₂_getElem? hall v
    rwa [Array.getElem?_toList, Array.getElem?_toList, Func.getElem?_tys, Func.getElem?_tys] at hv
  have hrun : (run Relay.dialectName Relay.registry f).result = .ok true ∧
      g.valueTy? 3 = some (.tensor ⟨.f32, [.dynamic, .known 6]⟩) := by decide +kernel
  have hrun' : (run Relay.dialectName Relay.registry f').result = .ok true ∧
      g'.valueTy? 3 = some (.tensor ⟨.f32, [.known 5, .known 6]⟩) := by decide +kernel
  exact ⟨hf, htys, run_refines hf htys hrun.1 hrun'.1, hrun.2, hrun'.2⟩

end ShapeInference

end TensorIR
