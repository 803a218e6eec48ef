import TensorIR.Proofs.Func.Renumbering
import TensorIR.Proofs.Inference.Settled

/-!
# Shape inference does not depend on the order

Two functions that are the same program in different orders and under different numbers are walked
over differently, and a rule that fails may be met sooner in one than in the other. What decides is
the equations that the rules set up, and these are the same: a solution for one function, read
through the renumbering, solves the equations of the other (`Solves.pull`). Since a walk arrives at
the solution if there is one, it does so on both functions or on neither
(`run_order_independent`).
-/

namespace TensorIR.ShapeInference

open Func (Retyped Renumbering Invariant)

variable {registry : Registry} {dialect : String} {f g f' g' : Func} {ops : OpId → OpId}
  {values : ValueId → ValueId} {t : OpId}

/-- An operation and the one that stands for it have the same rule, or none. -/
theorem ruleFor?_renumbered (h : Renumbering f g ops values) (ht : t ∈ f.opIds) {node : Node}
    {op : Operation} (hnode : node ∈ f.body.nodes) (hsame : node.op.SameUnder values op) :
    ruleFor? registry dialect (ops t) ⟨ops node.id, op⟩ = ruleFor? registry dialect t node := by
  have hid : ops node.id = ops t ↔ node.id = t :=
    ⟨h.ops_inj (List.mem_map_of_mem hnode) ht, congrArg ops⟩
  simp only [ruleFor?, hsame.name, hid]

theorem skipped_renumbered_iff (h : Renumbering f g ops values) (ht : t ∈ f.opIds) {node : Node}
    {op : Operation} (hnode : node ∈ f.body.nodes) (hsame : node.op.SameUnder values op) :
    Skipped registry dialect (ops t) ⟨ops node.id, op⟩ ↔ Skipped registry dialect t node := by
  rw [← ruleFor?_eq_none_iff, ← ruleFor?_eq_none_iff, ruleFor?_renumbered h ht hnode hsame]

/-- A rule sees the same of an operation and of the one that stands for it, if their operands have
the same types. -/
theorem inputs_renumbered {op op' : Operation} (hsame : op.SameUnder values op')
    (htys : ∀ v ∈ op.operands, f'.valueTy? v = g'.valueTy? (values v)) :
    (⟨op', g'⟩ : Context).inputs = (⟨op, f'⟩ : Context).inputs := by
  unfold Context.inputs
  rw [hsame.operands, hsame.attributes, List.map_map]
  congr 1
  exact List.map_congr_left fun v hv => (htys v hv).symm

/-- A solution for one function, read through the renumbering, is one for the other. -/
theorem Solves.pull (hr : registry.Pure) (hf : f.Invariant) (hg : g.Invariant)
    (h : Renumbering f g ops values) (ht : t ∈ f.opIds)
    (hsol : Solves registry dialect (ops t) g.body.nodes g g')
    (hdefined : ∀ v ∈ f.defined, f'.valueTy? v = g'.valueTy? (values v))
    (hother : ∀ v ∉ f.defined, f'.valueTy? v = f.valueTy? v) :
    Solves registry dialect t f.body.nodes f f' where
  kept v hv := by
    by_cases hdef : v ∈ f.defined
    · rw [hdefined v hdef, ← h.tys v hdef]
      apply hsol.kept
      intro node hnode hlive hres
      obtain ⟨n, hn, hid, hsame⟩ := h.exists_of_mem_nodes hnode
      obtain ⟨id, op⟩ := node
      cases hid
      have hlive' : ¬Skipped registry dialect t n :=
        fun hskip => hlive ((skipped_renumbered_iff h ht hn hsame).2 hskip)
      rw [hsame.results, h.mem_map_values_iff hg (fun _ => Func.mem_defined_of_result hn) hdef]
        at hres
      exact hv n hn hlive' hres
    · exact hother v hdef
  inferred node hnode rule hrule := by
    obtain ⟨op, hop, hsame⟩ := h.exists_mem_nodes hnode
    have hrule' : ruleFor? registry dialect (ops t) ⟨ops node.id, op⟩ = some rule :=
      (ruleFor?_renumbered h ht hnode hsame).trans hrule
    obtain ⟨cs, hcs, hlen, hinf⟩ := hsol.inferred _ hop rule hrule'
    have hinputs := inputs_renumbered hsame fun v hv =>
      hdefined v (hf.operand_mem_defined hnode hv)
    refine ⟨cs, (hr _ _ (ruleFor?_eq_some_iff.1 hrule).2).ok hinputs hcs, ?_, ?_⟩
    · rw [hlen, hsame.results, List.length_map]
    · rintro ⟨v, c⟩ hp
      have hdef := Func.mem_defined_of_result hnode (List.of_mem_zip hp).1
      have hp' : (values v, c) ∈ op.results.zip cs := by
        rw [hsame.results, List.zip_map_left]
        exact List.mem_map_of_mem (f := Prod.map values id) hp
      rw [hdefined v hdef, hinf _ hp', h.tys v hdef]

/-- The types of one function with those that another has after the renumbering. -/
def pulledTys (f g' : Func) (values : ValueId → ValueId) : Array Ty :=
  f.tys.mapIdx fun v ty => if v ∈ f.defined then (g'.valueTy? (values v)).getD ty else ty

theorem valueTy?_retype_pulledTys (hf : f.Invariant) (h : Renumbering f g ops values)
    (hre : Retyped g g') (v : ValueId) :
    (f.retype (pulledTys f g' values)).valueTy? v =
      if v ∈ f.defined then g'.valueTy? (values v) else f.valueTy? v := by
  have hsize : (pulledTys f g' values).size = f.values.size := by
    rw [pulledTys, Array.size_mapIdx, f.size_tys]
  rw [Func.valueTy?_retype hsize, pulledTys, Array.getElem?_mapIdx, Func.getElem?_tys]
  split
  · next hv =>
    -- a value of the program is there, in all three functions
    obtain ⟨ty, hty⟩ := hf.exists_valueTy? hv
    have hlt : values v < g.values.size :=
      Func.exists_valueTy?_iff.1 ⟨ty, (h.tys v hv).trans hty⟩
    obtain ⟨ty', hty'⟩ := Func.exists_valueTy?_iff.2 (hre.size_eq.symm ▸ hlt)
    simp [hty, hty']
  · exact Option.map_id' ..

/-- Whether types have changed shows on the values of the program. -/
theorem eq_iff_of_solves (hf : f.Invariant) (hre : Retyped f f')
    (hsig : f'.signature = f.signature) (hsol : Solves registry dialect t f.body.nodes f f') :
    f' = f ↔ ∀ v ∈ f.defined, f'.valueTy? v = f.valueTy? v := by
  constructor
  · rintro rfl v _
    rfl
  · intro htys
    refine hre.eq (fun v => ?_) hsig
    by_cases hv : v ∈ f.defined
    · exact htys v hv
    · exact hsol.kept v fun node hnode _ hres => hv (Func.mem_defined_of_result hnode hres)

/-- If a walk over one function succeeds, so does the walk over the other. -/
theorem walk_renumbered (hr : registry.Pure) (hf : f.Invariant) (hg : g.Invariant)
    (h : Renumbering f g ops values) (ht : t ∈ f.opIds) {now : Bool}
    (hwalk : walk registry dialect (ops t) g.body.nodes g = ⟨g', .ok now⟩) :
    ∃ f', walk registry dialect t f.body.nodes f = ⟨f', .ok now⟩ ∧
      ∀ v ∈ f.defined, f'.valueTy? v = g'.valueTy? (values v) := by
  have hgforward := forward_of_invariant hg
  have hfforward := forward_of_invariant hf
  obtain ⟨hgre, hgsig, hgsol⟩ := walk_solves hr hgforward hwalk
  have htys := valueTy?_retype_pulledTys hf h hgre
  have hsol : Solves registry dialect t f.body.nodes f (f.retype (pulledTys f g' values)) := by
    refine hgsol.pull hr hf hg h ht ?_ ?_
    · intro v hv
      rw [htys, if_pos hv]
    · intro v hv
      rw [htys, if_neg hv]
  obtain ⟨f', now', hwalk', htys'⟩ := walk_of_solution hr hfforward
    (fun _ hnode _ hv => hf.result_lt hnode hv) hsol.inferred (fun _ _ _ _ _ => rfl)
    (fun v hv => (hsol.kept v hv).symm)
  have hdefined : ∀ v ∈ f.defined, f'.valueTy? v = g'.valueTy? (values v) := by
    intro v hv
    rw [htys', htys, if_pos hv]
  obtain ⟨hfre, hfsig, hfsol⟩ := walk_solves hr hfforward hwalk'
  have hsame : now' = false ↔ now = false := by
    rw [walk_changed_iff hfforward hwalk', walk_changed_iff hgforward hwalk,
      eq_iff_of_solves hf hfre hfsig hfsol, eq_iff_of_solves hg hgre hgsig hgsol]
    constructor
    · intro heq u hu
      obtain ⟨v, hv, rfl⟩ := h.exists_of_mem_defined hu
      rw [← hdefined v hv, heq v hv, h.tys v hv]
    · intro heq v hv
      rw [hdefined v hv, heq _ (h.mem_defined hv), h.tys v hv]
  obtain rfl : now' = now := by
    cases now' <;> cases now <;> simp_all
  exact ⟨f', hwalk', hdefined⟩

/-- If a run on one function succeeds, so does the run on the other, with the same types. -/
theorem run_renumbered (hr : registry.Pure) (hf : f.Invariant) (hg : g.Invariant)
    (h : Renumbering f g ops values) {changed : Bool}
    (hrun : run dialect registry g = ⟨g', .ok changed⟩) :
    ∃ f', run dialect registry f = ⟨f', .ok changed⟩ ∧ f'.signature = g'.signature ∧
      ∀ v ∈ f.defined, f'.valueTy? v = g'.valueTy? (values v) := by
  obtain ⟨_, w, now, signature, ht', hwalk, hsig, rfl, rfl⟩ := run_eq_ok_iff.1 hrun
  obtain ⟨t, ht, rfl⟩ := h.terminator_eq_ok ht'
  obtain ⟨op, hop, -⟩ := Func.exists_op?_of_terminator ht
  have hnode : ⟨t, op⟩ ∈ f.body.nodes := Body.op?_eq_some_iff.1 hop
  obtain ⟨f', hwalk', hdefined⟩ := walk_renumbered hr hf hg h (List.mem_map_of_mem hnode) hwalk
  obtain ⟨hgre, hgsig, -⟩ := walk_solves hr (forward_of_invariant hg) hwalk
  obtain ⟨hfre, hfsig, -⟩ := walk_solves hr (forward_of_invariant hf) hwalk'
  obtain ⟨hin, op', hop', hout⟩ := (actualSignature_eq_ok_iff (hgre.invariant hg)).1 hsig
  -- what the return gives back stands for what the other gives back
  have hsame : op.SameUnder values op' := by
    obtain ⟨op₁, hop₁, hsame⟩ := h.same _ hnode
    rw [Func.op?, hgre.body] at hop'
    obtain rfl : op₁ = op' := Option.some.inj (hop₁.symm.trans hop')
    exact hsame
  have hsig' : actualSignature f' t = .ok signature := by
    refine (actualSignature_eq_ok_iff (hfre.invariant hf)).2 ⟨?_, op, ?_, ?_⟩
    · rw [← hin, hgre.arguments, hfre.arguments, h.arguments, List.map_map]
      exact List.map_congr_left fun v hv => hdefined v (Func.mem_defined_of_argument hv)
    · rw [Func.op?, hfre.body]
      exact hop
    · rw [← hout, hsame.operands, List.map_map]
      exact List.map_congr_left fun v hv => hdefined v (hf.operand_mem_defined hnode hv)
  refine ⟨f'.setSignature signature, ?_, rfl, hdefined⟩
  refine run_eq_ok_iff.2 ⟨t, f', now, signature, ht, hwalk', hsig', rfl, ?_⟩
  rw [hgsig, hfsig, h.signature]

/-- **Shape inference does not depend on the order or the numbers.** On two built functions that are
the same program, it succeeds on both, with the same answer, or on neither; and if it succeeds, the
signatures are the same and every value gets the type of the one that it stands for. -/
theorem run_order_independent (hf : f.Built) (hg : g.Built) (hr : registry.Pure)
    (h : Renumbering f g ops values) (dialect : String) :
    (∀ changed, (run dialect registry f).result = .ok changed ↔
      (run dialect registry g).result = .ok changed) ∧
    ∀ changed, (run dialect registry f).result = .ok changed →
      (run dialect registry g).state.signature = (run dialect registry f).state.signature ∧
      ∀ v ∈ f.defined,
        (run dialect registry g).state.valueTy? (values v) =
          (run dialect registry f).state.valueTy? v := by
  have hfinv := hf.invariant
  have hginv := hg.invariant
  obtain ⟨ops', values', hback, -⟩ := h.symm hfinv hginv
  have hforth : ∀ changed, (run dialect registry f).result = .ok changed →
      (run dialect registry g).result = .ok changed := by
    intro changed hrun
    rcases hf' : run dialect registry f with ⟨f', result⟩
    rw [hf'] at hrun
    cases hrun
    obtain ⟨g', hg', -⟩ := run_renumbered hr hginv hfinv hback hf'
    rw [hg']
  have hpull : ∀ changed, (run dialect registry g).result = .ok changed →
      ∃ f', run dialect registry f = ⟨f', .ok changed⟩ ∧
        f'.signature = (run dialect registry g).state.signature ∧
        ∀ v ∈ f.defined,
          f'.valueTy? v = (run dialect registry g).state.valueTy? (values v) := by
    intro changed hrun
    rcases hg' : run dialect registry g with ⟨g', result⟩
    rw [hg'] at hrun
    cases hrun
    exact run_renumbered hr hfinv hginv h hg'
  refine ⟨fun changed => ⟨hforth changed, fun hrun => ?_⟩, fun changed hrun => ?_⟩
  · obtain ⟨f', hf', -⟩ := hpull changed hrun
    rw [hf']
  · obtain ⟨f', hf', hsig, htys⟩ := hpull changed (hforth changed hrun)
    rw [hf']
    exact ⟨hsig.symm, fun v hv => (htys v hv).symm⟩

/-- The second function takes the two branches of an addition in the other order, and gives the
addition the number of an operation that was there for a while. -/
theorem run_order_independent_add :
    let ty : Ty := .tensor ⟨.f32, [.known 2, .dynamic]⟩
    let f := (Func.empty "main").after
      [.addArgument ty,
        .pushOp { name := ⟨"relay.exp"⟩, operands := [0] } [.scalar .f32],
        .pushOp { name := ⟨"relay.tanh"⟩, operands := [0] } [.tensor ⟨.i8, []⟩],
        .pushOp { name := ⟨"relay.add"⟩, operands := [1, 2] } [.scalar .f32],
        .pushOp { name := .terminator, operands := [3] } []]
    let g := (Func.empty "main").after
      [.addArgument ty,
        .pushOp { name := ⟨"relay.abs"⟩, operands := [0] } [ty],
        .pushOp { name := ⟨"relay.tanh"⟩, operands := [0] } [.tensor ⟨.i8, []⟩],
        .pushOp { name := ⟨"relay.exp"⟩, operands := [0] } [.scalar .f32],
        .eraseOp 0,
        .pushOp { name := ⟨"relay.add"⟩, operands := [3, 2] } [.scalar .f32],
        .pushOp { name := .terminator, operands := [4] } []]
    let ops : OpId → OpId := fun id => [2, 1, 0, 3].getD id id
    let values : ValueId → ValueId := fun v => [0, 3, 2, 4].getD v v
    f.Built ∧ g.Built ∧ Relay.registry.Pure ∧ Renumbering f g ops values ∧
      (run "relay" Relay.registry f).result = .ok true ∧
      (run "relay" Relay.registry g).result = .ok true ∧
      (run "relay" Relay.registry g).state.signature =
        (run "relay" Relay.registry f).state.signature ∧
      (run "relay" Relay.registry g).state.valueTy? 4 = some ty := by
  intro ty f g ops values
  have hf : f.Built := ⟨_, _, rfl⟩
  have hg : g.Built := ⟨_, _, rfl⟩
  have h : Renumbering f g ops values :=
    ⟨by decide, by decide, by decide, by decide, by decide, by decide⟩
  have hok : (run "relay" Relay.registry f).result = .ok true ∧
      (run "relay" Relay.registry f).state.valueTy? 3 = some ty := by decide +kernel
  obtain ⟨hresult, hstate⟩ := run_order_independent hf hg Relay.registry_pure h "relay"
  obtain ⟨hsig, htys⟩ := hstate true hok.1
  have hty := htys 3 (by decide)
  exact ⟨hf, hg, Relay.registry_pure, h, hok.1, (hresult true).1 hok.1, hsig, hty.trans hok.2⟩

end TensorIR.ShapeInference
