import TensorIR.Proofs.Inference.Walk
import TensorIR.Proofs.Relay.Operators

/-!
# Shape inference computes the one consistent typing

A typing gives every value a type. It is consistent with a function if it keeps the types that
inference has no say in, and if every rule, asked about operands of the types it gives, confirms the
types it gives to the results. `run_unique_typing`: on built functions, inference succeeds exactly
if there is a consistent typing, and what it leaves is the only one.
-/

namespace TensorIR

/-- The type that a component gives a result of some type. The element kind stays unless the
component names one; a scalar stays a scalar if no dimension is inferred. -/
inductive Component.Gives (c : Component) : Ty → Ty → Prop where
  | scalar (e : Element) (h : c.dims = []) : Gives c (.scalar e) (.scalar (c.element.getD e))
  | raised (e : Element) (h : c.dims ≠ []) :
    Gives c (.scalar e) (.tensor ⟨c.element.getD e, c.dims⟩)
  | tensor (t : TensorTy) : Gives c (.tensor t) (.tensor ⟨c.element.getD t.element, c.dims⟩)

theorem Component.gives_iff {c : Component} {old new : Ty} :
    c.Gives old new ↔ new = c.resolve old := by
  obtain ⟨dims, element⟩ := c
  constructor
  · intro h
    cases h with
    | scalar e hd =>
      cases hd
      rfl
    | raised e hd =>
      cases dims with
      | nil => exact absurd rfl hd
      | cons d ds => rfl
    | tensor t => rfl
  · rintro rfl
    cases old with
    | scalar e =>
      cases dims with
      | nil => exact .scalar e rfl
      | cons d ds => exact .raised e (by simp)
    | tensor t => exact .tensor t

namespace Func

variable {f : Func} {T : Array Ty} {v : ValueId}

/-- The types of all values, by number. -/
def tys (f : Func) : Array Ty :=
  f.values.map Value.ty

/-- The function with other types. -/
def retype (f : Func) (T : Array Ty) : Func :=
  { f with values := f.values.mapIdx fun v value => { value with ty := T.getD v value.ty } }

theorem getElem?_tys (f : Func) (v : ValueId) : f.tys[v]? = f.valueTy? v := by
  simp [tys, valueTy?, value?]

theorem size_tys (f : Func) : f.tys.size = f.values.size := by
  simp [tys]

theorem retyped_retype (f : Func) (T : Array Ty) : Retyped f (f.retype T) := by
  refine ⟨rfl, rfl, rfl, rfl, fun v => ?_⟩
  simp [origin?, value?, retype, Function.comp_def]

theorem valueTy?_retype (h : T.size = f.values.size) (v : ValueId) :
    (f.retype T).valueTy? v = T[v]? := by
  unfold valueTy? value? retype
  rw [Array.getElem?_mapIdx]
  by_cases hv : v < f.values.size
  · simp [hv, h]
  · simp [hv, h]

theorem Invariant.exists_argumentTy (hf : f.Invariant) :
    ∀ v ∈ f.arguments, ∃ ty, f.valueTy? v = some ty := by
  intro v hv
  obtain ⟨n, hn⟩ := hf.mem_arguments_iff.1 hv
  exact exists_valueTy?_iff.2 (lt_size_of_origin? hn)

theorem Invariant.exists_operandTy (hf : f.Invariant) {id : OpId} {op : Operation}
    (hop : f.op? id = some op) : ∀ v ∈ op.operands, ∃ ty, f.valueTy? v = some ty := by
  intro v hv
  obtain ⟨o, ho, -⟩ := hf.operand_origin? (mem_wirings_of_op? hop) hv
  exact exists_valueTy?_iff.2 (lt_size_of_origin? ho)

theorem mem_returns_of_terminator {t : OpId} (h : f.terminator = .ok t) : t ∈ f.returns := by
  unfold terminator at h
  split at h
  · next id hreturns =>
    cases h
    simp [hreturns]
  · cases h
  · cases h

theorem exists_op?_of_terminator {t : OpId} (h : f.terminator = .ok t) :
    ∃ op, f.op? t = some op ∧ op.isReturn = true := by
  obtain ⟨⟨id, op⟩, hnode, rfl⟩ := List.mem_map.1 (mem_returns_of_terminator h)
  obtain ⟨hmem, hreturn⟩ := List.mem_filter.1 hnode
  exact ⟨op, Body.op?_eq_some_iff.2 hmem, hreturn⟩

end Func

namespace ShapeInference

open Func (Retyped)

variable {registry : Registry} {dialect : String} {terminator : OpId} {f g : Func} {T : Array Ty}

/-- A typing that is consistent with a function and its rules. -/
structure Consistent (registry : Registry) (dialect : String) (terminator : OpId) (f : Func)
    (T : Array Ty) : Prop where
  size_eq : T.size = f.valueCount
  /-- Arguments, erased values and results of operations that are passed over keep their types. -/
  kept : ∀ v value, f.value? v = some value →
    (∀ node ∈ f.body.nodes, ∀ k, value.origin = .result node.id k →
      Skipped registry dialect terminator node) →
    T[v]? = some value.ty
  /-- The rule of any other operation, asked about operands of the types in `T`, infers one
  component for each result, and this gives the result its type in `T`. -/
  inferred : ∀ node ∈ f.body.nodes, ¬Skipped registry dialect terminator node →
    ∀ rule, registry.rule? node.op.name.text = some rule →
      ∃ cs : List Component, rule ⟨node.op, f.retype T⟩ = .ok cs ∧
        cs.length = node.op.results.length ∧
        ∀ (k : Nat) (v : ValueId) (c : Component), node.op.results[k]? = some v →
          cs[k]? = some c →
          ∃ old new, f.valueTy? v = some old ∧ T[v]? = some new ∧ c.Gives old new

/-- Consistency is the equations of the walk over the whole body. -/
theorem consistent_iff_solves (hf : f.Invariant) :
    Consistent registry dialect terminator f T ↔
      T.size = f.values.size ∧
        Solves registry dialect terminator f.body.nodes f (f.retype T) := by
  constructor
  · intro h
    obtain ⟨hsize, hkept, hinf⟩ := h
    have hT := Func.valueTy?_retype (f := f) hsize
    refine ⟨hsize, ?_, ?_⟩
    · intro v hv
      rw [hT]
      cases hvalue : f.value? v with
      | none =>
        have hlt : f.values.size ≤ v := by simpa [Func.value?] using hvalue
        rw [Func.valueTy?_eq_none_iff.2 hlt, Array.getElem?_eq_none (hsize ▸ hlt)]
      | some value =>
        rw [hkept v value hvalue, Func.valueTy?, hvalue]
        · rfl
        · intro node hnode k horigin
          by_contra hlive
          refine hv node hnode hlive ((hf.mem_results_iff (Func.wiring_mem hnode)).2 ⟨k, ?_⟩)
          rw [Func.origin?, hvalue, Option.map_some, horigin]
          rfl
    · intro node hnode rule hrule
      obtain ⟨hlive, hrule'⟩ := ruleFor?_eq_some_iff.1 hrule
      obtain ⟨cs, hcs, hlen, hgives⟩ := hinf node hnode hlive rule hrule'
      refine ⟨cs, hcs, hlen, ?_⟩
      rintro ⟨v, c⟩ hp
      obtain ⟨k, hk⟩ := List.mem_iff_getElem?.1 hp
      obtain ⟨hv, hc⟩ := List.getElem?_zip_eq_some.1 hk
      obtain ⟨old, new, hold, hnew, hg⟩ := hgives k v c hv hc
      rw [hT, hnew, hold, Component.gives_iff.1 hg]
      rfl
  · intro h
    obtain ⟨hsize, hkept, hinf⟩ := h
    have hT := Func.valueTy?_retype (f := f) hsize
    refine ⟨hsize, ?_, ?_⟩
    · intro v value hvalue horigin
      rw [← hT, hkept v, Func.valueTy?, hvalue]
      · rfl
      · intro node hnode hlive hv
        obtain ⟨k, hk⟩ := (hf.mem_results_iff (Func.wiring_mem hnode)).1 hv
        rw [Func.origin?, hvalue, Option.map_some, Option.some.injEq] at hk
        exact hlive (horigin node hnode k hk)
    · intro node hnode hlive rule hrule
      obtain ⟨cs, hcs, hlen, hgives⟩ :=
        hinf node hnode rule (ruleFor?_eq_some_iff.2 ⟨hlive, hrule⟩)
      refine ⟨cs, hcs, hlen, ?_⟩
      intro k v c hv hc
      have hp := hgives (v, c) (List.mem_of_getElem? (List.getElem?_zip_eq_some.2 ⟨hv, hc⟩))
      obtain ⟨old, hold⟩ : ∃ old, f.valueTy? v = some old := by
        rw [Func.exists_valueTy?_iff]
        exact hf.result_lt hnode (List.mem_of_getElem? hv)
      rw [hT, hold] at hp
      exact ⟨old, _, hold, hp, Component.gives_iff.2 rfl⟩

/-! ## The whole run -/

theorem filterMap_eq_iff_map_eq {l : List ValueId} {k : ValueId → Option Ty} {tys : List Ty}
    (h : ∀ v ∈ l, ∃ ty, k v = some ty) : l.filterMap k = tys ↔ l.map k = tys.map some := by
  induction l generalizing tys with
  | nil => cases tys <;> simp
  | cons v l ih =>
    rw [List.forall_mem_cons] at h
    obtain ⟨⟨ty, hty⟩, hl⟩ := h
    rw [List.filterMap_cons_some hty, List.map_cons, hty]
    cases tys with
    | nil => simp
    | cons ty' tys => simp [ih hl]

theorem mapM_valueTy_eq_ok_iff {l : List ValueId} {tys : List Ty} :
    l.mapM f.valueTy = .ok tys ↔ l.map f.valueTy? = tys.map some := by
  rw [Fallible.mapM_eq_ok_iff]
  simp only [Func.valueTy_eq_ok_iff]
  induction l generalizing tys with
  | nil => cases tys <;> simp
  | cons v l ih => cases tys <;> simp [ih]

/-- The signature asked for is made of the types of the arguments and of what is returned. -/
theorem actualSignature_eq_ok_iff {signature : Signature} (hf : f.Invariant) :
    actualSignature f terminator = .ok signature ↔
      f.arguments.map f.valueTy? = signature.inputs.map some ∧
      ∃ op, f.op? terminator = some op ∧
        op.operands.map f.valueTy? = signature.outputs.map some := by
  have hop : ∀ {op}, f.op terminator = .ok op ↔ f.op? terminator = some op := by
    intro op
    unfold Func.op
    cases f.op? terminator <;> simp
  unfold actualSignature
  rw [← filterMap_eq_iff_map_eq hf.exists_argumentTy]
  simp only [Fallible.bind_eq_ok_iff, hop, mapM_valueTy_eq_ok_iff]
  obtain ⟨inputs, outputs⟩ := signature
  constructor
  · intro h
    obtain ⟨op, hop, outs, houts, hpure⟩ := h
    cases hpure
    exact ⟨rfl, op, hop, houts⟩
  · intro h
    obtain ⟨rfl, op, hop, houts⟩ := h
    exact ⟨op, hop, outputs, houts, rfl⟩

/-- Arguments and operands are there, so the signature can always be read off. -/
theorem exists_actualSignature (hf : f.Invariant) {op : Operation}
    (hop : f.op? terminator = some op) :
    ∃ signature, actualSignature f terminator = .ok signature := by
  refine ⟨⟨f.arguments.filterMap f.valueTy?, op.operands.filterMap f.valueTy?⟩,
    (actualSignature_eq_ok_iff hf).2 ⟨?_, op, hop, ?_⟩⟩
  · exact (filterMap_eq_iff_map_eq hf.exists_argumentTy).1 rfl
  · exact (filterMap_eq_iff_map_eq (hf.exists_operandTy hop)).1 rfl

theorem reconcile_eq_ok_iff {changed : Bool} :
    reconcile f terminator = ⟨g, .ok changed⟩ ↔
      ∃ signature, actualSignature f terminator = .ok signature ∧
        g = f.setSignature signature ∧ changed = (f.signature != signature) := by
  unfold reconcile
  cases hsig : actualSignature f terminator with
  | error e => simp
  | ok signature =>
    simp only [Except.ok.injEq, exists_eq_left']
    split
    · next heq =>
      have hself : f.setSignature signature = f := by
        rw [← heq]
        rfl
      simp [hself, heq, eq_comm]
    · next hne =>
      have hbne : (f.signature != signature) = true := by simpa using hne
      simp [hbne, eq_comm]

/-- A run succeeds if there is one return, the walk succeeds and the signature can be read off. -/
theorem run_eq_ok_iff {changed : Bool} :
    run dialect registry f = ⟨g, .ok changed⟩ ↔
      ∃ t g' now signature, f.terminator = .ok t ∧
        walk registry dialect t f.body.nodes f = ⟨g', .ok now⟩ ∧
        actualSignature g' t = .ok signature ∧
        g = g'.setSignature signature ∧ changed = (now || g'.signature != signature) := by
  unfold run
  cases ht : f.terminator with
  | error e => simp
  | ok t =>
    rcases hwalk : walk registry dialect t f.body.nodes f with ⟨g', result⟩
    cases result with
    | error e => simp [hwalk]
    | ok now =>
      rcases hrec : reconcile g' t with ⟨g'', result⟩
      simp only [hwalk, hrec, Outcome.mk.injEq]
      constructor
      · intro h
        obtain ⟨rfl, hresult⟩ := h
        obtain ⟨later, rfl, rfl⟩ := Fallible.map_eq_ok_iff.1 hresult
        obtain ⟨signature, hsig, rfl, rfl⟩ := reconcile_eq_ok_iff.1 hrec
        exact ⟨t, g', now, signature, rfl, hwalk, hsig, rfl, rfl⟩
      · intro h
        obtain ⟨t', g₁, now₁, signature, hterm, hwalk₁, hsig, rfl, rfl⟩ := h
        cases hterm
        rw [hwalk] at hwalk₁
        cases hwalk₁
        rw [reconcile_eq_ok_iff.2 ⟨signature, hsig, rfl, rfl⟩] at hrec
        cases hrec
        exact ⟨rfl, rfl⟩

/-- A run changes types and the signature only. -/
theorem retyped_of_run (hr : registry.Pure) (hf : f.Invariant) {changed : Bool}
    (h : run dialect registry f = ⟨g, .ok changed⟩) : Retyped f g := by
  obtain ⟨t, g', now, signature, -, hwalk, -, rfl, -⟩ := run_eq_ok_iff.1 h
  obtain ⟨hre, -, -⟩ := walk_solves hr (forward_of_invariant hf) hwalk
  exact hre.setSignature signature

/-- A run tells whether it has changed anything. -/
theorem run_changed_iff (hr : registry.Pure) (hf : f.Invariant) {changed : Bool}
    (h : run dialect registry f = ⟨g, .ok changed⟩) : changed = false ↔ g = f := by
  obtain ⟨t, g', now, signature, -, hwalk, -, rfl, rfl⟩ := run_eq_ok_iff.1 h
  have hforward := forward_of_invariant hf
  obtain ⟨-, hsig, -⟩ := walk_solves hr hforward hwalk
  have hself : ∀ f : Func, f.setSignature f.signature = f := fun _ => rfl
  rw [Bool.or_eq_false_iff, walk_changed_iff hforward hwalk, bne_eq_false_iff_eq]
  constructor
  · intro h
    obtain ⟨rfl, rfl⟩ := h
    exact hself g'
  · intro h
    -- the walk leaves the signature alone, so it is told from the new one
    have hnew : signature = f.signature := congrArg Func.signature h
    have hold : g' = f := by
      calc g' = (g'.setSignature signature).setSignature g'.signature := rfl
        _ = f.setSignature f.signature := by rw [h, hsig]
        _ = f := hself f
    exact ⟨hold, hsig.trans hnew.symm⟩

/-- Pure rules see a function through the types of its values. -/
theorem Solves.congr {g' : Func} {nodes : List Node} (hr : registry.Pure)
    (h : Solves registry dialect terminator nodes f g) (htys : ∀ v, g'.valueTy? v = g.valueTy? v) :
    Solves registry dialect terminator nodes f g' where
  kept v hv := (htys v).trans (h.kept v hv)
  inferred node hnode rule hrule := by
    obtain ⟨cs, hcs, hlen, hsol⟩ := h.inferred node hnode rule hrule
    refine ⟨cs, ?_, hlen, fun p hp => (htys p.1).trans (hsol p hp)⟩
    exact (hr _ _ (ruleFor?_eq_some_iff.1 hrule).2).ok (inputs_congr fun v _ => (htys v).symm) hcs

theorem consistent_of_walk (hr : registry.Pure) (hf : f.Invariant) {now : Bool}
    (h : walk registry dialect terminator f.body.nodes f = ⟨g, .ok now⟩) :
    Consistent registry dialect terminator f g.tys := by
  obtain ⟨hre, -, hsol⟩ := walk_solves hr (forward_of_invariant hf) h
  have hsize : g.tys.size = f.values.size := g.size_tys.trans hre.size_eq
  refine (consistent_iff_solves hf).2 ⟨hsize, hsol.congr hr fun v => ?_⟩
  rw [Func.valueTy?_retype hsize, Func.getElem?_tys]

theorem walk_of_consistent (hr : registry.Pure) (hf : f.Invariant)
    (hT : Consistent registry dialect terminator f T) :
    ∃ g now, walk registry dialect terminator f.body.nodes f = ⟨g, .ok now⟩ ∧ g.tys = T := by
  obtain ⟨hsize, hsol⟩ := (consistent_iff_solves hf).1 hT
  obtain ⟨g, now, hwalk, htys⟩ := walk_of_solution hr (forward_of_invariant hf)
    (fun _ hnode _ hv => hf.result_lt hnode hv) hsol.inferred (fun _ _ _ _ _ => rfl)
    (fun v hv => (hsol.kept v hv).symm)
  refine ⟨g, now, hwalk, Array.ext_getElem? fun v => ?_⟩
  rw [Func.getElem?_tys, htys, Func.valueTy?_retype hsize]

/-- **Shape inference computes the one consistent typing** of a built function. If a run succeeds,
its types are consistent and no others are, nothing but types and the signature has changed, the
signature is that of the arguments and of what is returned, and the run tells whether anything is
new; and if there is one return and a consistent typing, a run succeeds. -/
theorem run_unique_typing (hf : f.Built) (hr : registry.Pure) (dialect : String) :
    (∀ changed, (run dialect registry f).result = .ok changed →
      let g := (run dialect registry f).state
      ∃ t op, f.terminator = .ok t ∧ f.op? t = some op ∧
        (∀ T, Consistent registry dialect t f T ↔ T = g.tys) ∧
        Retyped f g ∧
        f.arguments.map g.valueTy? = g.signature.inputs.map some ∧
        op.operands.map g.valueTy? = g.signature.outputs.map some ∧
        (changed = false ↔ g = f)) ∧
    ∀ t T, f.terminator = .ok t → Consistent registry dialect t f T →
      ∃ changed, (run dialect registry f).result = .ok changed := by
  have hinv := hf.invariant
  constructor
  · intro changed h
    rcases hrun : run dialect registry f with ⟨g, result⟩
    rw [hrun] at h
    cases h
    obtain ⟨t, g', now, signature, ht, hwalk, hsig, rfl, -⟩ := run_eq_ok_iff.1 hrun
    obtain ⟨hre, -, -⟩ := walk_solves hr (forward_of_invariant hinv) hwalk
    obtain ⟨hin, op, hop, hout⟩ := (actualSignature_eq_ok_iff (hre.invariant hinv)).1 hsig
    have hop' : f.op? t = some op := by
      rw [← hop, Func.op?, Func.op?, hre.body]
    refine ⟨t, op, ht, hop', ?_, ?_, ?_, hout, run_changed_iff hr hinv hrun⟩
    · intro T
      constructor
      · intro hT
        obtain ⟨g₁, now₁, hwalk₁, rfl⟩ := walk_of_consistent hr hinv hT
        rw [hwalk] at hwalk₁
        cases hwalk₁
        rfl
      · rintro rfl
        have hT : Consistent registry dialect t f g'.tys := consistent_of_walk hr hinv hwalk
        exact hT
    · exact hre.setSignature signature
    · rw [← hre.arguments]
      exact hin
  · intro t T ht hT
    obtain ⟨g, now, hwalk, -⟩ := walk_of_consistent hr hinv hT
    obtain ⟨hre, -, -⟩ := walk_solves hr (forward_of_invariant hinv) hwalk
    obtain ⟨op, hop, -⟩ := Func.exists_op?_of_terminator ht
    have hop' : g.op? t = some op := by
      rw [← hop, Func.op?, Func.op?, hre.body]
    obtain ⟨signature, hsig⟩ := exists_actualSignature (hre.invariant hinv) hop'
    rw [run_eq_ok_iff.2 ⟨t, g, now, signature, ht, hwalk, hsig, rfl, rfl⟩]
    exact ⟨_, rfl⟩

/-- A declared scalar becomes a tensor, and an element kind stays although the operands have
another one. -/
theorem run_unique_typing_add :
    let ty : Ty := .tensor ⟨.f32, [.known 2, .dynamic]⟩
    let f := (Func.empty "main").after
      [.addArgument ty,
        .pushOp { name := ⟨"relay.exp"⟩, operands := [0] } [.scalar .f32],
        .pushOp { name := ⟨"relay.add"⟩, operands := [1, 0] } [.tensor ⟨.i8, []⟩],
        .pushOp { name := .terminator, operands := [2] } []]
    f.Built ∧ Relay.registry.Pure ∧ (run "relay" Relay.registry f).result = .ok true ∧
      ∀ T, Consistent Relay.registry "relay" 2 f T ↔
        T = #[ty, ty, .tensor ⟨.i8, [.known 2, .dynamic]⟩] := by
  intro ty f
  have hf : f.Built := ⟨_, _, rfl⟩
  obtain ⟨hok, htys⟩ : (run "relay" Relay.registry f).result = .ok true ∧
      (run "relay" Relay.registry f).state.tys =
        #[ty, ty, .tensor ⟨.i8, [.known 2, .dynamic]⟩] := by decide +kernel
  have ht : f.terminator = .ok 2 := by decide
  obtain ⟨t, -, ht', -, hunique, -⟩ :=
    (run_unique_typing hf Relay.registry_pure "relay").1 true hok
  rw [ht] at ht'
  cases ht'
  simp only [htys] at hunique
  exact ⟨hf, Relay.registry_pure, hok, hunique⟩

end ShapeInference

end TensorIR
