import TensorIR.Proofs.Inference.Typing

/-!
# Functions on which inference has nothing to do

In a settled function every rule confirms the types that the results have, and the declared
signature is that of the body. Inference leaves settled functions (`settled_of_run`) and leaves a
settled function as it is (`run_of_settled`).
-/

namespace TensorIR

/-- What a component makes of a type, it does not change again: a scalar that has become a tensor
stays one, and a scalar that has not is met by no dimensions again. -/
theorem Component.resolve_resolve (c : Component) (old : Ty) :
    c.resolve (c.resolve old) = c.resolve old := by
  obtain ⟨dims, element⟩ := c
  cases old with
  | scalar e => cases dims <;> cases element <;> rfl
  | tensor t => cases element <;> rfl

namespace Func

variable {f g : Func}

theorem value?_eq_of_parts {v : ValueId} (hty : g.valueTy? v = f.valueTy? v)
    (horigin : g.origin? v = f.origin? v) : g.value? v = f.value? v := by
  unfold valueTy? at hty
  unfold origin? at horigin
  cases hg : g.value? v with
  | none =>
    rw [hg, Option.map_none, eq_comm, Option.map_eq_none_iff] at hty
    rw [hty]
  | some b =>
    cases hf : f.value? v with
    | none => simp [hf, hg] at hty
    | some a =>
      simp only [hf, hg, Option.map_some, Option.some.injEq] at hty horigin
      cases a
      cases b
      simp_all

theorem Retyped.eq (h : Retyped f g) (htys : ∀ v, g.valueTy? v = f.valueTy? v)
    (hsig : g.signature = f.signature) : g = f := by
  have hvalues : g.values = f.values :=
    Array.ext_getElem? fun v => value?_eq_of_parts (htys v) (h.origin? v)
  obtain ⟨hname, harguments, hbody, huses, -⟩ := h
  cases f
  cases g
  simp_all

end Func

namespace ShapeInference

variable {registry : Registry} {dialect : String} {terminator : OpId} {f g : Func}

/-- The rules confirm the types that are there, and the signature is that of the body. -/
structure Settled (registry : Registry) (dialect : String) (terminator : OpId) (f : Func) :
    Prop where
  terminator_eq : f.terminator = .ok terminator
  solves : Solves registry dialect terminator f.body.nodes f f
  signature_eq : actualSignature f terminator = .ok f.signature

theorem walk_of_solves_self (hr : registry.Pure) (hf : f.Invariant)
    (h : Solves registry dialect terminator f.body.nodes f f) :
    walk registry dialect terminator f.body.nodes f = ⟨f, .ok false⟩ := by
  have hforward := forward_of_invariant hf
  obtain ⟨g, changed, hwalk, htys⟩ := walk_of_solution hr hforward
    (fun _ hnode _ hv => hf.result_lt hnode hv) h.inferred (fun _ _ _ _ _ => rfl)
    (fun _ _ => rfl)
  obtain ⟨hre, hsig, -⟩ := walk_solves hr hforward hwalk
  obtain rfl : g = f := hre.eq htys hsig
  rw [hwalk, (walk_changed_iff hforward hwalk).2 rfl]

theorem run_of_settled (hr : registry.Pure) (hf : f.Invariant)
    (h : Settled registry dialect terminator f) : run dialect registry f = ⟨f, .ok false⟩ := by
  have hwalk := walk_of_solves_self hr hf h.solves
  refine run_eq_ok_iff.2 ⟨terminator, f, false, f.signature, h.terminator_eq, hwalk,
    h.signature_eq, rfl, ?_⟩
  simp

/-- The types that a walk leaves are confirmed by the rules that gave them. -/
theorem Solves.self {nodes : List Node} (h : Solves registry dialect terminator nodes f g) :
    Solves registry dialect terminator nodes g g where
  kept _ _ := rfl
  inferred node hnode rule hrule := by
    obtain ⟨cs, hcs, hlen, hsol⟩ := h.inferred node hnode rule hrule
    refine ⟨cs, hcs, hlen, fun p hp => ?_⟩
    rw [hsol p hp, Option.map_map]
    congr 1
    funext old
    exact (p.2.resolve_resolve old).symm

theorem settled_of_run (hr : registry.Pure) (hf : f.Invariant) {changed : Bool}
    (h : run dialect registry f = ⟨g, .ok changed⟩) :
    ∃ t, Settled registry dialect t g := by
  obtain ⟨t, w, now, signature, ht, hwalk, hsig, rfl, -⟩ := run_eq_ok_iff.1 h
  obtain ⟨hre, -, hsol⟩ := walk_solves hr (forward_of_invariant hf) hwalk
  refine ⟨t, ?_, ?_, hsig⟩
  · rw [← ht]
    unfold Func.terminator Func.returns Func.setSignature
    rw [hre.body, hre.name]
  · have hself : Solves registry dialect t w.body.nodes w (w.setSignature signature) :=
      (hre.body ▸ hsol).self.congr hr fun _ => rfl
    exact hself.self

end ShapeInference

end TensorIR
