import TensorIR.Func.Builder
import TensorIR.Proofs.Func.Checking

/-!
# The verdict on a built function

Of all that the check of a function looks at, only its returns can be wrong in a built function. So
the verdict hangs on the first return (`verdict`, `Invariant.verify_eq`): there is none, or it comes
last and is the only one, or something stands behind it and the check stops there. The check never
finds several returns, since the first of several does not come last.

What a draft is finished to is a built function (`built_of_build`).
-/

namespace TensorIR.Func

variable {f g : Func} {node : Node}

/-- The first return of the body. -/
def firstReturn? (f : Func) : Option Node :=
  f.body.nodes.find? fun node => node.op.isReturn

/-- What the check answers if nothing but the returns is wrong. -/
def verdict (f : Func) : Except Error Unit :=
  match f.firstReturn? with
  | none => .error (.noTerminator f.name)
  | some node =>
    if f.opIds.getLast? = some node.id then .ok ()
    else .error (.returnNotLast f.name node.op.describe)

/-- A return must come last. -/
def checkLast (f : Func) (node : Node) : Except Error Unit :=
  if node.op.isReturn && f.opIds.getLast? != some node.id then
    .error (.returnNotLast f.name node.op.describe)
  else .ok ()

/-! ## Returns -/

theorem firstReturn?_eq_none_iff :
    f.firstReturn? = none ↔ ∀ node ∈ f.body.nodes, node.op.isReturn = false := by
  simp [firstReturn?]

theorem returns_eq_nil (h : f.firstReturn? = none) : f.returns = [] := by
  simpa [returns] using firstReturn?_eq_none_iff.1 h

/-- The last operation of the body stands behind all others. -/
theorem eq_nil_of_getLast? {pre post : List Node} (hs : f.body.nodes = pre ++ node :: post)
    (hlast : f.opIds.getLast? = some node.id) : post = [] := by
  have hids : f.opIds = pre.map Node.id ++ node.id :: post.map Node.id := by
    rw [opIds, Body.ids, hs, List.map_append, List.map_cons]
  have hnodup : f.opIds.Nodup := f.body.nodup_ids
  rw [hids, List.nodup_append] at hnodup
  have hbehind : node.id ∉ post.map Node.id := (List.nodup_cons.1 hnodup.2.1).1
  by_contra hne
  have hids_ne : post.map Node.id ≠ [] := by simpa using hne
  rw [hids, List.getLast?_append_of_ne_nil _ (by simp),
    List.getLast?_cons_of_ne_nil hids_ne] at hlast
  exact hbehind (List.mem_of_getLast? hlast)

/-- The first return is the only one if it comes last. -/
theorem returns_eq_singleton (h : f.firstReturn? = some node)
    (hlast : f.opIds.getLast? = some node.id) : f.returns = [node.id] := by
  obtain ⟨hreturn, pre, post, hs, hpre⟩ := List.find?_eq_some_iff_append.1 h
  obtain rfl := eq_nil_of_getLast? hs hlast
  have hnone : (pre.filter fun node => node.op.isReturn) = [] := by simpa using hpre
  rw [returns, hs, List.filter_append, hnone]
  simp [hreturn]

/-- The one return of the body comes last exactly if the first return does. -/
theorem exists_returns_iff :
    (∃ id, f.returns = [id] ∧ f.opIds.getLast? = some id) ↔
      ∃ node, f.firstReturn? = some node ∧ f.opIds.getLast? = some node.id := by
  constructor
  · rintro ⟨id, hreturns, hlast⟩
    cases hfirst : f.firstReturn? with
    | none =>
      rw [returns_eq_nil hfirst] at hreturns
      cases hreturns
    | some node =>
      obtain ⟨hreturn, -⟩ := List.find?_eq_some_iff_append.1 hfirst
      have hmem : node.id ∈ f.returns := List.mem_map_of_mem
        (List.mem_filter.2 ⟨List.mem_of_find?_eq_some hfirst, hreturn⟩)
      rw [hreturns, List.mem_singleton] at hmem
      exact ⟨node, rfl, hmem ▸ hlast⟩
  · rintro ⟨node, hfirst, hlast⟩
    exact ⟨node.id, returns_eq_singleton hfirst hlast, hlast⟩

theorem verdict_eq_ok_iff :
    f.verdict = .ok () ↔ ∃ node, f.firstReturn? = some node ∧ f.opIds.getLast? = some node.id := by
  unfold verdict
  cases f.firstReturn? with
  | none => simp
  | some node => by_cases hlast : f.opIds.getLast? = some node.id <;> simp [hlast]

/-- There is no return, or there is something behind the first one. -/
theorem eq_of_verdict_eq_error {e : Error} (h : f.verdict = .error e) :
    (f.returns = [] ∧ e = .noTerminator f.name) ∨
      ∃ pre node post, f.body.nodes = pre ++ node :: post ∧ post ≠ [] ∧
        node.op.isReturn = true ∧ (∀ n ∈ pre, n.op.isReturn = false) ∧
        e = .returnNotLast f.name node.op.describe := by
  unfold verdict at h
  cases hfirst : f.firstReturn? with
  | none =>
    rw [hfirst] at h
    cases h
    exact .inl ⟨returns_eq_nil hfirst, rfl⟩
  | some node =>
    obtain ⟨hreturn, pre, post, hs, hpre⟩ := List.find?_eq_some_iff_append.1 hfirst
    rw [hfirst] at h
    simp only at h
    split at h
    · cases h
    · next hlast =>
      cases h
      refine .inr ⟨pre, node, post, hs, ?_, hreturn, by simpa using hpre, rfl⟩
      rintro rfl
      exact hlast (by simp [opIds, Body.ids, hs])

/-! ## The check -/

theorem checkLast_of_return (h : node.op.isReturn = true) :
    f.checkLast node =
      if f.opIds.getLast? = some node.id then .ok ()
      else .error (.returnNotLast f.name node.op.describe) := by
  unfold checkLast
  by_cases hlast : f.opIds.getLast? = some node.id
  · simp [hlast]
  · simp [h, hlast]

/-- Operations in front of the first return pass. -/
theorem forM_checkLast_eq {nodes : List Node} (h : ∀ node ∈ nodes, node.op.isReturn = false) :
    nodes.forM f.checkLast = .ok () :=
  Fallible.forM_eq_ok_iff.2 fun node hnode => by rw [checkLast, h node hnode]; rfl

/-- The loop over the operations stops at the first return, unless it comes last. -/
theorem forM_checkLast (f : Func) :
    f.body.nodes.forM f.checkLast =
      match f.firstReturn? with
      | none => .ok ()
      | some node => f.checkLast node := by
  cases hfirst : f.firstReturn? with
  | none => exact forM_checkLast_eq (firstReturn?_eq_none_iff.1 hfirst)
  | some node =>
    obtain ⟨hreturn, pre, post, hs, hpre⟩ := List.find?_eq_some_iff_append.1 hfirst
    have hfront : pre.forM f.checkLast = .ok () := forM_checkLast_eq (by simpa using hpre)
    have hsplit : f.body.nodes.forM f.checkLast =
        (f.checkLast node >>= fun _ => post.forM f.checkLast) := by
      rw [hs]
      refine List.forM_append.trans ?_
      change (pre.forM f.checkLast >>= fun _ => (node :: post).forM f.checkLast) = _
      rw [hfront]
      rfl
    simp only [hsplit, checkLast_of_return hreturn]
    by_cases hlast : f.opIds.getLast? = some node.id
    · obtain rfl := eq_nil_of_getLast? hs hlast
      rw [if_pos hlast]
      rfl
    · rw [if_neg hlast]
      rfl

theorem Invariant.forM_verifyNode_eq (hf : f.Invariant) :
    (f.body.nodes.zipIdx.forM fun e => f.verifyNode e.2 e.1) = f.body.nodes.forM f.checkLast := by
  have hchecks : ∀ e ∈ f.body.nodes.zipIdx, f.checkLast e.1 = f.verifyNode e.2 e.1 :=
    fun e he => (hf.verifyNode_eq (List.mem_zipIdx_iff_getElem?.1 he)).symm
  have hmap := Fallible.forM_map_congr hchecks
  rwa [List.zipIdx_map_fst, eq_comm] at hmap

/-- **The verdict hangs on the first return.** -/
theorem Invariant.verify_eq (hf : f.Invariant) : f.verify = f.verdict := by
  have hverify : f.verify =
      (f.body.nodes.zipIdx.forM fun e => f.verifyNode e.2 e.1) >>= fun _ =>
        discard f.terminator >>= fun _ =>
          if f.hasCycle then .error (.cyclicUses f.name) else .ok () := rfl
  rw [hverify, hf.forM_verifyNode_eq, f.forM_checkLast, hf.hasCycle_eq_false, verdict]
  cases hfirst : f.firstReturn? with
  | none =>
    rw [terminator, returns_eq_nil hfirst]
    rfl
  | some node =>
    obtain ⟨hreturn, -⟩ := List.find?_eq_some_iff_append.1 hfirst
    simp only [checkLast_of_return hreturn]
    by_cases hlast : f.opIds.getLast? = some node.id
    · rw [if_pos hlast, terminator, returns_eq_singleton hfirst hlast]
      rfl
    · rw [if_neg hlast]
      rfl

/-! ## Built functions -/

theorem Built.apply (hf : f.Built) {e : Edit} (hg : f.apply e = .ok g) : g.Built := by
  obtain ⟨name, es, rfl⟩ := hf
  refine ⟨name, es ++ [e], ?_⟩
  rw [after_append, after_cons, after_nil, edit, hg]

theorem built_of_add {d d' : Draft} {item : Item} (hd : d.func.Built) (h : d.add item = .ok d') :
    d'.func.Built := by
  have hpush : ∀ {op tys r}, d.func.pushOp op tys = .ok r → r.2.Built := fun {op tys r} hr =>
    hd.apply (e := .pushOp op tys) (Fallible.map_eq_ok_iff.2 ⟨r, hr, rfl⟩)
  cases item with
  | argument ty =>
    cases h
    exact hd.apply (e := .addArgument ty) rfl
  | operation op tys =>
    obtain ⟨r, hr, h⟩ := Fallible.bind_eq_ok_iff.1 h
    cases h
    exact hpush hr
  | ret values =>
    obtain ⟨r, hr, h⟩ := Fallible.bind_eq_ok_iff.1 h
    cases h
    exact hpush hr
  | outputs tys =>
    cases h
    exact hd

/-- What a draft is finished to is built. -/
theorem built_of_build {name : String} {items : List Item} (h : build name items = .ok f) :
    f.Built := by
  obtain ⟨d, hd, hfinish⟩ := Fallible.bind_eq_ok_iff.1 h
  have hbuilt : d.func.Built :=
    Fallible.foldlM_induct (P := fun _ d => d.func.Built)
      (fun _ _ _ _ _ _ hb hstep => built_of_add hb hstep) hd ⟨name, [], rfl⟩
  obtain ⟨outputs, rfl⟩ : ∃ outputs, f = d.func.setSignature ⟨d.func.argumentTys, outputs⟩ := by
    unfold Draft.finish at hfinish
    split at hfinish
    all_goals
      obtain ⟨outputs, -, hdone⟩ := Fallible.bind_eq_ok_iff.1 hfinish
      cases hdone
      exact ⟨outputs, rfl⟩
  exact hbuilt.apply (e := .setSignature ⟨d.func.argumentTys, outputs⟩) rfl

/-- **A built function fails the check through its returns only.** It passes exactly if it has one
return and this comes last; otherwise it has none, or the first one does not come last, and there is
no other way to fail. -/
theorem verify_exact (hf : f.Built ∨ ∃ name items, build name items = .ok f) :
    (f.verify = .ok () ↔ ∃ id, f.returns = [id] ∧ f.opIds.getLast? = some id) ∧
      ∀ e, f.verify = .error e →
        (f.returns = [] ∧ e = .noTerminator f.name) ∨
          ∃ pre node post, f.body.nodes = pre ++ node :: post ∧ post ≠ [] ∧
            node.op.isReturn = true ∧ (∀ n ∈ pre, n.op.isReturn = false) ∧
            e = .returnNotLast f.name node.op.describe := by
  have hbuilt : f.Built := by
    rcases hf with hf | ⟨name, items, h⟩
    · exact hf
    · exact built_of_build h
  rw [hbuilt.invariant.verify_eq, exists_returns_iff]
  exact ⟨verdict_eq_ok_iff, fun _ => eq_of_verdict_eq_error⟩

/-- An operation has got the number of an erased one, and the return comes last; with an operation
behind the return, the same function fails. -/
theorem verify_exact_reuse :
    let ty := Ty.scalar .f32
    let f := (empty "main").after
      [.addArgument ty,
        .pushOp { name := ⟨"relay.exp"⟩, operands := [0] } [ty],
        .pushOp { name := ⟨"relay.sqrt"⟩, operands := [0] } [ty],
        .eraseOp 0,
        .pushOp { name := ⟨"relay.tanh"⟩, operands := [2] } [ty],
        .pushOp { name := OpName.terminator, operands := [3] } []]
    let g := f.after [.pushOp { name := ⟨"relay.exp"⟩, operands := [3] } [ty]]
    f.opIds = [1, 0, 2] ∧ f.verify = .ok () ∧ g.returns = [2] ∧
      g.verify = .error (.returnNotLast "main" "func.return") ∧
      ∃ h, build "main" [.argument ty, .ret [0]] = .ok h ∧ h.verify = .ok () := by
  intro ty f g
  have hf : f.Built := ⟨_, _, rfl⟩
  have hg : g.Built := ⟨"main", _, (after_append ..).symm⟩
  have hids : f.opIds = [1, 0, 2] := by decide
  have hreturns : g.returns = [2] := by decide
  refine ⟨hids, (verify_exact (.inl hf)).1.2 ⟨2, by decide, by rw [hids]; rfl⟩, hreturns, ?_, ?_⟩
  · obtain ⟨hok, herror⟩ := verify_exact (.inl hg)
    cases hv : g.verify with
    | ok u =>
      obtain ⟨id, hid, hlast⟩ := hok.1 hv
      rw [hreturns] at hid
      cases hid
      exact absurd hlast (by decide)
    | error e =>
      rcases herror e hv with ⟨hnone, -⟩ | ⟨pre, node, post, hs, -, hreturn, -, rfl⟩
      · rw [hreturns] at hnone
        cases hnone
      · have hdescribe : ∀ n ∈ g.body.nodes, n.op.isReturn = true →
            Error.returnNotLast g.name n.op.describe = .returnNotLast "main" "func.return" := by
          decide
        rw [hdescribe node (by simp [hs]) hreturn]
  · have hends : (build "main" [.argument ty, .ret [0]]).map
        (fun h => (h.returns, h.opIds.getLast?)) = .ok ([0], some 0) := by decide
    obtain ⟨h, hbuild, hend⟩ := Fallible.map_eq_ok_iff.1 hends
    obtain ⟨hreturns, hlast⟩ := Prod.mk.inj hend
    exact ⟨h, hbuild, (verify_exact (.inr ⟨"main", _, hbuild⟩)).1.2 ⟨0, hreturns, hlast⟩⟩

end TensorIR.Func
