import Mathlib.Data.List.Induction
import Mathlib.Logic.Relation
import TensorIR.Func.Printer
import TensorIR.Proofs.Func.Invariant

/-!
# Well-formed functions

What a reader of a built function may rely on: program order, ownership of values, definitions
before uses, and recorded uses that tell the truth. All of it follows from the invariant
(`Invariant.wellFormed`), and with it induction along the body (`Invariant.value_induct`). Besides,
an erased value stays erased whatever happens to the function later (`origin?_after_of_erased`): the
number of its operation is given out again, but not its own.
-/

namespace TensorIR.Func

/-- One operation takes a result of another, according to the recorded uses. -/
def Feeds (f : Func) (producer consumer : OpId) : Prop :=
  ∃ v, ⟨producer, consumer, v⟩ ∈ f.uses

structure WellFormed (f : Func) : Prop where
  /-- Program order lists no operation twice. -/
  nodup_ids : f.opIds.Nodup
  /-- Program order lists the operations that are there. -/
  mem_ids_iff : ∀ id, id ∈ f.opIds ↔ ∃ op, f.op? id = some op
  /-- The operations that are there are those whose numbers were given out and are not free. -/
  op?_iff : ∀ id, (∃ op, f.op? id = some op) ↔ id < f.body.capacity ∧ id ∉ f.body.free
  argument_iff : ∀ v n, f.origin? v = some (.argument n) ↔ f.arguments[n]? = some v
  result_iff : ∀ v id k, f.origin? v = some (.result id k) ↔
    ∃ op, f.op? id = some op ∧ op.results[k]? = some v
  /-- No value is a result twice. -/
  nodup_results : f.results.Nodup
  operand_live : ∀ node ∈ f.body.nodes, ∀ v ∈ node.op.operands,
    ∃ o, f.origin? v = some o ∧ o ≠ .erased
  /-- An operand is an argument or a result of an operation before. -/
  operand_defined : ∀ pre node post, f.body.nodes = pre ++ node :: post →
    ∀ v ∈ node.op.operands, v ∈ f.arguments ∨ ∃ p ∈ pre, v ∈ p.op.results
  /-- The recorded uses are the occurrences of results as operands, as often as they occur. -/
  uses_perm : f.uses.Perm <| f.body.nodes.flatMap fun node =>
    node.op.operands.filterMap fun v =>
      match f.origin? v with
      | some (.result op _) => some ⟨op, node.id, v⟩
      | _ => none
  acyclic : ∀ id, ¬Relation.TransGen f.Feeds id id

variable {f g : Func} {v : ValueId} {id : OpId}

/-- No value is listed twice as a result. -/
theorem ResultsRecorded.nodup_results (h : f.ResultsRecorded) : f.results.Nodup := by
  have hpair : f.wirings.Pairwise fun w w' => ∀ v ∈ w.results, v ∉ w'.results := by
    have hids : f.wirings.Pairwise fun w w' => w.id ≠ w'.id := by
      simpa [List.Nodup, List.pairwise_map] using f.nodup_ids_wirings
    refine hids.imp_of_mem ?_
    intro w w' hw hw' hne v hv hv'
    exact hne (congrArg Wiring.id (h.owner_unique hw hw' hv hv'))
  have hflat : (f.wirings.flatMap Wiring.results).Nodup := by
    rw [List.nodup_flatMap]
    refine ⟨fun w hw => h.nodup_results_of_mem hw, hpair.imp ?_⟩
    intro w w' hdisj v hv hv'
    exact hdisj v hv hv'
  simpa [results, Body.ops, wirings, List.flatMap_map, Node.wiring] using hflat

namespace Invariant

theorem op?_result_iff (h : f.Invariant) {k : Nat} :
    f.origin? v = some (.result id k) ↔
      ∃ op, f.op? id = some op ∧ op.results[k]? = some v := by
  rw [h.result_iff]
  constructor
  · intro hx
    obtain ⟨w, hw, rfl, hk⟩ := hx
    obtain ⟨⟨id, op⟩, hnode, rfl⟩ := List.mem_map.1 hw
    exact ⟨op, Body.op?_eq_some_iff.2 hnode, hk⟩
  · intro hx
    obtain ⟨op, hop, hk⟩ := hx
    exact ⟨_, mem_wirings_of_op? hop, rfl, hk⟩

/-- The operation that a value is a result of is there. -/
theorem producer_mem_opIds (h : f.Invariant) {k : Nat}
    (ho : f.origin? v = some (.result id k)) : id ∈ f.opIds := by
  obtain ⟨op, hop, -⟩ := h.op?_result_iff.1 ho
  exact Body.mem_ids_iff.2 ⟨op, hop⟩

theorem nodup_results_of_mem (h : f.Invariant) {w : Wiring} (hw : w ∈ f.wirings) :
    w.results.Nodup :=
  h.resultsRecorded.nodup_results_of_mem hw

theorem nodup_results (h : f.Invariant) : f.results.Nodup :=
  h.resultsRecorded.nodup_results

/-- A use leads forward in program order. -/
theorem idxOf_lt_of_feeds (h : f.Invariant) {a b : OpId} (hab : f.Feeds a b) :
    f.opIds.idxOf a < f.opIds.idxOf b := by
  obtain ⟨v, hv⟩ := hab
  obtain ⟨w, hw, rfl, hmem, k, hk⟩ := mem_operandUses_iff.1 (h.uses_perm.mem_iff.1 hv)
  obtain ⟨pre, post, hs⟩ := List.append_of_mem hw
  have hids : f.opIds = pre.map Wiring.id ++ w.id :: post.map Wiring.id := by
    rw [← map_id_wirings, hs, List.map_append, List.map_cons]
  have hnodup : (pre.map Wiring.id ++ w.id :: post.map Wiring.id).Nodup := hids ▸ f.body.nodup_ids
  have hb : w.id ∉ pre.map Wiring.id := by
    intro hin
    exact (List.nodup_append.1 hnodup).2.2 _ hin _ List.mem_cons_self rfl
  have ha : a ∈ pre.map Wiring.id := by
    rcases List.mem_append.1 (h.operand_defined hs hmem) with harg | hres
    · obtain ⟨n, hn⟩ := h.mem_arguments_iff.1 harg
      rw [hk] at hn
      cases hn
    · obtain ⟨p, hp, hres⟩ := List.mem_flatMap.1 hres
      obtain ⟨k', hk'⟩ := (h.mem_results_iff (by rw [hs]; simp [hp])).1 hres
      rw [hk] at hk'
      obtain ⟨rfl, -⟩ : a = p.id ∧ k = k' := by simpa using hk'
      exact List.mem_map_of_mem hp
  rw [hids, List.idxOf_append_of_mem ha, List.idxOf_append_of_notMem hb, List.idxOf_cons_self]
  have hlt := List.idxOf_lt_length_of_mem ha
  omega

theorem acyclic (h : f.Invariant) (id : OpId) : ¬Relation.TransGen f.Feeds id id := by
  have hlt : ∀ a b, Relation.TransGen f.Feeds a b → f.opIds.idxOf a < f.opIds.idxOf b := by
    intro a b hab
    induction hab with
    | single hfeeds => exact h.idxOf_lt_of_feeds hfeeds
    | tail _ hfeeds ih => exact Nat.lt_trans ih (h.idxOf_lt_of_feeds hfeeds)
  exact fun hcycle => Nat.lt_irrefl _ (hlt id id hcycle)

theorem wellFormed (h : f.Invariant) : f.WellFormed where
  nodup_ids := f.body.nodup_ids
  mem_ids_iff _ := Body.mem_ids_iff
  op?_iff _ := Body.mem_ids_iff.symm.trans Body.mem_ids_iff_allocated
  argument_iff := h.argument_iff
  result_iff _ _ _ := h.op?_result_iff
  nodup_results := h.nodup_results
  operand_live node hnode v hv :=
    h.operand_origin? (wiring_mem hnode) hv
  operand_defined pre node post hs v hv := by
    have hs' : f.wirings = pre.map Node.wiring ++ node.wiring :: post.map Node.wiring := by
      simp [wirings, hs]
    have hdef := h.operand_defined hs' hv
    simpa [List.flatMap_map, Node.wiring] using hdef
  uses_perm := by
    have huses := h.uses_perm
    unfold operandUses wirings at huses
    simp only [List.flatMap_map, Node.wiring, useOf?_eq] at huses
    exact huses
  acyclic := h.acyclic

/-- Induction along the body: what holds of the arguments, and of the results of an operation if it
holds of its operands, holds of all operands and results. -/
theorem value_induct (h : f.Invariant) {P : ValueId → Prop} (harguments : ∀ v ∈ f.arguments, P v)
    (hstep : ∀ node ∈ f.body.nodes, (∀ v ∈ node.op.operands, P v) → ∀ v ∈ node.op.results, P v) :
    ∀ node ∈ f.body.nodes, (∀ v ∈ node.op.operands, P v) ∧ ∀ v ∈ node.op.results, P v := by
  have hpre : ∀ pre post, f.body.nodes = pre ++ post →
      ∀ node ∈ pre, (∀ v ∈ node.op.operands, P v) ∧ ∀ v ∈ node.op.results, P v := by
    intro pre
    induction pre using List.reverseRecOn with
    | nil => simp
    | append_singleton pre last ih =>
      intro post hs node hnode
      have hs' : f.body.nodes = pre ++ last :: post := by simpa using hs
      rcases List.mem_append.1 hnode with hnode | hnode
      · exact ih (last :: post) hs' node hnode
      · obtain rfl := List.mem_singleton.1 hnode
        have hoperands : ∀ v ∈ node.op.operands, P v := by
          intro v hv
          rcases h.wellFormed.operand_defined pre node post hs' v hv with harg | ⟨n, hn, hnv⟩
          · exact harguments v harg
          · exact (ih (node :: post) hs' n hn).2 v hnv
        exact ⟨hoperands, hstep node (by simp [hs']) hoperands⟩
  exact hpre f.body.nodes [] (by simp)

end Invariant

/-! ## Erased values -/

theorem origin?_apply_of_erased {e : Edit} (hg : f.apply e = .ok g)
    (hv : f.origin? v = some .erased) : g.origin? v = some .erased := by
  have hlt := lt_size_of_origin? hv
  cases e with
  | addArgument ty =>
    cases hg
    rw [origin?_addArgument, if_neg (Nat.ne_of_lt hlt), hv]
  | pushOp op tys =>
    obtain ⟨⟨id, g'⟩, hpush, rfl⟩ := Fallible.map_eq_ok_iff.1 hg
    rw [origin?_pushOp hpush, if_pos hlt, hv]
  | eraseOp id =>
    obtain ⟨op, hop, -⟩ := eraseOp_eq_ok_iff.1 hg
    rw [origin?_eraseOp hg hop, hv]
    simp
  | setValueTy v' ty =>
    cases eq_of_setValueTy hg
    rw [origin?_modify_ty, hv]
  | setSignature signature =>
    cases hg
    exact hv
  | relabel id name attributes loc =>
    cases eq_of_modifyOp hg
    exact hv

theorem origin?_after_of_erased (hv : f.origin? v = some .erased) (es : List Edit) :
    (f.after es).origin? v = some .erased :=
  after_induct (P := fun f => f.origin? v = some .erased) hv
    (fun _ _ _ hf hg => origin?_apply_of_erased hg hf) es

/-- **After any edits**, made or refused, a function is well formed, and what is erased by then
stays erased after any further edits. -/
theorem wellFormed_after_edits (name : String) (es : List Edit) :
    ((empty name).after es).WellFormed ∧
      ∀ v, ((empty name).after es).origin? v = some .erased →
        ∀ es', ((empty name).after (es ++ es')).origin? v = some .erased := by
  refine ⟨(Built.invariant ⟨name, es, rfl⟩).wellFormed, ?_⟩
  intro v hv es'
  rw [after_append]
  exact origin?_after_of_erased hv es'

/-- The only operation is erased and its number goes to the next one; its result stays erased. -/
theorem erased_after_number_reuse :
    let ty := Ty.scalar .f32
    let es : List Edit :=
      [.addArgument ty, .pushOp { name := ⟨"relay.exp"⟩, operands := [0] } [ty], .eraseOp 0]
    let es' : List Edit := [.pushOp { name := ⟨"relay.tanh"⟩, operands := [0] } [ty]]
    ((empty "main").after es).origin? 1 = some .erased ∧
      ((empty "main").after (es ++ es')).origin? 2 = some (.result 0 0) ∧
      ((empty "main").after (es ++ es')).origin? 1 = some .erased := by
  intro ty es es'
  have herased : ((empty "main").after es).origin? 1 = some .erased := by decide
  exact ⟨herased, by decide, (wellFormed_after_edits "main" es).2 1 herased es'⟩

end TensorIR.Func
