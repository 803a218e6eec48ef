import TensorIR.Proofs.Func.Consumers
import TensorIR.Proofs.Func.InPlace

/-!
# What a push and an erasure do

A push succeeds if its operands are alive, and an erasure if nothing takes the results of the
operation (`exists_pushOp_iff`, `exists_eraseOp_iff`). What they do to a built function is said by
`Pushed` and `Erased`, in terms of what can be seen of it: the operations in program order, the
values, the uses and who consumes what. The check of an erasure looks at recorded uses, and numbers
of operations are given out again, so that both rest on the invariant: no use is recorded that an
operand list does not show, and in particular none of an operation that had the number before.

Together with the run of an edit in place this is `edits_exact`.
-/

namespace TensorIR.Func

variable {f g : Func} {v : ValueId} {id : OpId} {op : Operation} {tys : List Ty}

/-- A value that was made and is not erased. -/
def Live (f : Func) (v : ValueId) : Prop :=
  ∃ o, f.origin? v = some o ∧ o ≠ .erased

/-- The function `g` is `f` with one more operation at its end. -/
structure Pushed (f : Func) (op : Operation) (tys : List Ty) (id : OpId) (g : Func) : Prop where
  fresh : id ∉ f.opIds
  nodes : g.body.nodes =
    f.body.nodes ++ [⟨id, { op with results := (List.range tys.length).map (f.valueCount + ·) }⟩]
  valueCount : g.valueCount = f.valueCount + tys.length
  old_value : ∀ v < f.valueCount, g.value? v = f.value? v
  new_value : ∀ k ty, tys[k]? = some ty → g.value? (f.valueCount + k) = some ⟨ty, .result id k⟩
  /-- The uses before were none of an operation under the number. -/
  uses : (g.uses.filter fun use => use.consumer != id) = f.uses
  consumers : ∀ v, f.Live v → ∃ users, f.consumers v = .ok users ∧
    g.consumers v = .ok (if v ∈ op.operands then users ++ [id] else users)
  new_consumers : ∀ k < tys.length, g.consumers (f.valueCount + k) = .ok []
  name : g.name = f.name
  arguments : g.arguments = f.arguments
  signature : g.signature = f.signature

/-- The function `g` is `f` without the operation `op`, whose results are erased. -/
structure Erased (f : Func) (id : OpId) (op : Operation) (g : Func) : Prop where
  nodes : g.body.nodes = f.body.nodes.filter fun node => node.id != id
  value : ∀ v, g.value? v = (f.value? v).map fun value =>
    if v ∈ op.results then { value with origin := .erased } else value
  uses : g.uses = f.uses.filter fun use => use.consumer != id
  consumers : ∀ v, f.Live v → v ∉ op.results → ∃ users, f.consumers v = .ok users ∧
    g.consumers v = .ok (if v ∈ op.operands then users.filter (· != id) else users)
  name : g.name = f.name
  arguments : g.arguments = f.arguments
  signature : g.signature = f.signature

/-! ## Live values -/

theorem Live.lt (h : f.Live v) : v < f.valueCount := by
  obtain ⟨o, ho, -⟩ := h
  exact lt_size_of_origin? ho

namespace Invariant

theorem live_operand (hf : f.Invariant) {node : Node} (hnode : node ∈ f.body.nodes)
    (hv : v ∈ node.op.operands) : f.Live v :=
  hf.operand_origin? (wiring_mem hnode) hv

theorem consumers_of_live (hf : f.Invariant) (hv : f.Live v) :
    f.consumers v = .ok (f.takers v) := by
  obtain ⟨o, ho, hne⟩ := hv
  exact hf.consumers_eq_takers ho hne

/-- A recorded use joins two operations that are there. -/
theorem mem_opIds_of_use (hf : f.Invariant) {use : Use} (huse : use ∈ f.uses) :
    use.producer ∈ f.opIds ∧ use.consumer ∈ f.opIds := by
  obtain ⟨w, hw, hid, -, k, hk⟩ := mem_operandUses_iff.1 (hf.uses_perm.mem_iff.1 huse)
  refine ⟨hf.producer_mem_opIds hk, ?_⟩
  rw [← map_id_wirings, ← hid]
  exact List.mem_map_of_mem hw

/-- The results of an operation are alive. -/
theorem live_result (hf : f.Invariant) (hop : f.op? id = some op) (hv : v ∈ op.results) :
    f.Live v := by
  obtain ⟨k, hk⟩ := (hf.mem_results_iff (mem_wirings_of_op? hop)).1 hv
  exact ⟨_, hk, by simp⟩

/-- A result of an operation passes the check of an erasure if no operation takes it. -/
theorem checkUnused_eq_ok_iff (hf : f.Invariant) {operator : OpName} (hv : f.Live v) :
    f.checkUnused operator v = .ok () ↔ f.takers v = [] := by
  unfold checkUnused
  rw [hf.consumers_of_live hv]
  cases f.takers v <;> simp

end Invariant

theorem takers_eq_nil_iff : f.takers v = [] ↔ ∀ node ∈ f.body.nodes, v ∉ node.op.operands := by
  simp [takers]

/-! ## Pushes -/

theorem exists_pushOp_iff :
    (∃ id g, f.pushOp op tys = .ok (id, g)) ↔ ∀ v ∈ op.operands, f.Live v := by
  constructor
  · rintro ⟨id, g, hg⟩
    exact (pushOp_eq_ok_iff.1 hg).1
  · intro hlive
    exact ⟨_, _, pushOp_eq_ok_iff.2 ⟨hlive, rfl, rfl⟩⟩

theorem takers_pushOp (hg : f.pushOp op tys = .ok (id, g)) (v : ValueId) :
    g.takers v = if v ∈ op.operands then f.takers v ++ [id] else f.takers v := by
  obtain ⟨-, rfl, rfl⟩ := pushOp_eq_ok_iff.1 hg
  unfold takers
  rw [Body.nodes_push, List.filter_append, List.map_append, List.filter_singleton]
  by_cases hv : v ∈ op.operands
  · simp [hv]
  · simp [hv]

theorem value?_pushOp_old (hg : f.pushOp op tys = .ok (id, g)) (hv : v < f.valueCount) :
    g.value? v = f.value? v := by
  obtain ⟨-, -, rfl⟩ := pushOp_eq_ok_iff.1 hg
  exact Array.getElem?_append_left hv

theorem value?_pushOp_new (hg : f.pushOp op tys = .ok (id, g)) {k : Nat} {ty : Ty}
    (hty : tys[k]? = some ty) : g.value? (f.valueCount + k) = some ⟨ty, .result id k⟩ := by
  obtain ⟨-, rfl, rfl⟩ := pushOp_eq_ok_iff.1 hg
  simp [value?, valueCount, Array.getElem?_append_right, hty]

/-- A new result is alive, and nothing takes it: operands are older. -/
theorem Invariant.consumers_new (hf : f.Invariant) (hg : f.pushOp op tys = .ok (id, g)) {k : Nat}
    (hk : k < tys.length) : g.consumers (f.valueCount + k) = .ok [] := by
  have hlive : g.Live (f.valueCount + k) := by
    refine ⟨.result id k, ?_, by simp⟩
    rw [origin?, value?_pushOp_new hg (List.getElem?_eq_getElem hk), Option.map_some]
  have hunmade : ¬f.Live (f.valueCount + k) := fun h =>
    absurd h.lt (Nat.not_lt.2 (Nat.le_add_right ..))
  have hnone : f.takers (f.valueCount + k) = [] :=
    takers_eq_nil_iff.2 fun node hnode hv => hunmade (hf.live_operand hnode hv)
  have hnew : f.valueCount + k ∉ op.operands := fun hv =>
    hunmade (exists_pushOp_iff.1 ⟨id, g, hg⟩ _ hv)
  rw [(hf.pushOp hg).consumers_of_live hlive, takers_pushOp hg, if_neg hnew, hnone]

theorem Invariant.pushed (hf : f.Invariant) (hg : f.pushOp op tys = .ok (id, g)) :
    f.Pushed op tys id g := by
  obtain ⟨-, hid, heq⟩ := pushOp_eq_ok_iff.1 hg
  have hfresh : id ∉ f.opIds := hid ▸ f.body.nextId_notMem_ids
  constructor
  case fresh => exact hfresh
  case nodes =>
    rw [heq, hid]
    exact Body.nodes_push ..
  case valueCount => simp [heq, valueCount]
  case old_value => exact fun v => value?_pushOp_old hg
  case new_value => exact fun k ty => value?_pushOp_new hg
  case uses =>
    rw [uses_pushOp hg, List.filter_append]
    have hold : (f.uses.filter fun use => use.consumer != id) = f.uses := by
      rw [List.filter_eq_self]
      intro use huse
      have hne : use.consumer ≠ id := fun heq => hfresh (heq ▸ (hf.mem_opIds_of_use huse).2)
      simpa using hne
    have hnew : ((op.operands.filterMap (f.useOf? f.body.nextId)).filter fun use =>
        use.consumer != id) = [] := by
      rw [List.filter_eq_nil_iff]
      intro use huse
      obtain ⟨v, -, huse⟩ := List.mem_filterMap.1 huse
      obtain ⟨-, -, hconsumer, -⟩ := useOf?_eq_some_iff.1 huse
      simp [hconsumer, hid]
    rw [hold, hnew, List.append_nil]
  case consumers =>
    intro v hv
    have hv' : g.Live v := by
      unfold Live origin?
      rwa [value?_pushOp_old hg hv.lt]
    refine ⟨f.takers v, hf.consumers_of_live hv, ?_⟩
    rw [(hf.pushOp hg).consumers_of_live hv', takers_pushOp hg]
  case new_consumers => exact fun k => hf.consumers_new hg
  case name => rw [heq]
  case arguments => rw [heq]
  case signature => rw [heq]

/-! ## Erasures -/

/-- Nothing takes a result of an operation that can be erased. -/
theorem Invariant.unused_of_eraseOp (hf : f.Invariant) (hg : f.eraseOp id = .ok g)
    (hop : f.op? id = some op) : ∀ v ∈ op.results, ∀ node ∈ f.body.nodes, v ∉ node.op.operands := by
  obtain ⟨op', hop', hchecks, -⟩ := eraseOp_eq_ok_iff.1 hg
  obtain rfl : op' = op := by simpa [hop] using hop'.symm
  intro v hv
  rw [← takers_eq_nil_iff]
  exact (hf.checkUnused_eq_ok_iff (hf.live_result hop hv)).1 (hchecks v hv)

theorem Invariant.exists_eraseOp_iff (hf : f.Invariant) :
    (∃ g, f.eraseOp id = .ok g) ↔
      ∃ op, f.op? id = some op ∧ ∀ v ∈ op.results, ∀ node ∈ f.body.nodes, v ∉ node.op.operands := by
  constructor
  · rintro ⟨g, hg⟩
    obtain ⟨op, hop, -⟩ := eraseOp_eq_ok_iff.1 hg
    exact ⟨op, hop, hf.unused_of_eraseOp hg hop⟩
  · rintro ⟨op, hop, hunused⟩
    refine ⟨_, eraseOp_eq_ok_iff.2 ⟨op, hop, fun v hv => ?_, rfl⟩⟩
    exact (hf.checkUnused_eq_ok_iff (hf.live_result hop hv)).2 (takers_eq_nil_iff.2 (hunused v hv))

/-- No use leads from an operation that can be erased. -/
theorem Invariant.producer_ne_of_eraseOp (hf : f.Invariant) (hg : f.eraseOp id = .ok g)
    {use : Use} (huse : use ∈ f.uses) : use.producer ≠ id := by
  rintro rfl
  obtain ⟨op, hop, -⟩ := eraseOp_eq_ok_iff.1 hg
  obtain ⟨w, hw, -, hv, k, hk⟩ := mem_operandUses_iff.1 (hf.uses_perm.mem_iff.1 huse)
  obtain ⟨node, hnode, rfl⟩ := List.mem_map.1 hw
  have hresult : use.value ∈ op.results := (hf.mem_results_iff (mem_wirings_of_op? hop)).2 ⟨k, hk⟩
  exact hf.unused_of_eraseOp hg hop _ hresult node hnode hv

theorem takers_eraseOp (hg : f.eraseOp id = .ok g) (v : ValueId) :
    g.takers v = (f.takers v).filter (· != id) := by
  obtain ⟨op, -, -, rfl⟩ := eraseOp_eq_ok_iff.1 hg
  unfold takers
  rw [Body.nodes_erase, List.filter_map, List.filter_filter, List.filter_filter]
  simp only [Function.comp_def, Bool.and_comm]

theorem Invariant.erased (hf : f.Invariant) (hg : f.eraseOp id = .ok g) :
    ∃ op, f.op? id = some op ∧ f.Erased id op g := by
  obtain ⟨op, hop, -, heq⟩ := eraseOp_eq_ok_iff.1 hg
  refine ⟨op, hop, ?_⟩
  constructor
  case nodes =>
    rw [heq]
    exact Body.nodes_erase ..
  case value =>
    intro v
    rw [heq]
    exact getElem?_foldl_forget ..
  case uses =>
    rw [uses_eraseOp hg]
    apply List.filter_congr
    intro use huse
    rw [bne_iff_ne.2 (hf.producer_ne_of_eraseOp hg huse), Bool.true_and]
  case consumers =>
    intro v hv hresult
    have hv' : g.Live v := by
      obtain ⟨o, ho, hne⟩ := hv
      refine ⟨o, ?_, hne⟩
      rw [origin?_eraseOp hg hop, ho, Option.map_some, if_neg hresult]
    refine ⟨f.takers v, hf.consumers_of_live hv, ?_⟩
    rw [(hf.eraseOp hg).consumers_of_live hv', takers_eraseOp hg]
    split
    · rfl
    · next hoperand =>
      congr 1
      rw [List.filter_eq_self]
      intro user huser
      have hne : user ≠ id := by
        rintro rfl
        obtain ⟨op', hop', hv⟩ := mem_takers_iff.1 huser
        rw [hop, Option.some.injEq] at hop'
        exact hoperand (hop' ▸ hv)
      simpa using hne
  case name => rw [heq]
  case arguments => rw [heq]
  case signature => rw [heq]

/-! ## Both -/

/-- **A push and an erasure succeed exactly when they may, and do what they say or nothing.** A push
on a built function succeeds if its operands are alive, and appends one operation; an erasure
succeeds if the operation is there and nothing takes a result of it, and takes it away. Made step by
step in place, both do the same, and leave the function as it was if they are refused. -/
theorem edits_exact (hf : f.Built) :
    (∀ op tys,
      ((∃ id g, f.pushOp op tys = .ok (id, g)) ↔ ∀ v ∈ op.operands, f.Live v) ∧
      (∀ id g, f.pushOp op tys = .ok (id, g) → f.Pushed op tys id g) ∧
      InPlace.Atomic f (InPlace.pushOp op tys) (f.pushOp op tys)) ∧
    ∀ id,
      ((∃ g, f.eraseOp id = .ok g) ↔
        ∃ op, f.op? id = some op ∧
          ∀ v ∈ op.results, ∀ node ∈ f.body.nodes, v ∉ node.op.operands) ∧
      (∀ g, f.eraseOp id = .ok g → ∃ op, f.op? id = some op ∧ f.Erased id op g) ∧
      InPlace.Atomic f (InPlace.eraseOp id) ((f.eraseOp id).map ((), ·)) := by
  have hinv := hf.invariant
  constructor
  · intro op tys
    exact ⟨exists_pushOp_iff, fun _ _ => hinv.pushed, InPlace.atomic_of_run
      (InPlace.pushOp_run hinv op tys)⟩
  · intro id
    exact ⟨hinv.exists_eraseOp_iff, fun _ => hinv.erased, InPlace.atomic_of_run
      (InPlace.eraseOp_run hinv id)⟩

/-- An operation has got the number of an erased one, and takes one of two results of another. The
other cannot be erased, in place as little as at once; the operation with the number can, and a push
on the result of the erased one is refused. -/
theorem edits_exact_reuse :
    let ty := Ty.scalar .f32
    let f := (empty "main").after
      [.addArgument ty,
        .pushOp { name := ⟨"relay.exp"⟩, operands := [0] } [ty],
        .pushOp { name := ⟨"test.split"⟩, operands := [0], results := [9] } [ty, ty],
        .eraseOp 0,
        .pushOp { name := ⟨"relay.tanh"⟩, operands := [3] } [ty]]
    f.opIds = [1, 0] ∧
      (¬∃ g, f.eraseOp 1 = .ok g) ∧
      (∃ stop, (InPlace.eraseOp 1).run f = .error stop f) ∧
      (∃ g op, f.eraseOp 0 = .ok g ∧ f.Erased 0 op g ∧ g.consumers 3 = .ok []) ∧
      (¬∃ id g, f.pushOp { name := ⟨"relay.sqrt"⟩, operands := [1] } [ty] = .ok (id, g)) ∧
      ∃ id g, f.pushOp { name := ⟨"relay.add"⟩, operands := [3, 3] } [ty] = .ok (id, g) ∧
        f.Pushed { name := ⟨"relay.add"⟩, operands := [3, 3] } [ty] id g ∧
        g.consumers 3 = .ok [0, id] := by
  intro ty f
  have hf : f.Built := ⟨_, _, rfl⟩
  have hlive : f.Live 3 := ⟨.result 1 1, by decide, by decide⟩
  have hconsumers : f.consumers 3 = .ok [0] := by decide
  have hsplit : f.op? 1 =
      some { name := ⟨"test.split"⟩, operands := [0], results := [2, 3] } := by decide
  have htanh : f.op? 0 =
      some { name := ⟨"relay.tanh"⟩, operands := [3], results := [4] } := by decide
  have herased : f.origin? 1 = some .erased := by decide
  obtain ⟨hpush, herase⟩ := edits_exact hf
  have hrefused : ¬∃ g, f.eraseOp 1 = .ok g := by
    rw [(herase 1).1, hsplit]
    decide
  refine ⟨by decide, hrefused, ?_, ?_, ?_, ?_⟩
  · cases he : f.eraseOp 1 with
    | ok g => exact absurd ⟨g, he⟩ hrefused
    | error e =>
      exact ⟨.refused e, ((herase 1).2.2.error_iff _ _).2 ⟨rfl, e, rfl, by rw [he]; rfl⟩⟩
  · obtain ⟨g, hg⟩ := (herase 0).1.2 ⟨_, htanh, by decide⟩
    obtain ⟨op, hop, herased⟩ := (herase 0).2.1 g hg
    obtain ⟨users, husers, hleft⟩ := herased.consumers 3 hlive
      (by cases htanh.symm.trans hop; decide)
    cases htanh.symm.trans hop
    cases hconsumers.symm.trans husers
    exact ⟨g, _, hg, herased, hleft⟩
  · rw [(hpush _ _).1]
    intro hlive
    obtain ⟨o, ho, hne⟩ := hlive 1 (by decide)
    rw [herased, Option.some.injEq] at ho
    exact hne ho.symm
  · obtain ⟨id, g, hg⟩ := (hpush { name := ⟨"relay.add"⟩, operands := [3, 3] } [ty]).1.2
      (by simpa using hlive)
    have hpushed := (hpush _ _).2.1 id g hg
    obtain ⟨users, husers, hmore⟩ := hpushed.consumers 3 hlive
    cases hconsumers.symm.trans husers
    exact ⟨id, g, hg, hpushed, hmore⟩

end TensorIR.Func
