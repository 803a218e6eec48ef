import TensorIR.Proofs.Func.History
import TensorIR.Proofs.Func.Wiring

/-!
# The representation invariant

A function is kept in three parts: values by number, operations in program order under numbers that
are given out again, and recorded uses. `Func.Invariant` says in which way they belong together. It
holds of every built function (`Built.invariant`), one lemma for each edit.

The invariant speaks of the wiring only, so an edit that keeps the wiring keeps it
(`Invariant.of_wiring`).
-/

namespace TensorIR.Func

/-- Every operand is among `defined` or a result of an operation before. -/
def Ordered (defined : List ValueId) : List Wiring → Prop
  | [] => True
  | w :: rest => w.operands ⊆ defined ∧ Ordered (defined ++ w.results) rest

/-- The occurrences of results as operands, in program order. -/
def operandUses (f : Func) : List Use :=
  f.wirings.flatMap fun w => w.operands.filterMap (f.useOf? w.id)

/-- A value is recorded as a result of an operation exactly where the operation lists it. -/
def ResultsRecorded (f : Func) : Prop :=
  ∀ v id k, f.origin? v = some (.result id k) ↔ ∃ w ∈ f.wirings, w.id = id ∧ w.results[k]? = some v

/-- The parts of a function belong together. -/
structure Invariant (f : Func) : Prop where
  argument_iff : ∀ v n, f.origin? v = some (.argument n) ↔ f.arguments[n]? = some v
  result_iff : ∀ v id k, f.origin? v = some (.result id k) ↔
    ∃ w ∈ f.wirings, w.id = id ∧ w.results[k]? = some v
  ordered : Ordered f.arguments f.wirings
  uses_perm : f.uses.Perm f.operandUses

variable {f g : Func} {v : ValueId}

/-! ## Order -/

theorem ordered_append {ws ws' : List Wiring} {defined : List ValueId} :
    Ordered defined (ws ++ ws') ↔
      Ordered defined ws ∧ Ordered (defined ++ ws.flatMap Wiring.results) ws' := by
  induction ws generalizing defined with
  | nil => simp [Ordered]
  | cons w ws ih => simp [Ordered, ih, and_assoc]

/-- Operations whose results nothing takes may be left out, and what is defined may grow. -/
theorem Ordered.filter {ws : List Wiring} {keep : Wiring → Bool} {defined defined' : List ValueId}
    (h : Ordered defined ws)
    (hsub : ∀ v ∈ defined, v ∈ defined' ∨ ∀ w ∈ ws, v ∉ w.operands)
    (hout : ∀ w ∈ ws, keep w = false → ∀ v ∈ w.results, ∀ w' ∈ ws, v ∉ w'.operands) :
    Ordered defined' (ws.filter keep) := by
  induction ws generalizing defined defined' with
  | nil => trivial
  | cons w ws ih =>
    obtain ⟨hops, hrest⟩ := h
    have hout' : ∀ w' ∈ ws, keep w' = false → ∀ v ∈ w'.results, ∀ w'' ∈ ws, v ∉ w''.operands :=
      fun w' hw' hk v hv w'' hw'' => hout w' (.tail _ hw') hk v hv w'' (.tail _ hw'')
    cases hk : keep w with
    | true =>
      rw [List.filter_cons_of_pos hk]
      refine ⟨?_, ih hrest ?_ hout'⟩
      · intro v hv
        exact (hsub v (hops hv)).resolve_right fun hno => hno w List.mem_cons_self hv
      · intro v hv
        rw [List.mem_append] at hv ⊢
        rcases hv with hv | hv
        · exact (hsub v hv).imp .inl fun hno w' hw' => hno w' (.tail _ hw')
        · exact .inl (.inr hv)
    | false =>
      rw [List.filter_cons_of_neg (by simp [hk])]
      refine ih hrest ?_ hout'
      intro v hv
      rcases List.mem_append.1 hv with hv | hv
      · exact (hsub v hv).imp id fun hno w' hw' => hno w' (.tail _ hw')
      · exact .inr fun w' hw' => hout w List.mem_cons_self hk v hv w' (.tail _ hw')

theorem Ordered.mono {ws : List Wiring} {defined defined' : List ValueId}
    (h : Ordered defined ws) (hsub : defined ⊆ defined') : Ordered defined' ws := by
  have hfilter : Ordered defined' (ws.filter fun _ => true) :=
    h.filter (fun v hv => .inl (hsub hv)) (by simp)
  simpa using hfilter

/-! ## Uses -/

/-- The recorded uses change with the origins of operands only. -/
theorem operandUses_congr {ws : List Wiring}
    (h : ∀ w ∈ ws, ∀ v ∈ w.operands, g.origin? v = f.origin? v) :
    (ws.flatMap fun w => w.operands.filterMap (g.useOf? w.id)) =
      ws.flatMap fun w => w.operands.filterMap (f.useOf? w.id) := by
  induction ws with
  | nil => rfl
  | cons w ws ih =>
    rw [List.flatMap_cons, List.flatMap_cons, ih fun w' hw' => h w' (.tail _ hw')]
    congr 1
    apply List.filterMap_congr
    intro v hv
    rw [useOf?_eq, useOf?_eq, h w List.mem_cons_self v hv]

/-- If nothing takes a result of an operation, the uses that it has no part in are those of the
other operations. -/
theorem filter_operandUses {ws : List Wiring} {id : OpId}
    (h : ∀ w ∈ ws, ∀ v ∈ w.operands, ∀ k, f.origin? v ≠ some (.result id k)) :
    ((ws.flatMap fun w => w.operands.filterMap (f.useOf? w.id)).filter
        fun use => use.producer != id && use.consumer != id) =
      (ws.filter fun w => w.id != id).flatMap fun w => w.operands.filterMap (f.useOf? w.id) := by
  induction ws with
  | nil => rfl
  | cons w ws ih =>
    rw [List.flatMap_cons, List.filter_append, ih fun w' hw' => h w' (.tail _ hw')]
    by_cases hid : w.id = id
    · have hnone : (w.operands.filterMap (f.useOf? w.id)).filter
          (fun use => use.producer != id && use.consumer != id) = [] := by
        rw [List.filter_eq_nil_iff]
        intro u hu
        obtain ⟨v, -, hv⟩ := List.mem_filterMap.1 hu
        obtain ⟨-, -, hc, -⟩ := useOf?_eq_some_iff.1 hv
        simp [hc, hid]
      rw [hnone, List.filter_cons_of_neg (by simp [hid]), List.nil_append]
    · have hall : (w.operands.filterMap (f.useOf? w.id)).filter
          (fun use => use.producer != id && use.consumer != id) =
            w.operands.filterMap (f.useOf? w.id) := by
        rw [List.filter_eq_self]
        intro u hu
        obtain ⟨v, hmem, hv⟩ := List.mem_filterMap.1 hu
        obtain ⟨k, hk, hc, -⟩ := useOf?_eq_some_iff.1 hv
        have hp : u.producer ≠ id := fun heq => h w List.mem_cons_self v hmem k (heq ▸ hk)
        simp [hc, hid, hp]
      rw [hall, List.filter_cons_of_pos (by simpa using hid), List.flatMap_cons]

theorem mem_operandUses_iff {u : Use} :
    u ∈ f.operandUses ↔
      ∃ w ∈ f.wirings, w.id = u.consumer ∧ u.value ∈ w.operands ∧
        ∃ k, f.origin? u.value = some (.result u.producer k) := by
  unfold operandUses
  simp only [List.mem_flatMap, List.mem_filterMap, useOf?_eq_some_iff]
  constructor
  · intro h
    obtain ⟨w, hw, v, hv, k, hk, hc, rfl⟩ := h
    exact ⟨w, hw, hc.symm, hv, k, hk⟩
  · intro h
    obtain ⟨w, hw, hc, hv, k, hk⟩ := h
    exact ⟨w, hw, _, hv, k, hk, hc.symm, rfl⟩

/-! ## Results -/

namespace ResultsRecorded

theorem mem_results_iff (h : f.ResultsRecorded) {w : Wiring} (hw : w ∈ f.wirings) :
    v ∈ w.results ↔ ∃ k, f.origin? v = some (.result w.id k) := by
  rw [List.mem_iff_getElem?]
  simp only [h v]
  constructor
  · intro hx
    obtain ⟨k, hk⟩ := hx
    exact ⟨k, w, hw, rfl, hk⟩
  · intro hx
    obtain ⟨k, w', hw', hid, hk⟩ := hx
    exact ⟨k, wiring_inj hw' hw hid ▸ hk⟩

/-- A value is a result of one operation only. -/
theorem owner_unique (h : f.ResultsRecorded) {w w' : Wiring} (hw : w ∈ f.wirings)
    (hw' : w' ∈ f.wirings) (hv : v ∈ w.results) (hv' : v ∈ w'.results) : w = w' := by
  obtain ⟨k, hk⟩ := (h.mem_results_iff hw).1 hv
  obtain ⟨k', hk'⟩ := (h.mem_results_iff hw').1 hv'
  rw [hk] at hk'
  obtain ⟨hid, -⟩ : w.id = w'.id ∧ k = k' := by simpa using hk'
  exact wiring_inj hw hw' hid

/-- The results of an operation are different, since each knows its position. -/
theorem nodup_results_of_mem (h : f.ResultsRecorded) {w : Wiring} (hw : w ∈ f.wirings) :
    w.results.Nodup := by
  rw [List.nodup_iff_getElem?_ne_getElem?]
  intro i j hij hj heq
  have hi : w.results[i]? = some w.results[i] := List.getElem?_eq_getElem (by omega)
  have hoi := (h _ w.id i).2 ⟨w, hw, rfl, hi⟩
  have hoj := (h _ w.id j).2 ⟨w, hw, rfl, heq ▸ hi⟩
  rw [hoi] at hoj
  obtain ⟨-, hk⟩ : w.id = w.id ∧ i = j := by simpa using hoj
  omega

theorem empty (name : String) : (Func.empty name).ResultsRecorded := by
  intro v id k
  simp [origin?, value?, Func.empty, wirings, Body.empty]

theorem addArgument (h : f.ResultsRecorded) (ty : Ty) : (f.addArgument ty).2.ResultsRecorded := by
  intro v id k
  rw [origin?_addArgument, wirings_addArgument, ← h v]
  split
  · next hv =>
    rw [origin?_eq_none_iff.2 (Nat.le_of_eq hv.symm)]
    simp
  · rfl

theorem pushOp (h : f.ResultsRecorded) {op : Operation} {tys : List Ty} {id : OpId}
    (hg : f.pushOp op tys = .ok (id, g)) : g.ResultsRecorded := by
  intro v id k
  rw [origin?_pushOp hg, wirings_pushOp hg]
  simp only [List.mem_append, List.mem_singleton, or_and_right, exists_or, exists_eq_left,
    getElem?_newResults]
  rw [← h v]
  split
  · next hlt =>
    constructor
    · exact .inl
    · rintro (ho | ⟨-, -, hk⟩)
      · exact ho
      · exact absurd hlt (hk ▸ Nat.not_lt.2 (Nat.le_add_right ..))
  · next hlt =>
    rw [origin?_eq_none_iff.2 (Nat.le_of_not_lt hlt)]
    split
    · grind
    · grind

theorem eraseOp (h : f.ResultsRecorded) {id : OpId} (hg : f.eraseOp id = .ok g) :
    g.ResultsRecorded := by
  obtain ⟨op, hop, -⟩ := eraseOp_eq_ok_iff.1 hg
  have hw : ⟨id, op.operands, op.results⟩ ∈ f.wirings := mem_wirings_of_op? hop
  intro v id' k
  rw [origin?_eraseOp hg hop, wirings_eraseOp hg]
  by_cases hv : v ∈ op.results
  · -- an erased result belongs to no operation that is left
    simp only [if_pos hv, Option.map_eq_some_iff, reduceCtorEq, and_false, exists_false,
      false_iff]
    intro hx
    obtain ⟨w', hw', -, hk⟩ := hx
    rw [List.mem_filter] at hw'
    have heq := h.owner_unique hw hw'.1 hv (List.mem_of_getElem? hk)
    simp [← heq] at hw'
  · simp only [if_neg hv, Option.map_id', h v]
    constructor
    · intro hx
      obtain ⟨w', hw', hid, hk⟩ := hx
      refine ⟨w', List.mem_filter.2 ⟨hw', ?_⟩, hid, hk⟩
      have hne : w'.id ≠ id := by
        intro heq
        have hww := wiring_inj hw' hw heq
        rw [hww] at hk
        exact hv (List.mem_of_getElem? hk)
      simpa using hne
    · intro hx
      obtain ⟨w', hw', hid, hk⟩ := hx
      exact ⟨w', (List.mem_filter.1 hw').1, hid, hk⟩

end ResultsRecorded

namespace Invariant

/-! ## Consequences -/

theorem resultsRecorded (h : f.Invariant) : f.ResultsRecorded := h.result_iff

theorem mem_arguments_iff (h : f.Invariant) :
    v ∈ f.arguments ↔ ∃ n, f.origin? v = some (.argument n) := by
  simp [List.mem_iff_getElem?, h.argument_iff]

theorem mem_results_iff (h : f.Invariant) {w : Wiring} (hw : w ∈ f.wirings) :
    v ∈ w.results ↔ ∃ k, f.origin? v = some (.result w.id k) :=
  h.resultsRecorded.mem_results_iff hw

theorem result_lt (h : f.Invariant) {node : Node} (hnode : node ∈ f.body.nodes)
    (hv : v ∈ node.op.results) : v < f.values.size := by
  obtain ⟨k, hk⟩ := (h.mem_results_iff (wiring_mem hnode)).1 hv
  exact lt_size_of_origin? hk

theorem owner_unique (h : f.Invariant) {w w' : Wiring} (hw : w ∈ f.wirings)
    (hw' : w' ∈ f.wirings) (hv : v ∈ w.results) (hv' : v ∈ w'.results) : w = w' :=
  h.resultsRecorded.owner_unique hw hw' hv hv'

theorem node_unique (h : f.Invariant) {x y : Node} (hx : x ∈ f.body.nodes) (hy : y ∈ f.body.nodes)
    (hv : v ∈ x.op.results) (hv' : v ∈ y.op.results) : x = y := by
  have hown := h.owner_unique (wiring_mem hx) (wiring_mem hy) hv hv'
  exact node_inj hx hy (congrArg Wiring.id hown)

theorem notMem_results_of_mem_arguments (h : f.Invariant) {node : Node}
    (hnode : node ∈ f.body.nodes) (hv : v ∈ f.arguments) : v ∉ node.op.results := by
  intro hin
  obtain ⟨n, hn⟩ := h.mem_arguments_iff.1 hv
  obtain ⟨k, hk⟩ := (h.mem_results_iff (wiring_mem hnode)).1 hin
  rw [hn] at hk
  cases hk

/-- The values defined in front of an operation are arguments and results, none of them erased. -/
theorem origin?_of_defined (h : f.Invariant) {ws : List Wiring} (hws : ws ⊆ f.wirings)
    (hv : v ∈ f.arguments ++ ws.flatMap Wiring.results) :
    ∃ o, f.origin? v = some o ∧ o ≠ .erased := by
  rcases List.mem_append.1 hv with hv | hv
  · obtain ⟨n, hn⟩ := h.mem_arguments_iff.1 hv
    exact ⟨_, hn, by simp⟩
  · obtain ⟨w, hw, hv⟩ := List.mem_flatMap.1 hv
    obtain ⟨k, hk⟩ := (h.mem_results_iff (hws hw)).1 hv
    exact ⟨_, hk, by simp⟩

/-- An operand is an argument or a result of an earlier operation. -/
theorem operand_defined (h : f.Invariant) {pre post : List Wiring} {w : Wiring}
    (hs : f.wirings = pre ++ w :: post) (hv : v ∈ w.operands) :
    v ∈ f.arguments ++ pre.flatMap Wiring.results := by
  have ho := h.ordered
  rw [hs, ordered_append] at ho
  exact ho.2.1 hv

theorem operand_origin? (h : f.Invariant) {w : Wiring} (hw : w ∈ f.wirings)
    (hv : v ∈ w.operands) : ∃ o, f.origin? v = some o ∧ o ≠ .erased := by
  obtain ⟨pre, post, hs⟩ := List.append_of_mem hw
  exact h.origin?_of_defined (by simp [hs]) (h.operand_defined hs hv)

theorem mem_uses_iff (h : f.Invariant) {w : Wiring} (hw : w ∈ f.wirings) {op : OpId} {k : Nat}
    (hv : f.origin? v = some (.result op k)) : ⟨op, w.id, v⟩ ∈ f.uses ↔ v ∈ w.operands := by
  rw [h.uses_perm.mem_iff, mem_operandUses_iff]
  constructor
  · intro hx
    obtain ⟨w', hw', hid, hv', -⟩ := hx
    exact wiring_inj hw' hw hid ▸ hv'
  · intro hv'
    exact ⟨w, hw, rfl, hv', k, hv⟩

/-- The consumers of a value are the operations that take it, from whichever part of the function
they are read. -/
theorem consumers_eq (h : f.Invariant) {o : Origin} (ho : f.origin? v = some o)
    (hne : o ≠ .erased) :
    f.consumers v = .ok ((f.body.nodes.filter fun node => v ∈ node.op.operands).map Node.id) := by
  unfold consumers
  rw [producer_eq, ho]
  cases o with
  | erased => exact absurd rfl hne
  | argument n => simp
  | result op k =>
    simp only [Except.ok.injEq]
    unfold opIds Body.ids
    rw [List.filter_map]
    congr 1
    apply List.filter_congr
    intro node hnode
    have hmem := h.mem_uses_iff (wiring_mem hnode) ho
    simpa [Node.wiring] using hmem

/-- What produces a value is an operation of the function, and what consumes it are the operations
that take it. -/
theorem exists_of_producer (h : f.Invariant) {id : OpId}
    (hproducer : f.producer v = .ok (some id)) :
    ∃ node ∈ f.body.nodes, node.id = id ∧ v ∈ node.op.results ∧
      f.consumers v = .ok ((f.body.nodes.filter fun node => v ∈ node.op.operands).map Node.id) := by
  obtain ⟨k, horigin⟩ := producer_eq_some_iff.1 hproducer
  obtain ⟨w, hw, rfl, hresult⟩ := (h.result_iff v id k).1 horigin
  obtain ⟨node, hnode, rfl⟩ := List.mem_map.1 hw
  exact ⟨node, hnode, rfl, List.mem_of_getElem? hresult, h.consumers_eq horigin (by simp)⟩

/-! ## Preservation -/

theorem empty (name : String) : (Func.empty name).Invariant where
  argument_iff v n := by simp [origin?, value?, Func.empty]
  result_iff := ResultsRecorded.empty name
  ordered := by simp [Ordered, Func.empty, wirings, Body.empty]
  uses_perm := by simp [Func.empty, operandUses, wirings, Body.empty]

/-- The invariant depends on the wiring only. -/
theorem of_wiring (h : f.Invariant) (hargs : g.arguments = f.arguments)
    (horigin : ∀ v, g.origin? v = f.origin? v) (hwirings : g.wirings = f.wirings)
    (huses : g.uses = f.uses) : g.Invariant where
  argument_iff v n := by rw [horigin, hargs, h.argument_iff]
  result_iff v id k := by rw [horigin, hwirings, h.result_iff]
  ordered := by rw [hargs, hwirings]; exact h.ordered
  uses_perm := by
    rw [huses]
    unfold operandUses
    rw [hwirings, operandUses_congr fun _ _ v _ => horigin v]
    exact h.uses_perm

/-- The next value is not there yet. -/
theorem notMem_arguments_size (h : f.Invariant) : f.values.size ∉ f.arguments := by
  intro hmem
  obtain ⟨n, hn⟩ := h.mem_arguments_iff.1 hmem
  rw [origin?_eq_none_iff.2 (Nat.le_refl _)] at hn
  cases hn

theorem addArgument (h : f.Invariant) (ty : Ty) : (f.addArgument ty).2.Invariant where
  argument_iff v n := by
    rw [origin?_addArgument]
    change _ ↔ (f.arguments ++ [f.values.size])[n]? = some v
    split
    · next hv =>
      subst hv
      rw [List.getElem?_append]
      split
      · next hn =>
        simp only [Option.some.injEq, Origin.argument.injEq]
        constructor
        · intro heq
          omega
        · intro hget
          exact absurd (List.mem_of_getElem? hget) h.notMem_arguments_size
      · next hn =>
        simp only [Option.some.injEq, Origin.argument.injEq, List.getElem?_singleton]
        grind
    · next hv =>
      rw [h.argument_iff, List.getElem?_append]
      split
      · rfl
      · next hn =>
        rw [List.getElem?_eq_none (by omega), List.getElem?_singleton]
        grind
  result_iff := h.resultsRecorded.addArgument ty
  ordered := h.ordered.mono (List.subset_append_left ..)
  uses_perm := by
    change f.uses.Perm _
    unfold operandUses
    rw [wirings_addArgument, operandUses_congr (f := f)]
    · exact h.uses_perm
    · intro w hw v hv
      obtain ⟨o, ho, -⟩ := h.operand_origin? hw hv
      rw [origin?_addArgument, if_neg]
      rintro rfl
      rw [origin?_eq_none_iff.2 (Nat.le_refl _)] at ho
      cases ho

theorem pushOp (h : f.Invariant) {op : Operation} {tys : List Ty} {id : OpId}
    (hg : f.pushOp op tys = .ok (id, g)) : g.Invariant := by
  have hops := (pushOp_eq_ok_iff.1 hg).1
  -- the values that were there keep their origins
  have hkept : ∀ {v o}, f.origin? v = some o → g.origin? v = f.origin? v := by
    intro v o ho
    rw [origin?_pushOp hg, if_pos (lt_size_of_origin? ho)]
  refine ⟨?_, h.resultsRecorded.pushOp hg, ?_, ?_⟩
  · intro v n
    rw [origin?_pushOp hg, arguments_pushOp hg, ← h.argument_iff]
    split
    · rfl
    · next hlt =>
      rw [origin?_eq_none_iff.2 (Nat.le_of_not_lt hlt)]
      split <;> simp
  · rw [arguments_pushOp hg, wirings_pushOp hg, ordered_append]
    refine ⟨h.ordered, ?_, trivial⟩
    intro v hv
    obtain ⟨o, ho, hne⟩ := hops v hv
    rw [List.mem_append]
    cases o with
    | erased => exact absurd rfl hne
    | argument n => exact .inl (h.mem_arguments_iff.2 ⟨n, ho⟩)
    | result id k =>
      obtain ⟨w, hw, -, hk⟩ := (h.result_iff v id k).1 ho
      exact .inr (List.mem_flatMap.2 ⟨w, hw, List.mem_of_getElem? hk⟩)
  · unfold operandUses
    rw [uses_pushOp hg, wirings_pushOp hg, List.flatMap_append, operandUses_congr (f := f)]
    · refine h.uses_perm.append ?_
      rw [List.flatMap_singleton]
      apply List.Perm.of_eq
      apply List.filterMap_congr
      intro v hv
      obtain ⟨o, ho, -⟩ := hops v hv
      rw [useOf?_eq, useOf?_eq, hkept ho]
    · intro w hw v hv
      obtain ⟨o, ho, -⟩ := h.operand_origin? hw hv
      exact hkept ho

/-- What passes the check of an erasure is not taken by any operation. -/
theorem notMem_operands_of_checkUnused (h : f.Invariant) {name : OpName} {o : Origin}
    (ho : f.origin? v = some o) (hne : o ≠ .erased) (hcheck : f.checkUnused name v = .ok ())
    {w : Wiring} (hw : w ∈ f.wirings) : v ∉ w.operands := by
  unfold checkUnused at hcheck
  rw [h.consumers_eq ho hne] at hcheck
  obtain ⟨node, hnode, rfl⟩ := List.mem_map.1 hw
  intro hv
  cases hl : (f.body.nodes.filter fun node => v ∈ node.op.operands) with
  | nil =>
    have hfilter := List.filter_eq_nil_iff.1 hl node hnode
    exact hfilter (decide_eq_true hv)
  | cons n l => simp [hl] at hcheck

theorem eraseOp (h : f.Invariant) {id : OpId} (hg : f.eraseOp id = .ok g) : g.Invariant := by
  obtain ⟨op, hop, hchecks, -⟩ := eraseOp_eq_ok_iff.1 hg
  have horigin := origin?_eraseOp hg hop
  have hw : ⟨id, op.operands, op.results⟩ ∈ f.wirings := mem_wirings_of_op? hop
  have hresult : ∀ {v}, v ∈ op.results ↔ ∃ k, f.origin? v = some (.result id k) :=
    h.mem_results_iff hw
  have hunused : ∀ {v}, v ∈ op.results → ∀ w ∈ f.wirings, v ∉ w.operands := by
    intro v hv w' hw'
    obtain ⟨k, hk⟩ := hresult.1 hv
    exact h.notMem_operands_of_checkUnused hk (by simp) (hchecks v hv) hw'
  refine ⟨?_, h.resultsRecorded.eraseOp hg, ?_, ?_⟩
  · intro v n
    rw [horigin, arguments_eraseOp hg, ← h.argument_iff]
    by_cases hv : v ∈ op.results
    · obtain ⟨k, hk⟩ := hresult.1 hv
      simp [hv, hk]
    · simp [hv]
  · rw [arguments_eraseOp hg, wirings_eraseOp hg]
    refine h.ordered.filter (fun v hv => .inl hv) ?_
    intro w' hw' hout v hv w'' hw''
    have hid : w'.id = id := by simpa using hout
    rw [wiring_inj hw' hw hid] at hv
    exact hunused hv w'' hw''
  · rw [uses_eraseOp hg]
    refine (h.uses_perm.filter _).trans (.of_eq ?_)
    unfold operandUses
    rw [wirings_eraseOp hg, operandUses_congr (f := f) (g := g)]
    · apply filter_operandUses
      intro w' hw' v hv k hk
      exact hunused (hresult.2 ⟨k, hk⟩) w' hw' hv
    · intro w' hw' v hv
      have hv' : v ∉ op.results := fun hr => hunused hr w' (List.mem_filter.1 hw').1 hv
      rw [horigin]
      simp [hv']

theorem setValueTy (h : f.Invariant) {ty : Ty} (hg : f.setValueTy v ty = .ok g) :
    g.Invariant := by
  cases eq_of_setValueTy hg
  exact h.of_wiring rfl (f.origin?_modify_ty v · ty) rfl rfl

theorem modifyOp (h : f.Invariant) {id : OpId} {change : Operation → Operation}
    (hchange : ∀ op, (change op).operands = op.operands ∧ (change op).results = op.results)
    (hg : f.modifyOp id change = .ok g) : g.Invariant := by
  cases eq_of_modifyOp hg
  refine h.of_wiring rfl (fun _ => rfl) (wirings_mapOps ?_) rfl
  intro node _
  split
  · exact hchange node.op
  · exact ⟨rfl, rfl⟩

theorem apply (h : f.Invariant) {e : Edit} (hg : f.apply e = .ok g) : g.Invariant := by
  cases e with
  | addArgument ty =>
    cases hg
    exact h.addArgument ty
  | pushOp op tys =>
    obtain ⟨⟨id, g'⟩, hpush, rfl⟩ := Fallible.map_eq_ok_iff.1 hg
    exact h.pushOp hpush
  | eraseOp id => exact h.eraseOp hg
  | setValueTy v ty => exact h.setValueTy hg
  | setSignature signature =>
    cases hg
    exact h.of_wiring rfl (fun _ => rfl) rfl rfl
  | relabel id name attributes loc =>
    refine h.modifyOp ?_ hg
    exact fun _ => ⟨rfl, rfl⟩

end Invariant

/-- **Every built function satisfies the invariant.** -/
theorem Built.invariant (h : f.Built) : f.Invariant :=
  h.induct Invariant.empty fun _ _ _ hf hg => hf.apply hg

end TensorIR.Func
