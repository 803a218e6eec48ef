import Mathlib.Data.Set.Function
import TensorIR.Proofs.Func.WellFormed

/-!
# Renumbered functions

The numbers of operations and values are names without meaning, and operations that do not depend
on each other may stand in either order. `Renumbering f g ops values` says that `g` is the program
of `f` with every number read through `ops` and `values`, in any order; `Aligned` says the same of
functions in the same order, and down to the locations. On functions that satisfy the invariant both
maps can be undone, so a renumbering can be read from the other side (`Renumbering.symm`).
-/

namespace TensorIR

namespace Operation

/-- The operation with values under other numbers. -/
def rename (values : ValueId → ValueId) (op : Operation) : Operation :=
  { op with operands := op.operands.map values, results := op.results.map values }

/-- The same operator with the same attributes, operands and results, read through `values`. The
locations may differ. -/
structure SameUnder (values : ValueId → ValueId) (op op' : Operation) : Prop where
  name : op'.name = op.name
  attributes : op'.attributes = op.attributes
  operands : op'.operands = op.operands.map values
  results : op'.results = op.results.map values

instance (values : ValueId → ValueId) (op op' : Operation) :
    Decidable (op.SameUnder values op') :=
  decidable_of_iff
    (op'.name = op.name ∧ op'.attributes = op.attributes ∧
      op'.operands = op.operands.map values ∧ op'.results = op.results.map values)
    ⟨fun h => ⟨h.1, h.2.1, h.2.2.1, h.2.2.2⟩, fun h => ⟨h.1, h.2, h.3, h.4⟩⟩

theorem sameUnder_rename (values : ValueId → ValueId) (op : Operation) :
    op.SameUnder values (op.rename values) := ⟨rfl, rfl, rfl, rfl⟩

theorem SameUnder.isReturn {values : ValueId → ValueId} {op op' : Operation}
    (h : op.SameUnder values op') : op'.isReturn = op.isReturn := by
  unfold Operation.isReturn
  rw [h.name]

end Operation

namespace Func

/-- The values of a program: its arguments and the results of its operations. -/
def defined (f : Func) : List ValueId :=
  f.arguments ++ f.results

/-- The same program under other numbers, in any order. -/
structure Renumbering (f g : Func) (ops : OpId → OpId) (values : ValueId → ValueId) : Prop where
  /-- Operations correspond one to one. -/
  ops_perm : (f.opIds.map ops).Perm g.opIds
  /-- Values correspond one to one. -/
  values_perm : (f.defined.map values).Perm g.defined
  same : ∀ node ∈ f.body.nodes, ∃ op ∈ g.op? (ops node.id), node.op.SameUnder values op
  arguments : g.arguments = f.arguments.map values
  tys : ∀ v ∈ f.defined, g.valueTy? (values v) = f.valueTy? v
  signature : g.signature = f.signature

/-- The same program under other numbers, in the same order. -/
structure Aligned (f g : Func) (ops : OpId → OpId) (values : ValueId → ValueId) : Prop where
  name : g.name = f.name
  arguments : g.arguments = f.arguments.map values
  nodes : g.body.nodes = f.body.nodes.map fun node => ⟨ops node.id, node.op.rename values⟩
  tys : ∀ v ∈ f.defined, g.valueTy? (values v) = f.valueTy? v
  signature : g.signature = f.signature

variable {f g : Func} {ops : OpId → OpId} {values : ValueId → ValueId} {v : ValueId}

/-! ## The values of a program -/

theorem mem_results_iff_exists : v ∈ f.results ↔ ∃ node ∈ f.body.nodes, v ∈ node.op.results := by
  simp [results, Body.ops, List.mem_flatMap]

theorem mem_defined_of_argument (h : v ∈ f.arguments) : v ∈ f.defined :=
  List.mem_append_left _ h

theorem mem_defined_of_result {node : Node} (hnode : node ∈ f.body.nodes)
    (hv : v ∈ node.op.results) : v ∈ f.defined :=
  List.mem_append_right _ (mem_results_iff_exists.2 ⟨node, hnode, hv⟩)

namespace Invariant

theorem operand_mem_defined (hf : f.Invariant) {node : Node} (hnode : node ∈ f.body.nodes)
    (hv : v ∈ node.op.operands) : v ∈ f.defined := by
  obtain ⟨pre, post, hs⟩ := List.append_of_mem hnode
  rcases hf.wellFormed.operand_defined pre node post hs v hv with harg | ⟨p, hp, hres⟩
  · exact mem_defined_of_argument harg
  · exact mem_defined_of_result (by simp [hs, hp]) hres

/-- The values of a program are those that are not erased. -/
theorem mem_defined_iff (hf : f.Invariant) :
    v ∈ f.defined ↔ ∃ o, f.origin? v = some o ∧ o ≠ .erased := by
  constructor
  · intro hv
    rcases List.mem_append.1 hv with harg | hres
    · obtain ⟨n, hn⟩ := hf.mem_arguments_iff.1 harg
      exact ⟨_, hn, by simp⟩
    · obtain ⟨node, hnode, hv⟩ := mem_results_iff_exists.1 hres
      obtain ⟨k, hk⟩ := (hf.mem_results_iff (wiring_mem hnode)).1 hv
      exact ⟨_, hk, by simp⟩
  · intro h
    obtain ⟨o, ho, hne⟩ := h
    cases o with
    | erased => exact absurd rfl hne
    | argument n =>
      exact mem_defined_of_argument (hf.mem_arguments_iff.2 ⟨n, ho⟩)
    | result id k =>
      obtain ⟨op, hop, hk⟩ := hf.op?_result_iff.1 ho
      exact mem_defined_of_result (Body.op?_eq_some_iff.1 hop) (List.mem_of_getElem? hk)

theorem exists_valueTy? (hf : f.Invariant) (hv : v ∈ f.defined) :
    ∃ ty, f.valueTy? v = some ty := by
  obtain ⟨o, ho, -⟩ := hf.mem_defined_iff.1 hv
  obtain ⟨value, hvalue, -⟩ := Option.map_eq_some_iff.1 ho
  exact ⟨value.ty, Option.map_eq_some_iff.2 ⟨value, hvalue, rfl⟩⟩

/-- No argument is listed twice, since each knows its position. -/
theorem nodup_arguments (hf : f.Invariant) : f.arguments.Nodup := by
  rw [List.nodup_iff_getElem?_ne_getElem?]
  intro i j hij hj heq
  have hi : f.arguments[i]? = some f.arguments[i] := List.getElem?_eq_getElem (by omega)
  have hoi := (hf.argument_iff _ i).2 hi
  have hoj := (hf.argument_iff _ j).2 (heq ▸ hi)
  rw [hoi] at hoj
  obtain rfl : i = j := by simpa using hoj
  omega

theorem nodup_defined (hf : f.Invariant) : f.defined.Nodup := by
  rw [defined, List.nodup_append]
  refine ⟨hf.nodup_arguments, hf.nodup_results, ?_⟩
  rintro v harg _ hres rfl
  obtain ⟨node, hnode, hv⟩ := mem_results_iff_exists.1 hres
  exact hf.notMem_results_of_mem_arguments hnode harg hv

end Invariant

/-! ## Renumberings -/

theorem map_map_eq_self {there back : Nat → Nat} {l : List Nat}
    (h : ∀ a ∈ l, back (there a) = a) : (l.map there).map back = l := by
  rw [List.map_map]
  exact (List.map_congr_left h).trans (List.map_id' l)

theorem returns_eq_filter (f : Func) :
    f.returns = f.opIds.filter fun id => (f.op? id).any Operation.isReturn := by
  unfold returns opIds Body.ids
  rw [List.filter_map]
  congr 1
  apply List.filter_congr
  intro node hnode
  have hop : f.op? node.id = some node.op := Body.op?_eq_some_iff.2 hnode
  simp [hop]

namespace Renumbering

theorem ops_inj (h : Renumbering f g ops values) {a b : OpId} (ha : a ∈ f.opIds)
    (hb : b ∈ f.opIds) (heq : ops a = ops b) : a = b :=
  List.inj_on_of_nodup_map (h.ops_perm.nodup_iff.2 g.body.nodup_ids) ha hb heq

theorem values_inj (h : Renumbering f g ops values) (hg : g.Invariant) {a b : ValueId}
    (ha : a ∈ f.defined) (hb : b ∈ f.defined) (heq : values a = values b) : a = b :=
  List.inj_on_of_nodup_map (h.values_perm.nodup_iff.2 hg.nodup_defined) ha hb heq

/-- A value is in a list of values of the program if it is after the renumbering. -/
theorem mem_map_values_iff (h : Renumbering f g ops values) (hg : g.Invariant)
    {l : List ValueId} (hl : ∀ u ∈ l, u ∈ f.defined) (hv : v ∈ f.defined) :
    values v ∈ l.map values ↔ v ∈ l := by
  rw [List.mem_map]
  constructor
  · intro hx
    obtain ⟨u, hu, heq⟩ := hx
    exact h.values_inj hg (hl u hu) hv heq ▸ hu
  · exact fun hv => ⟨v, hv, rfl⟩

theorem mem_defined (h : Renumbering f g ops values) (hv : v ∈ f.defined) :
    values v ∈ g.defined :=
  h.values_perm.mem_iff.1 (List.mem_map_of_mem hv)

theorem exists_of_mem_defined (h : Renumbering f g ops values) {u : ValueId}
    (hu : u ∈ g.defined) : ∃ v ∈ f.defined, values v = u :=
  List.mem_map.1 (h.values_perm.mem_iff.2 hu)

theorem exists_mem_nodes (h : Renumbering f g ops values) {node : Node}
    (hnode : node ∈ f.body.nodes) :
    ∃ op, ⟨ops node.id, op⟩ ∈ g.body.nodes ∧ node.op.SameUnder values op := by
  obtain ⟨op, hop, hsame⟩ := h.same node hnode
  exact ⟨op, Body.op?_eq_some_iff.1 hop, hsame⟩

/-- Every operation of the other function stands for one of this. -/
theorem exists_of_mem_nodes (h : Renumbering f g ops values) {node : Node}
    (hnode : node ∈ g.body.nodes) :
    ∃ n ∈ f.body.nodes, node.id = ops n.id ∧ n.op.SameUnder values node.op := by
  have hid : node.id ∈ f.opIds.map ops := h.ops_perm.mem_iff.2 (List.mem_map_of_mem hnode)
  obtain ⟨_, hmem, hid⟩ := List.mem_map.1 hid
  obtain ⟨n, hn, rfl⟩ := List.mem_map.1 hmem
  obtain ⟨op, hop, hsame⟩ := h.exists_mem_nodes hn
  obtain rfl := node_inj hop hnode hid
  exact ⟨n, hn, rfl, hsame⟩

/-- A renumbering can be undone. -/
theorem symm (h : Renumbering f g ops values) (hf : f.Invariant) (hg : g.Invariant) :
    ∃ ops' values', Renumbering g f ops' values' ∧ ∀ v ∈ f.defined, values' (values v) = v := by
  obtain ⟨ops', hops⟩ : ∃ ops' : OpId → OpId, ∀ id ∈ f.opIds, ops' (ops id) = id := by
    have hinj : Set.InjOn ops {id | id ∈ f.opIds} := fun _ ha _ hb => h.ops_inj ha hb
    exact ⟨_, hinj.leftInvOn_invFunOn⟩
  obtain ⟨values', hvalues⟩ : ∃ values' : ValueId → ValueId,
      ∀ v ∈ f.defined, values' (values v) = v := by
    have hinj : Set.InjOn values {v | v ∈ f.defined} := fun _ ha _ hb => h.values_inj hg ha hb
    exact ⟨_, hinj.leftInvOn_invFunOn⟩
  have hback : ∀ l : List ValueId, (∀ v ∈ l, v ∈ f.defined) → (l.map values).map values' = l :=
    fun l hl => map_map_eq_self fun v hv => hvalues v (hl v hv)
  refine ⟨ops', values', ?_, hvalues⟩
  constructor
  case ops_perm =>
    have hperm := (h.ops_perm.map ops').symm
    rw [map_map_eq_self hops] at hperm
    exact hperm
  case values_perm =>
    have hperm := (h.values_perm.map values').symm
    rw [hback _ fun _ hv => hv] at hperm
    exact hperm
  case same =>
    intro node hnode
    obtain ⟨n, hn, hid, hsame⟩ := h.exists_of_mem_nodes hnode
    rw [hid, hops n.id (List.mem_map_of_mem hn)]
    refine ⟨n.op, Body.op?_eq_some_iff.2 hn, hsame.name.symm, hsame.attributes.symm, ?_, ?_⟩
    · rw [hsame.operands, hback _ fun v hv => hf.operand_mem_defined hn hv]
    · rw [hsame.results, hback _ fun v hv => mem_defined_of_result hn hv]
  case arguments =>
    rw [h.arguments, hback _ fun v hv => mem_defined_of_argument hv]
  case tys =>
    intro u hu
    obtain ⟨v, hv, rfl⟩ := h.exists_of_mem_defined hu
    rw [hvalues v hv, h.tys v hv]
  case signature => exact h.signature.symm

theorem origin?_argument (h : Renumbering f g ops values) (hf : f.Invariant) (hg : g.Invariant)
    {n : Nat} (hv : f.origin? v = some (.argument n)) :
    g.origin? (values v) = some (.argument n) := by
  rw [hg.argument_iff, h.arguments, List.getElem?_map, (hf.argument_iff v n).1 hv, Option.map_some]

theorem origin?_result (h : Renumbering f g ops values) (hf : f.Invariant) (hg : g.Invariant)
    {id : OpId} {k : Nat} (hv : f.origin? v = some (.result id k)) :
    g.origin? (values v) = some (.result (ops id) k) := by
  obtain ⟨op, hop, hk⟩ := hf.op?_result_iff.1 hv
  obtain ⟨op', hop', hsame⟩ := h.same _ (Body.op?_eq_some_iff.1 hop)
  refine hg.op?_result_iff.2 ⟨op', hop', ?_⟩
  rw [hsame.results, List.getElem?_map, hk, Option.map_some]

theorem returns_perm (h : Renumbering f g ops values) : (f.returns.map ops).Perm g.returns := by
  have hfilter : f.returns.map ops =
      (f.opIds.map ops).filter fun id => (g.op? id).any Operation.isReturn := by
    rw [List.filter_map, returns_eq_filter]
    congr 1
    apply List.filter_congr
    intro id hid
    obtain ⟨node, hnode, rfl⟩ := List.mem_map.1 hid
    obtain ⟨op, hop, hsame⟩ := h.same node hnode
    have hop' : f.op? node.id = some node.op := Body.op?_eq_some_iff.2 hnode
    simp [hop', Option.mem_def.1 hop, hsame.isReturn]
  rw [hfilter, returns_eq_filter g]
  exact h.ops_perm.filter _

/-- The one return stands for the one return. -/
theorem terminator_eq_ok (h : Renumbering f g ops values) {t : OpId} (ht : g.terminator = .ok t) :
    ∃ t', f.terminator = .ok t' ∧ ops t' = t := by
  have hperm := h.returns_perm
  unfold terminator at ht
  split at ht
  · next id hreturns =>
    cases ht
    rw [hreturns, List.perm_singleton, List.map_eq_singleton_iff] at hperm
    obtain ⟨t', hone, heq⟩ := hperm
    refine ⟨t', ?_, heq⟩
    unfold terminator
    rw [hone]
  · cases ht
  · cases ht

end Renumbering

/-! ## Functions in the same order -/

namespace Aligned

theorem opIds_eq (h : Aligned f g ops values) : g.opIds = f.opIds.map ops := by
  simp [opIds, Body.ids, h.nodes, Function.comp_def]

theorem results_eq (h : Aligned f g ops values) : g.results = f.results.map values := by
  simp [results, Body.ops, h.nodes, List.flatMap_map, List.map_flatMap, Operation.rename]

theorem defined_eq (h : Aligned f g ops values) : g.defined = f.defined.map values := by
  rw [defined, defined, h.arguments, h.results_eq, List.map_append]

theorem renumbering (h : Aligned f g ops values) : Renumbering f g ops values where
  ops_perm := .of_eq h.opIds_eq.symm
  values_perm := .of_eq h.defined_eq.symm
  same node hnode := by
    refine ⟨node.op.rename values, ?_, Operation.sameUnder_rename values node.op⟩
    refine Body.op?_eq_some_iff.2 ?_
    rw [h.nodes]
    exact List.mem_map.2 ⟨node, hnode, rfl⟩
  arguments := h.arguments
  tys := h.tys
  signature := h.signature

/-- A value is taken by the operations that stand for those that take it. -/
theorem consumers_eq (h : Aligned f g ops values) (hf : f.Invariant) (hg : g.Invariant)
    (hv : v ∈ f.defined) : g.consumers (values v) = (f.consumers v).map (List.map ops) := by
  obtain ⟨o, ho, hne⟩ := hf.mem_defined_iff.1 hv
  obtain ⟨o', ho', hne'⟩ := hg.mem_defined_iff.1 (h.renumbering.mem_defined hv)
  rw [hf.consumers_eq ho hne, hg.consumers_eq ho' hne', h.nodes, List.filter_map, List.map_map,
    Except.map, List.map_map]
  have htakes : ∀ node ∈ f.body.nodes,
      (values v ∈ (node.op.rename values).operands ↔ v ∈ node.op.operands) :=
    fun node hnode =>
      h.renumbering.mem_map_values_iff hg (fun _ => hf.operand_mem_defined hnode) hv
  congr 2
  exact List.filter_congr fun node hnode => decide_eq_decide.2 (htakes node hnode)

end Aligned

end Func

end TensorIR
