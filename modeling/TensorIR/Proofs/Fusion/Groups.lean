import TensorIR.Proofs.Fusion.Plan

/-!
# Fusion groups can be scheduled

The groups are read off the attributes that fusion leaves. Each is a chain, so only what its last
member computes is taken outside (`getLast?_of_taken_outside`), and contracting every group to one
point leaves a graph without cycles (`Chained.acyclic`): a use between two blocks starts at the last
operation of the first block, so along uses the places of last operations increase.
-/

namespace TensorIR.Fusion

open Func (Invariant)

/-- The operations of the dialect that carry a group, in program order. -/
def members (dialect : String) (f : Func) (group : Attr) : List Node :=
  f.body.nodes.filter fun node =>
    node.op.name.dialect = dialect ∧ node.op.attribute? groupAttr = some group

/-- What is computed as a whole: a group, or an operation that is in none. -/
inductive Block where
  | group (group : Attr)
  | lone (id : OpId)
  deriving DecidableEq

/-- The block of an operation. Operations of other dialects are in no group. -/
def blockOf (dialect : String) (node : Node) : Block :=
  if node.op.name.dialect = dialect then
    match node.op.attribute? groupAttr with
    | some group => .group group
    | none => .lone node.id
  else .lone node.id

/-- An operation of the second block takes a result of the first, which is another one. -/
def Flows (dialect : String) (f : Func) (b b' : Block) : Prop :=
  b ≠ b' ∧ ∃ x ∈ f.body.nodes, ∃ y ∈ f.body.nodes, blockOf dialect x = b ∧ blockOf dialect y = b' ∧
    ∃ v ∈ x.op.results, v ∈ y.op.operands

/-- The groups of a function can be computed one after the other. -/
structure Schedulable (dialect : String) (f : Func) : Prop where
  /-- Every operation of the dialect is in a group. -/
  grouped : ∀ node ∈ f.body.nodes, node.op.name.dialect = dialect →
    ∃ group : Nat, node.op.attribute? groupAttr = some (.int group)
  chain : ∀ group, (members dialect f group).IsChain (Follows f)
  /-- What is taken outside a group is a result of its last member. -/
  taken_outside : ∀ group, ∀ x ∈ members dialect f group, ∀ v ∈ x.op.results,
    ∀ y ∈ f.body.nodes, v ∈ y.op.operands → y ∉ members dialect f group →
      (members dialect f group).getLast? = some x
  acyclic : ∀ b, ¬Relation.TransGen (Flows dialect f) b b

/-- The same for any division into blocks. -/
def FlowsBy (block : Node → Block) (f : Func) (b b' : Block) : Prop :=
  b ≠ b' ∧ ∃ x ∈ f.body.nodes, ∃ y ∈ f.body.nodes, block x = b ∧ block y = b' ∧
    ∃ v ∈ x.op.results, v ∈ y.op.operands

/-- A division into blocks in which every group is a chain: nothing takes a result of a member but
the next one, the last member apart. -/
structure Chained (block : Node → Block) (f : Func) : Prop where
  lone : ∀ node id, block node = .lone id → node.id = id
  chain : ∀ group,
    (f.body.nodes.filter fun node => block node = .group group).IsChain (OnlyTaker f)

variable {registry : Registry} {dialect : String} {f : Func} {p : Plan} {block : Node → Block}

/-! ## Blocks -/

theorem members_eq_filter (group : Attr) :
    members dialect f group =
      f.body.nodes.filter fun node => blockOf dialect node = .group group := by
  apply List.filter_congr
  intro node _
  rw [decide_eq_decide]
  unfold blockOf
  by_cases hd : node.op.name.dialect = dialect
  · cases node.op.attribute? groupAttr <;> simp [hd]
  · simp [hd]

theorem id_of_blockOf_eq_lone {node : Node} {id : OpId} (h : blockOf dialect node = .lone id) :
    node.id = id := by
  unfold blockOf at h
  split at h
  · split at h
    · cases h
    · cases h
      rfl
  · cases h
    rfl

/-- The place of an operation in program order. -/
def place (f : Func) (node : Node) : Nat :=
  f.opIds.idxOf node.id

theorem pairwise_place (f : Func) :
    f.body.nodes.Pairwise fun x y => place f x < place f y := by
  have hnodup : f.opIds.Nodup := f.body.nodup_ids
  have hids : (f.body.nodes.map Node.id).Pairwise fun a b =>
      f.opIds.idxOf a < f.opIds.idxOf b := by
    change f.opIds.Pairwise _
    rw [List.pairwise_iff_getElem]
    intro i j hi hj hij
    rw [hnodup.idxOf_getElem i hi, hnodup.idxOf_getElem j hj]
    exact hij
  rw [List.pairwise_map] at hids
  exact hids

/-- An operation stands behind those whose results it takes. -/
theorem place_lt_of_takes (hf : f.Invariant) {x y : Node} {v : ValueId} (hx : x ∈ f.body.nodes)
    (hy : y ∈ f.body.nodes) (hv : v ∈ x.op.results) (htakes : v ∈ y.op.operands) :
    place f x < place f y := by
  obtain ⟨k, hk⟩ := (hf.mem_results_iff (Func.wiring_mem hx)).1 hv
  exact hf.idxOf_lt_of_feeds ⟨v, (hf.mem_uses_iff (Func.wiring_mem hy) hk).2 htakes⟩

/-- A block whose result is taken by another block ends with the operation it is a result of. -/
theorem Chained.place_le (h : Chained block f) {x y z : Node} {v : ValueId}
    (hx : x ∈ f.body.nodes) (hy : y ∈ f.body.nodes) (hv : v ∈ x.op.results)
    (htakes : v ∈ y.op.operands) (hne : block x ≠ block y) (hz : z ∈ f.body.nodes)
    (hzx : block z = block x) : place f z ≤ place f x := by
  cases hb : block x with
  | lone id =>
    have hid : z.id = x.id := (h.lone z id (hzx.trans hb)).trans (h.lone x id hb).symm
    rw [place, place, hid]
  | group group =>
    have hmem : ∀ {n}, n ∈ f.body.nodes.filter (fun node => block node = .group group) ↔
        n ∈ f.body.nodes ∧ block n = .group group := by
      simp [List.mem_filter]
    have hlast := getLast?_of_taken_outside (h.chain group) (hmem.2 ⟨hx, hb⟩) hv hy htakes
      fun hin => hne (hb.trans (hmem.1 hin).2.symm)
    obtain ⟨front, hfront⟩ := List.getLast?_eq_some_iff.1 hlast
    have hpairs : (front ++ [x]).Pairwise fun a b => place f a < place f b := by
      rw [← hfront]
      exact (pairwise_place f).sublist List.filter_sublist
    have hzm := hmem.2 ⟨hz, hzx.trans hb⟩
    rw [hfront, List.mem_append] at hzm
    rcases hzm with hzm | hzm
    · exact Nat.le_of_lt ((List.pairwise_append.1 hpairs).2.2 z hzm x (by simp))
    · obtain rfl : z = x := by simpa using hzm
      exact Nat.le_refl _

/-- **No cycle remains** when chains are contracted. -/
theorem Chained.acyclic (hf : f.Invariant) (h : Chained block f) (b : Block) :
    ¬Relation.TransGen (FlowsBy block f) b b := by
  -- along uses, something in the last block stands behind everything in the first
  have hbehind : ∀ {b b'}, Relation.TransGen (FlowsBy block f) b b' →
      ∃ y ∈ f.body.nodes, block y = b' ∧
        ∀ z ∈ f.body.nodes, block z = b → place f z < place f y := by
    intro b b' hflows
    induction hflows with
    | single hflow =>
      obtain ⟨hne, x, hx, y, hy, rfl, rfl, v, hv, htakes⟩ := hflow
      refine ⟨y, hy, rfl, fun z hz hzx => ?_⟩
      exact Nat.lt_of_le_of_lt (h.place_le hx hy hv htakes hne hz hzx)
        (place_lt_of_takes hf hx hy hv htakes)
    | tail _ hflow ih =>
      obtain ⟨hne, x, hx, y, hy, rfl, rfl, v, hv, htakes⟩ := hflow
      obtain ⟨w, hw, hwx, hbefore⟩ := ih
      refine ⟨y, hy, rfl, fun z hz hzb => ?_⟩
      calc place f z < place f w := hbefore z hz hzb
        _ ≤ place f x := h.place_le hx hy hv htakes hne hw hwx
        _ < place f y := place_lt_of_takes hf hx hy hv htakes
  intro hcycle
  obtain ⟨y, hy, hyb, hall⟩ := hbehind hcycle
  exact Nat.lt_irrefl _ (hall y hy hyb)

/-! ## Writing groups -/

/-- The same operations, those of other dialects without any change. -/
def Kept (dialect : String) (f g : Func) : Prop :=
  List.Forall₂ (fun node node' => node'.wiring = node.wiring ∧ node'.op.name = node.op.name ∧
    (node.op.name.dialect ≠ dialect → node' = node)) f.body.nodes g.body.nodes

theorem operands_mark (p : Plan) (node : Node) : (mark p node).operands = node.op.operands := by
  unfold mark
  split <;> rfl

theorem results_mark (p : Plan) (node : Node) : (mark p node).results = node.op.results := by
  unfold mark
  split <;> rfl

theorem name_mark (p : Plan) (node : Node) : (mark p node).name = node.op.name := by
  unfold mark
  split <;> rfl

theorem attribute?_mark {node : Node} {group : Nat} (h : p.groupOf? node.id = some group) :
    (mark p node).attribute? groupAttr = some (.int group) := by
  simp [mark, h, Operation.attribute?, Operation.setAttribute]

theorem invariant_write (hf : f.Invariant) (p : Plan) : (write p f).Invariant :=
  hf.of_wiring rfl (fun _ => rfl)
    (Func.wirings_mapOps fun node _ => ⟨operands_mark p node, results_mark p node⟩) rfl

/-- Marks leave operands and results alone. -/
theorem Follows.write {x y : Node} (h : Follows f x y) (p : Plan) :
    Follows (write p f) ⟨x.id, mark p x⟩ ⟨y.id, mark p y⟩ := by
  obtain ⟨v, hres, hhead, honly⟩ := h
  refine ⟨v, by rw [results_mark, hres], by rw [operands_mark, hhead], ?_⟩
  intro node hnode hv
  obtain ⟨n, hn, rfl⟩ := List.mem_map.1 hnode
  rw [operands_mark] at hv
  rw [honly n hn hv]

/-- Except for returns, the operations of the dialect are put into groups. -/
theorem isGrouped_iff {op : Operation} (hd : dialect ≠ OpName.terminator.dialect) :
    isGrouped dialect op = true ↔ op.name.dialect = dialect := by
  unfold isGrouped Operation.isReturn
  by_cases hreturn : op.name = OpName.terminator
  · simp [hreturn, Ne.symm hd]
  · simp [hreturn]

/-- The members of a group are those that the plan puts there. -/
theorem members_write (hd : dialect ≠ OpName.terminator.dialect)
    (h : Planned registry dialect f f.body.nodes p) (group : Nat) :
    members dialect (write p f) (.int group) =
      (p.members f.body.nodes group).map fun node => ⟨node.id, mark p node⟩ := by
  unfold members Plan.members write
  rw [Body.nodes_mapOps, List.filter_map]
  congr 1
  apply List.filter_congr
  intro node hnode
  simp only [Function.comp_apply, name_mark, decide_eq_decide]
  have hgrouped := h.grouped_iff node.id
  constructor
  · intro hx
    obtain ⟨hdialect, hattr⟩ := hx
    obtain ⟨g, hg⟩ := hgrouped.2 ⟨node, hnode, rfl, (isGrouped_iff hd).2 hdialect⟩
    rw [attribute?_mark hg] at hattr
    have hgroup : (g : Int) = group := by simpa using hattr
    rwa [← Int.ofNat_inj.1 hgroup]
  · intro hg
    obtain ⟨n, hn, hid, hgr⟩ := hgrouped.1 ⟨group, hg⟩
    obtain rfl := Func.node_inj hn hnode hid
    exact ⟨(isGrouped_iff hd).1 hgr, attribute?_mark hg⟩

theorem kept_write (h : Planned registry dialect f f.body.nodes p) :
    Kept dialect f (write p f) := by
  unfold Kept write
  rw [Body.nodes_mapOps, List.forall₂_map_right_iff, List.forall₂_same]
  intro node hnode
  refine ⟨?_, name_mark p node, fun hd => ?_⟩
  · rw [Node.wiring, operands_mark, results_mark]
    rfl
  · have hnone : p.groupOf? node.id = none := by
      cases hg : p.groupOf? node.id with
      | none => rfl
      | some group =>
        obtain ⟨n, hn, hid, hgr⟩ := (h.grouped_iff node.id).1 ⟨group, hg⟩
        obtain rfl := Func.node_inj hn hnode hid
        simp [isGrouped, hd] at hgr
    rw [mark, hnone]

theorem schedulable_write (hd : dialect ≠ OpName.terminator.dialect) (hf : f.Invariant)
    (hsingle : SingleResults registry dialect f)
    (h : Planned registry dialect f f.body.nodes p) : Schedulable dialect (write p f) := by
  have hgrouped : ∀ node ∈ (write p f).body.nodes, node.op.name.dialect = dialect →
      ∃ group : Nat, node.op.attribute? groupAttr = some (.int group) := by
    intro node hnode hdialect
    obtain ⟨n, hn, rfl⟩ := List.mem_map.1 hnode
    rw [name_mark] at hdialect
    obtain ⟨group, hg⟩ := (h.grouped_iff n.id).2 ⟨n, hn, rfl, (isGrouped_iff hd).2 hdialect⟩
    exact ⟨group, attribute?_mark hg⟩
  have hchain : ∀ group, (members dialect (write p f) group).IsChain (Follows (write p f)) := by
    intro group
    cases hm : members dialect (write p f) group with
    | nil => exact .nil
    | cons x rest =>
      -- a group with members is one of the plan
      have hx : x ∈ members dialect (write p f) group := by simp [hm]
      obtain ⟨hnode, hx⟩ := List.mem_filter.1 hx
      rw [decide_eq_true_eq] at hx
      obtain ⟨g, hg⟩ := hgrouped x hnode hx.1
      obtain rfl : Attr.int g = group := by simpa [hg] using hx.2
      rw [← hm, members_write hd h g, List.isChain_map]
      refine (h.isChain (R := Follows f) hf ?_ fun _ _ => Follows.onlyTaker).imp
        fun x y hxy => hxy.write p
      intro x hx y _ hpattern hjoins
      obtain ⟨hxnodes, hxg⟩ := List.mem_filter.1 hx
      obtain ⟨n, hn, hid, hgr⟩ := (h.grouped_iff x.id).1 ⟨g, of_decide_eq_true hxg⟩
      obtain rfl := Func.node_inj hn hxnodes hid
      exact hjoins.follows (hsingle n hn hgr hpattern)
  have honly : ∀ group, (members dialect (write p f) group).IsChain (OnlyTaker (write p f)) :=
    fun group => (hchain group).imp fun _ _ => Follows.onlyTaker
  have hchained : Chained (blockOf dialect) (write p f) :=
    ⟨fun _ _ => id_of_blockOf_eq_lone, fun group => members_eq_filter group ▸ honly group⟩
  exact ⟨hgrouped, hchain,
    fun group x hx v hv y hy htakes hout =>
      getLast?_of_taken_outside (honly group) hx hv hy htakes hout,
    hchained.acyclic (invariant_write hf p)⟩

/-! ## The run -/

theorem run_eq_ok_iff {g : Func} {changed : Bool} :
    run dialect registry f = ⟨g, .ok changed⟩ ↔
      checkStatic f = .ok () ∧ ∃ p, plan registry dialect f = .ok p ∧ g = write p f ∧
        changed = f.body.nodes.any (needsMark p) := by
  unfold run
  cases checkStatic f with
  | error e => simp
  | ok u =>
    cases plan registry dialect f with
    | error e => simp
    | ok p => simp [eq_comm]

/-- Fusion leaves groups that can be scheduled. -/
theorem run_schedulable {g : Func} {changed : Bool} (hd : dialect ≠ OpName.terminator.dialect)
    (hf : f.Invariant) (hsingle : SingleResults registry dialect f)
    (h : run dialect registry f = ⟨g, .ok changed⟩) : Kept dialect f g ∧ Schedulable dialect g := by
  obtain ⟨-, p, hplan, rfl, -⟩ := run_eq_ok_iff.1 h
  have hp := planned_of_plan hf hplan
  exact ⟨kept_write hp, schedulable_write hd hf hsingle hp⟩

end TensorIR.Fusion
