import TensorIR.Proofs.Fusion.Groups

/-!
# Contracting fusion groups

Fusion works for any dialect and any registry, and operations may have several results. When every
group is contracted to one point, the uses must not run in a circle, or else no group can be
computed as a whole. Whether an operation may join the producer of its first operand is decided by
who takes that operand, not by who takes the other results of the producer. This is the only way in
which contraction can go wrong: unless a result is overlooked in this way (`Overlooked`), the groups
are chains and can be contracted (`run_contractible`). If one is, they need not be
(`run_cyclic_split`).
-/

namespace TensorIR.Fusion

/-- The block of an operation after fusion. Returns and operations of other dialects are in no
group, whatever attributes they carry. -/
def fusedBlock (dialect : String) (node : Node) : Block :=
  if isGrouped dialect node.op then
    match node.op.attribute? groupAttr with
    | some group => .group group
    | none => .lone node.id
  else .lone node.id

/-- Each group can be computed as a whole. -/
structure Contractible (dialect : String) (f : Func) : Prop where
  acyclic : ∀ b, ¬Relation.TransGen (FlowsBy (fusedBlock dialect) f) b b
  /-- No operation outside a block depends on one member and is depended on by another. -/
  convex : ∀ x ∈ f.body.nodes, ∀ y ∈ f.body.nodes, ∀ z ∈ f.body.nodes,
    fusedBlock dialect x = fusedBlock dialect z → fusedBlock dialect y ≠ fusedBlock dialect x →
      Relation.TransGen f.Feeds x.id y.id → ¬Relation.TransGen f.Feeds y.id z.id

/-- An operation is in the block of the producer of its first operand, and some other operation
takes another result of that producer. -/
def Overlooked (dialect : String) (f : Func) : Prop :=
  ∃ x ∈ f.body.nodes, ∃ y ∈ f.body.nodes, ∃ z ∈ f.body.nodes,
    fusedBlock dialect x = fusedBlock dialect y ∧ z ≠ y ∧
      ∃ v ∈ x.op.results, y.op.operands.head? = some v ∧
        ∃ w ∈ x.op.results, w ≠ v ∧ w ∈ z.op.operands

variable {registry : Registry} {dialect : String} {f : Func} {p : Plan} {block : Node → Block}

/-! ## Dependence of operations and of blocks -/

theorem exists_of_feeds (hf : f.Invariant) {a b : OpId} (h : f.Feeds a b) :
    ∃ x ∈ f.body.nodes, ∃ y ∈ f.body.nodes, x.id = a ∧ y.id = b ∧
      ∃ v ∈ x.op.results, v ∈ y.op.operands := by
  obtain ⟨v, hv⟩ := h
  obtain ⟨w, hw, rfl, hmem, k, hk⟩ := Func.mem_operandUses_iff.1 (hf.uses_perm.mem_iff.1 hv)
  obtain ⟨y, hy, rfl⟩ := List.mem_map.1 hw
  obtain ⟨w', hw', rfl, hres⟩ := (hf.result_iff v a k).1 hk
  obtain ⟨x, hx, rfl⟩ := List.mem_map.1 hw'
  exact ⟨x, hx, y, hy, rfl, rfl, v, List.mem_of_getElem? hres, hmem⟩

/-- Where operations depend on each other, so do their blocks. -/
theorem flows_of_feeds (hf : f.Invariant) {x y : Node} (hx : x ∈ f.body.nodes)
    (hy : y ∈ f.body.nodes) (h : Relation.TransGen f.Feeds x.id y.id) :
    Relation.ReflTransGen (FlowsBy block f) (block x) (block y) := by
  have hstep : ∀ {x y : Node}, x ∈ f.body.nodes → y ∈ f.body.nodes → f.Feeds x.id y.id →
      Relation.ReflTransGen (FlowsBy block f) (block x) (block y) := by
    intro x y hx hy hfeeds
    obtain ⟨x', hx', y', hy', hxid, hyid, htakes⟩ := exists_of_feeds hf hfeeds
    obtain rfl := Func.node_inj hx' hx hxid
    obtain rfl := Func.node_inj hy' hy hyid
    by_cases hne : block x' = block y'
    · rw [hne]
    · exact .single ⟨hne, x', hx', y', hy', rfl, rfl, htakes⟩
  generalize hb : y.id = b at h
  induction h generalizing y with
  | single hfeeds => exact hstep hx hy (hb ▸ hfeeds)
  | tail _ hfeeds ih =>
    obtain ⟨z, hz, -, -, rfl, -⟩ := exists_of_feeds hf hfeeds
    exact (ih hz rfl).trans (hstep hz hy (hb ▸ hfeeds))

theorem Chained.convex (hf : f.Invariant) (h : Chained block f) {x y z : Node}
    (hx : x ∈ f.body.nodes) (hy : y ∈ f.body.nodes) (hz : z ∈ f.body.nodes)
    (hxz : block x = block z) (hyx : block y ≠ block x)
    (hxy : Relation.TransGen f.Feeds x.id y.id) : ¬Relation.TransGen f.Feeds y.id z.id := by
  intro hyz
  -- a dependence on the way out and one on the way back make a cycle of blocks
  have hout : Relation.TransGen (FlowsBy block f) (block x) (block y) :=
    (Relation.reflTransGen_iff_eq_or_transGen.1 (flows_of_feeds hf hx hy hxy)).resolve_left hyx
  have hback : Relation.ReflTransGen (FlowsBy block f) (block y) (block z) :=
    flows_of_feeds hf hy hz hyz
  rw [← hxz] at hback
  exact h.acyclic hf (block x) (hout.trans_left hback)

/-! ## The groups of a plan -/

theorem isGrouped_mark (p : Plan) (node : Node) :
    isGrouped dialect (mark p node) = isGrouped dialect node.op := by
  unfold isGrouped Operation.isReturn
  rw [name_mark]

theorem fusedBlock_mark (h : Planned registry dialect f f.body.nodes p) {node : Node}
    (hnode : node ∈ f.body.nodes) {group : Attr} :
    fusedBlock dialect ⟨node.id, mark p node⟩ = .group group ↔
      ∃ g : Nat, group = .int g ∧ p.groupOf? node.id = some g := by
  have hiff := h.grouped_iff node.id
  unfold fusedBlock
  rw [isGrouped_mark]
  by_cases hgrouped : isGrouped dialect node.op = true
  · obtain ⟨g, hg⟩ := hiff.2 ⟨node, hnode, rfl, hgrouped⟩
    simp [hgrouped, attribute?_mark hg, hg, eq_comm]
  · have hnone : ∀ g, p.groupOf? node.id ≠ some g := by
      intro g hg
      obtain ⟨n, hn, hid, hgr⟩ := hiff.1 ⟨g, hg⟩
      obtain rfl := Func.node_inj hn hnode hid
      exact hgrouped hgr
    simp [hgrouped, hnone]

/-- The groups that are read off the marks are those of the plan. -/
theorem filter_fusedBlock_write (h : Planned registry dialect f f.body.nodes p) (group : Nat) :
    ((write p f).body.nodes.filter fun node => fusedBlock dialect node = .group (.int group)) =
      p.members (write p f).body.nodes group := by
  apply List.filter_congr
  intro node hnode
  obtain ⟨n, hn, rfl⟩ := List.mem_map.1 hnode
  simp only [decide_eq_decide, fusedBlock_mark h hn]
  constructor
  · intro hx
    obtain ⟨g, hg, hgroup⟩ := hx
    obtain rfl : group = g := Int.ofNat_inj.1 (Attr.int.inj hg)
    exact hgroup
  · intro hgroup
    exact ⟨group, rfl, hgroup⟩

theorem members_nodes_write (p : Plan) (f : Func) (group : Nat) :
    p.members (write p f).body.nodes group =
      (p.members f.body.nodes group).map fun node => ⟨node.id, mark p node⟩ := by
  unfold Plan.members write
  rw [Body.nodes_mapOps, List.filter_map]
  rfl

theorem id_of_fusedBlock_eq_lone {node : Node} {id : OpId}
    (h : fusedBlock dialect node = .lone id) : node.id = id := by
  unfold fusedBlock at h
  split at h
  · split at h
    · cases h
    · cases h
      rfl
  · cases h
    rfl

theorem OnlyTaker.write {x y : Node} (h : OnlyTaker f x y) (p : Plan) :
    OnlyTaker (write p f) ⟨x.id, mark p x⟩ ⟨y.id, mark p y⟩ := by
  intro v hv node hnode htakes
  obtain ⟨n, hn, rfl⟩ := List.mem_map.1 hnode
  rw [results_mark] at hv
  rw [operands_mark] at htakes
  rw [h v hv n hn htakes]

/-- Unless a result is overlooked, what joins a member of a group takes all that there is to take
from it. -/
theorem onlyTaker_of_joins (hnone : ¬Overlooked dialect (write p f)) {x y : Node}
    (hx : x ∈ f.body.nodes) (hy : y ∈ f.body.nodes)
    (hblock : fusedBlock dialect ⟨x.id, mark p x⟩ = fusedBlock dialect ⟨y.id, mark p y⟩)
    (h : Joins f x y) : OnlyTaker f x y := by
  obtain ⟨v, hv, hhead, honly⟩ := h
  intro w hw n hn htakes
  by_cases hwv : w = v
  · exact honly n hn (hwv ▸ htakes)
  by_contra hny
  have hmem : ∀ {n : Node}, n ∈ f.body.nodes →
      (⟨n.id, mark p n⟩ : Node) ∈ (write p f).body.nodes :=
    fun hn => List.mem_map.2 ⟨_, hn, rfl⟩
  refine hnone ⟨_, hmem hx, _, hmem hy, _, hmem hn, hblock, ?_, v, ?_, ?_, w, ?_, hwv, ?_⟩
  · exact fun heq => hny (Func.node_inj hn hy (Node.mk.inj heq).1)
  · rwa [results_mark]
  · rwa [operands_mark]
  · rwa [results_mark]
  · rwa [operands_mark]

theorem chained_write (hf : f.Invariant) (h : Planned registry dialect f f.body.nodes p)
    (hnone : ¬Overlooked dialect (write p f)) : Chained (fusedBlock dialect) (write p f) := by
  refine ⟨fun _ _ => id_of_fusedBlock_eq_lone, fun group => ?_⟩
  by_cases hgroup : ∃ g : Nat, group = .int g
  · obtain ⟨g, rfl⟩ := hgroup
    rw [filter_fusedBlock_write h, members_nodes_write, List.isChain_map]
    refine (h.isChain (R := OnlyTaker f) hf ?_ fun _ _ => id).imp fun x y hxy => hxy.write p
    intro x hx y hy _ hjoins
    obtain ⟨hxnodes, hxg⟩ := List.mem_filter.1 hx
    obtain ⟨hynodes, hyg⟩ := List.mem_filter.1 hy
    refine onlyTaker_of_joins hnone hxnodes hynodes ?_ hjoins
    rw [(fusedBlock_mark h hxnodes).2 ⟨g, rfl, of_decide_eq_true hxg⟩,
      (fusedBlock_mark h hynodes).2 ⟨g, rfl, of_decide_eq_true hyg⟩]
  · -- groups are numbers
    have hempty : ((write p f).body.nodes.filter fun node =>
        fusedBlock dialect node = .group group) = [] := by
      rw [List.filter_eq_nil_iff]
      intro node hnode hin
      obtain ⟨n, hn, rfl⟩ := List.mem_map.1 hnode
      obtain ⟨g, hg, -⟩ := (fusedBlock_mark h hn).1 (of_decide_eq_true hin)
      exact hgroup ⟨g, hg⟩
    rw [hempty]
    exact .nil

/-- **Groups can be contracted** unless a result is overlooked, in every built function, for every
registry and every dialect. -/
theorem run_contractible (registry : Registry) (dialect : String) (hf : f.Built) {changed : Bool}
    (h : (run dialect registry f).result = .ok changed)
    (hnone : ¬Overlooked dialect (run dialect registry f).state) :
    Contractible dialect (run dialect registry f).state := by
  have hrun : run dialect registry f = ⟨(run dialect registry f).state, .ok changed⟩ := by
    rw [← h]
  obtain ⟨-, p, hplan, hg, -⟩ := run_eq_ok_iff.1 hrun
  rw [hg] at hnone ⊢
  have hinv := invariant_write hf.invariant p
  have hchained := chained_write hf.invariant (planned_of_plan hf.invariant hplan) hnone
  exact ⟨hchained.acyclic hinv, fun _ hx _ hy _ hz hxz hyx => hchained.convex hinv hx hy hz hxz hyx⟩

/-- An operation with two results is fused with the one operation that takes them both. -/
theorem run_contractible_split :
    let ty : Ty := .scalar .f32
    let registry := Registry.ofList
      [{ name := "relay.split", pattern := .injective },
        { name := "relay.add", pattern := .broadcast }]
    let f := (Func.empty "main").after
      [.addArgument ty,
        .pushOp { name := ⟨"relay.split"⟩, operands := [0] } [ty, ty],
        .pushOp { name := ⟨"host.log"⟩, operands := [0] } [ty],
        .pushOp { name := ⟨"relay.add"⟩, operands := [1, 2] } [ty],
        .pushOp { name := ⟨"relay.add"⟩, operands := [4, 3] } [ty],
        .pushOp { name := .terminator, operands := [5] } []]
    let g := (run "relay" registry f).state
    f.Built ∧ (run "relay" registry f).result = .ok true ∧
      g.body.nodes.map (fusedBlock "relay") =
        [.group (.int 0), .lone 1, .group (.int 0), .group (.int 0), .lone 4] ∧
      ¬Overlooked "relay" g ∧ Contractible "relay" g := by
  intro ty registry f g
  have hf : f.Built := ⟨_, _, rfl⟩
  obtain ⟨hrun, hblocks⟩ : (run "relay" registry f).result = .ok true ∧
      g.body.nodes.map (fusedBlock "relay") =
        [.group (.int 0), .lone 1, .group (.int 0), .group (.int 0), .lone 4] := by
    decide +kernel
  have hnone : ¬Overlooked "relay" g := by
    unfold Overlooked
    decide +kernel
  exact ⟨hf, hrun, hblocks, hnone, run_contractible registry "relay" hf hrun hnone⟩

/-- An operation with two results is fused with one that takes the first, though the second goes
through an operation of another dialect to the same place: neither can be computed before the
other. -/
theorem run_cyclic_split :
    let ty : Ty := .scalar .f32
    let registry := Registry.ofList
      [{ name := "relay.split", pattern := .injective },
        { name := "relay.add", pattern := .broadcast }]
    let f := (Func.empty "main").after
      [.addArgument ty,
        .pushOp { name := ⟨"relay.split"⟩, operands := [0] } [ty, ty],
        .pushOp { name := ⟨"host.log"⟩, operands := [2] } [ty],
        .pushOp { name := ⟨"relay.add"⟩, operands := [1, 3] } [ty],
        .pushOp { name := .terminator, operands := [4] } []]
    let g := (run "relay" registry f).state
    f.Built ∧ (run "relay" registry f).result = .ok true ∧
      Relation.TransGen (FlowsBy (fusedBlock "relay") g) (.group (.int 0)) (.group (.int 0)) ∧
      ¬Contractible "relay" g := by
  intro ty registry f g
  have hcycle :
      Relation.TransGen (FlowsBy (fusedBlock "relay") g) (.group (.int 0)) (.group (.int 0)) := by
    refine .tail (b := .lone 1) (.single ?_) ?_
    · unfold FlowsBy
      decide +kernel
    · unfold FlowsBy
      decide +kernel
  exact ⟨⟨_, _, rfl⟩, by decide +kernel, hcycle, fun h => h.acyclic _ hcycle⟩

end TensorIR.Fusion
