import Mathlib.Data.List.Chain
import TensorIR.Pass.Fusion
import TensorIR.Proofs.Func.WellFormed

/-!
# Plans of fusion groups

A plan is made in one pass over the body. `Planned` says what is true of it when some operations
have been put into groups; each further operation keeps it (`Planned.assign`), so it holds of the
whole plan (`planned_of_plan`). The heart of it is that every member of a group but the first takes
a result of another member as its first operand, and that nothing else takes this result.

This alone does not make a group a chain: another result of a member may go elsewhere. It does if
whatever joins a group takes all that there is to take from the member in front
(`Planned.isChain`). That members have one result only is not decided here; it is a property of the
function (`SingleResults`).
-/

namespace TensorIR

namespace Pattern

theorem le_max_left (a b : Pattern) : a ≤ a.max b := by
  cases a <;> cases b <;> decide

theorem le_max_right (a b : Pattern) : b ≤ a.max b := by
  cases a <;> cases b <;> decide

theorem le_trans {a b c : Pattern} (hab : a ≤ b) (hbc : b ≤ c) : a ≤ c :=
  Nat.le_trans hab hbc

theorem eq_isolated_of_le {a : Pattern} (h : isolated ≤ a) : a = isolated := by
  cases a with
  | isolated => rfl
  | _ => exact absurd h (by decide)

end Pattern

namespace Fusion

/-- The second operation takes the only result of the first as its first operand, and no other
operation takes it. -/
def Follows (f : Func) (x y : Node) : Prop :=
  ∃ v, x.op.results = [v] ∧ y.op.operands.head? = some v ∧
    ∀ node ∈ f.body.nodes, v ∈ node.op.operands → node = y

/-- The first operand of the second operation is a result of the first, and no other operation takes
it. -/
def Joins (f : Func) (x y : Node) : Prop :=
  ∃ v ∈ x.op.results, y.op.operands.head? = some v ∧
    ∀ node ∈ f.body.nodes, v ∈ node.op.operands → node = y

/-- Whatever takes a result of the first operation is the second. -/
def OnlyTaker (f : Func) (x y : Node) : Prop :=
  ∀ v ∈ x.op.results, ∀ node ∈ f.body.nodes, v ∈ node.op.operands → node = y

/-- Operations that can be fused have one result. -/
def SingleResults (registry : Registry) (dialect : String) (f : Func) : Prop :=
  ∀ node ∈ f.body.nodes, isGrouped dialect node.op = true →
    registry.pattern node.op.name.text ≠ .isolated → ∃ v, node.op.results = [v]

/-- The operations that a plan puts into a group. -/
def Plan.members (p : Plan) (nodes : List Node) (group : Nat) : List Node :=
  nodes.filter fun node => p.groupOf? node.id = some group

/-- What is true of a plan for the operations `nodes`. -/
structure Planned (registry : Registry) (dialect : String) (f : Func) (nodes : List Node)
    (p : Plan) : Prop where
  grouped_iff : ∀ id, (∃ group, p.groupOf? id = some group) ↔
    ∃ node ∈ nodes, node.id = id ∧ isGrouped dialect node.op = true
  group_lt : ∀ id group, p.groupOf? id = some group → group < p.anchors.size
  pattern_le : ∀ node ∈ nodes, ∀ group, p.groupOf? node.id = some group →
    registry.pattern node.op.name.text ≤ p.anchors.getD group .isolated
  joined : ∀ node ∈ nodes, ∀ group, p.groupOf? node.id = some group →
    (p.members nodes group).head? = some node ∨
      ∃ x ∈ p.members nodes group, registry.pattern x.op.name.text ≠ .isolated ∧ Joins f x node

variable {registry : Registry} {dialect : String} {f : Func} {p p' : Plan} {node : Node}
  {pre post : List Node}

/-! ## Chains -/

theorem Follows.onlyTaker {x y : Node} (h : Follows f x y) : OnlyTaker f x y := by
  obtain ⟨r, hres, -, honly⟩ := h
  intro v hv n hn htakes
  obtain rfl : v = r := by simpa [hres] using hv
  exact honly n hn htakes

theorem Joins.follows {x y : Node} (h : Joins f x y) (hsingle : ∃ r, x.op.results = [r]) :
    Follows f x y := by
  obtain ⟨v, hv, hhead, honly⟩ := h
  obtain ⟨r, hr⟩ := hsingle
  obtain rfl : v = r := by simpa [hr] using hv
  exact ⟨v, hr, hhead, honly⟩

/-- A result of a chain that is taken outside is a result of its last member. -/
theorem getLast?_of_taken_outside {chain : List Node} {x y : Node} {v : ValueId}
    (hchain : chain.IsChain (OnlyTaker f)) (hx : x ∈ chain) (hv : v ∈ x.op.results)
    (hy : y ∈ f.body.nodes) (htakes : v ∈ y.op.operands) (hout : y ∉ chain) :
    chain.getLast? = some x := by
  obtain ⟨front, back, rfl⟩ := List.append_of_mem hx
  cases back with
  | nil => simp
  | cons z back =>
    -- then the next member takes the result, and it alone
    have honly : OnlyTaker f x z := (List.isChain_append_cons_cons.1 hchain).2.1
    exact absurd (by simp [honly v hv y hy htakes]) hout

/-! ## Groups of a plan -/

theorem groupOf?_append {groups : List (OpId × Nat)} {id id' : OpId} {group : Nat}
    (h : groups.lookup id = none) :
    (groups ++ [(id, group)]).lookup id' = if id' = id then some group else groups.lookup id' := by
  rw [List.lookup_append]
  by_cases hid : id' = id
  · simp [hid, h]
  · simp [hid, List.lookup_cons, beq_eq_false_iff_ne.2 hid]

theorem getD_modify {anchors : Array Pattern} {g : Nat} (hg : g < anchors.size) (group : Nat)
    (pattern : Pattern) :
    (anchors.modify group (·.max pattern)).getD g .isolated =
      if group = g then (anchors.getD g .isolated).max pattern else anchors.getD g .isolated := by
  rw [Array.getD_eq_getD_getElem?, Array.getD_eq_getD_getElem?, Array.getElem?_modify,
    Array.getElem?_eq_getElem hg]
  split <;> rfl

theorem getD_push (anchors : Array Pattern) (g : Nat) (pattern : Pattern) :
    (anchors.push pattern).getD g .isolated =
      if g = anchors.size then pattern else anchors.getD g .isolated := by
  rw [Array.getD_eq_getD_getElem?, Array.getD_eq_getD_getElem?, Array.getElem?_push]
  split <;> rfl

theorem canJoin_isolated (pattern : Pattern) : canJoin .isolated pattern = false := by
  cases pattern <;> decide

/-- The numbers of the operations planned so far are not that of the next one. -/
theorem id_ne_of_mem_pre (hnodes : f.body.nodes = pre ++ node :: post) {n : Node} (hn : n ∈ pre) :
    n.id ≠ node.id := by
  have hnodup := f.body.nodup_ids
  rw [Body.ids, hnodes, List.map_append, List.map_cons] at hnodup
  exact (List.nodup_append.1 hnodup).2.2 _ (List.mem_map_of_mem hn) _ List.mem_cons_self

theorem Planned.groupOf?_eq_none (h : Planned registry dialect f pre p)
    (hnodes : f.body.nodes = pre ++ node :: post) : p.groupOf? node.id = none := by
  cases hg : p.groupOf? node.id with
  | none => rfl
  | some group =>
    obtain ⟨n, hn, hid, -⟩ := (h.grouped_iff node.id).1 ⟨group, hg⟩
    exact absurd hid (id_ne_of_mem_pre hnodes hn)

/-- Groups grow at their ends. -/
theorem Plan.members_snoc (hold : ∀ n ∈ pre, p'.groupOf? n.id = p.groupOf? n.id) (group : Nat) :
    p'.members (pre ++ [node]) group = p.members pre group ++ p'.members [node] group := by
  have hpre : p'.members pre group = p.members pre group :=
    List.filter_congr fun n hn => by rw [hold n hn]
  rw [← hpre]
  exact List.filter_append ..

/-- An operation without a group changes none. -/
theorem Plan.members_snoc_of_none (hnone : p.groupOf? node.id = none) (group : Nat) :
    p.members (pre ++ [node]) group = p.members pre group := by
  simp [Plan.members, hnone]

/-! ## One operation -/

/-- What becomes of a plan with one more operation. -/
theorem assign_cases (h : Fusion.assign registry dialect f p node = .ok p') :
    isGrouped dialect node.op = false ∧ p' = p ∨
    isGrouped dialect node.op = true ∧
      ((∃ group, joinable? f p node.op (registry.pattern node.op.name.text) = .ok (some group) ∧
          p' = p.join node.id (registry.pattern node.op.name.text) group) ∨
        joinable? f p node.op (registry.pattern node.op.name.text) = .ok none ∧
          p' = p.start node.id (registry.pattern node.op.name.text)) := by
  unfold Fusion.assign at h
  split at h
  · next hgrouped =>
    simp only at h
    split at h
    · cases h
    · next group hjoin =>
      cases h
      exact .inr ⟨hgrouped, .inl ⟨group, hjoin, rfl⟩⟩
    · next hnone =>
      cases h
      exact .inr ⟨hgrouped, .inr ⟨hnone, rfl⟩⟩
  · next hgrouped =>
    cases h
    exact .inl ⟨eq_false_of_ne_true hgrouped, rfl⟩

/-- Putting the next operation into a group keeps a plan good, if the group's anchor covers its
pattern, and the group is empty or the operation joins a member. -/
theorem Planned.put {group : Nat} (h : Planned registry dialect f pre p)
    (hnodes : f.body.nodes = pre ++ node :: post) (hgrouped : isGrouped dialect node.op = true)
    (hgroupOf : ∀ id, p'.groupOf? id = if id = node.id then some group else p.groupOf? id)
    (hsize : p.anchors.size ≤ p'.anchors.size) (hlt : group < p'.anchors.size)
    (hanchors : ∀ g < p.anchors.size, p.anchors.getD g .isolated ≤ p'.anchors.getD g .isolated)
    (hpattern : registry.pattern node.op.name.text ≤ p'.anchors.getD group .isolated)
    (hjoined : p.members pre group = [] ∨ ∃ x ∈ p.members pre group,
      registry.pattern x.op.name.text ≠ .isolated ∧ Joins f x node) :
    Planned registry dialect f (pre ++ [node]) p' := by
  have hne : ∀ n ∈ pre, n.id ≠ node.id := fun n hn => id_ne_of_mem_pre hnodes hn
  have hold : ∀ n ∈ pre, p'.groupOf? n.id = p.groupOf? n.id := by
    intro n hn
    rw [hgroupOf, if_neg (hne n hn)]
  have hnew : p'.groupOf? node.id = some group := by
    rw [hgroupOf, if_pos rfl]
  refine ⟨?_, ?_, ?_, ?_⟩
  · intro id
    rw [hgroupOf]
    by_cases hid : id = node.id
    · simp [hid, hgrouped]
    · rw [if_neg hid, h.grouped_iff]
      constructor
      · intro hx
        obtain ⟨n, hn, hnid, hg⟩ := hx
        exact ⟨n, List.mem_append_left _ hn, hnid, hg⟩
      · intro hx
        obtain ⟨n, hn, hnid, hg⟩ := hx
        rcases List.mem_append.1 hn with hn | hn
        · exact ⟨n, hn, hnid, hg⟩
        · obtain rfl : n = node := by simpa using hn
          exact absurd hnid.symm hid
  · intro id g hg
    rw [hgroupOf] at hg
    split at hg
    · cases hg
      exact hlt
    · exact Nat.lt_of_lt_of_le (h.group_lt id g hg) hsize
  · intro n hn g hg
    rcases List.mem_append.1 hn with hn | hn
    · rw [hold n hn] at hg
      exact Pattern.le_trans (h.pattern_le n hn g hg) (hanchors g (h.group_lt _ g hg))
    · obtain rfl : n = node := by simpa using hn
      rw [hnew] at hg
      cases hg
      exact hpattern
  · intro n hn g hg
    rw [Plan.members_snoc hold]
    rcases List.mem_append.1 hn with hn | hn
    · -- an operation that was there keeps its place in its group
      rw [hold n hn] at hg
      rcases h.joined n hn g hg with hhead | ⟨x, hx, hjoin⟩
      · exact .inl (by simp [hhead])
      · exact .inr ⟨x, List.mem_append_left _ hx, hjoin⟩
    · obtain rfl : n = node := by simpa using hn
      obtain rfl : group = g := by simpa [hnew] using hg
      rcases hjoined with hnone | ⟨x, hx, hjoin⟩
      · have hone : p'.members [n] group = [n] := by simp [Plan.members, hnew]
        exact .inl (by simp [hnone, hone])
      · exact .inr ⟨x, List.mem_append_left _ hx, hjoin⟩

/-- When an operation may join a group. -/
theorem joinable?_eq_some {op : Operation} {pattern : Pattern} {group : Nat}
    (h : joinable? f p op pattern = .ok (some group)) :
    ∃ first producer takers, op.operands.head? = some first ∧
      f.producer first = .ok (some producer) ∧ p.groupOf? producer = some group ∧
      f.consumers first = .ok takers ∧ takers.length = 1 ∧
      canJoin (p.anchors.getD group .isolated) pattern = true := by
  unfold joinable? at h
  split at h
  · cases h
  · next first rest hops =>
    split at h
    · cases h
    · cases h
    · next producer hproducer =>
      split at h
      · cases h
      · next g hg =>
        split at h
        · cases h
        · next takers htakers =>
          split at h
          · next hif =>
            cases h
            rw [Bool.and_eq_true, decide_eq_true_eq] at hif
            exact ⟨first, producer, takers, by simp [hops], hproducer, hg, htakers, hif⟩
          · cases h

/-- An operation that may join a group joins one of its members, and that one can be fused. -/
theorem Planned.exists_joins {pattern : Pattern} {group : Nat} (hf : f.Invariant)
    (h : Planned registry dialect f pre p) (hnodes : f.body.nodes = pre ++ node :: post)
    (hjoin : joinable? f p node.op pattern = .ok (some group)) :
    ∃ x ∈ p.members pre group, registry.pattern x.op.name.text ≠ .isolated ∧ Joins f x node := by
  obtain ⟨v, producer, takers, hhead, hproducer, hgroup, htakers, hone, hcan⟩ :=
    joinable?_eq_some hjoin
  have hnode : node ∈ f.body.nodes := by simp [hnodes]
  have htakes : v ∈ node.op.operands := List.mem_of_mem_head? hhead
  -- the producer is a member of the group
  obtain ⟨x, hx, hid, -⟩ := (h.grouped_iff producer).1 ⟨group, hgroup⟩
  obtain ⟨y, hy, rfl, hv, hconsumers⟩ := hf.exists_of_producer hproducer
  obtain rfl : x = y := Func.node_inj (by simp [hnodes, hx]) hy hid
  refine ⟨x, List.mem_filter.2 ⟨hx, by simpa using hgroup⟩, ?_, v, hv, hhead, ?_⟩
  · intro hisolated
    have hle := h.pattern_le x hx group hgroup
    rw [hisolated] at hle
    rw [Pattern.eq_isolated_of_le hle, canJoin_isolated] at hcan
    cases hcan
  · -- the operation is the only one that takes the value
    rw [hconsumers] at htakers
    cases htakers
    rw [List.length_map, List.length_eq_one_iff] at hone
    obtain ⟨taker, htaker⟩ := hone
    have hall : ∀ n ∈ f.body.nodes, v ∈ n.op.operands → n = taker := by
      intro n hn hvn
      have hmem : n ∈ f.body.nodes.filter fun node => v ∈ node.op.operands :=
        List.mem_filter.2 ⟨hn, by simpa using hvn⟩
      simpa [htaker] using hmem
    intro n hn hvn
    rw [hall n hn hvn, hall node hnode htakes]

/-- One more operation. -/
theorem Planned.assign (hf : f.Invariant)
    (h : Planned registry dialect f pre p) (hnodes : f.body.nodes = pre ++ node :: post)
    (hassign : Fusion.assign registry dialect f p node = .ok p') :
    Planned registry dialect f (pre ++ [node]) p' := by
  have hfresh := h.groupOf?_eq_none hnodes
  rcases assign_cases hassign with
    ⟨hgrouped, rfl⟩ | ⟨hgrouped, ⟨group, hjoin, rfl⟩ | ⟨-, rfl⟩⟩
  · refine ⟨?_, h.group_lt, ?_, ?_⟩
    · intro id
      rw [h.grouped_iff]
      simp [hgrouped]
    · intro n hn group hg
      rcases List.mem_append.1 hn with hn | hn
      · exact h.pattern_le n hn group hg
      · obtain rfl : n = node := by simpa using hn
        rw [hfresh] at hg
        cases hg
    · intro n hn group hg
      rw [Plan.members_snoc_of_none hfresh]
      rcases List.mem_append.1 hn with hn | hn
      · exact h.joined n hn group hg
      · obtain rfl : n = node := by simpa using hn
        rw [hfresh] at hg
        cases hg
  · obtain ⟨x, hx, hjoins⟩ := h.exists_joins hf hnodes hjoin
    have hlt : group < p.anchors.size :=
      h.group_lt x.id group (of_decide_eq_true (List.mem_filter.1 hx).2)
    refine h.put hnodes hgrouped (fun id => groupOf?_append hfresh) ?_ ?_ ?_ ?_ ?_
    · simp [Plan.join]
    · simpa [Plan.join] using hlt
    · intro g hg
      rw [Plan.join, getD_modify hg]
      split
      · exact Pattern.le_max_left ..
      · exact Nat.le_refl _
    · rw [Plan.join, getD_modify hlt, if_pos rfl]
      exact Pattern.le_max_right ..
    · exact .inr ⟨x, hx, hjoins⟩
  · refine h.put hnodes hgrouped (fun id => groupOf?_append hfresh) ?_ ?_ ?_ ?_ ?_
    · simp [Plan.start]
    · simp [Plan.start]
    · intro g hg
      rw [Plan.start, getD_push, if_neg (Nat.ne_of_lt hg)]
      exact Nat.le_refl _
    · rw [Plan.start, getD_push, if_pos rfl]
      exact Nat.le_refl _
    · -- the new group has no members yet
      refine .inl (List.filter_eq_nil_iff.2 fun n _ hin => ?_)
      exact Nat.lt_irrefl _ (h.group_lt n.id _ (of_decide_eq_true hin))

theorem planned_of_plan (hf : f.Invariant) (h : plan registry dialect f = .ok p) :
    Planned registry dialect f f.body.nodes p := by
  refine Fallible.foldlM_induct (P := Planned registry dialect f) ?_ h ?_
  · intro pre node post p p' hnodes hp hassign
    exact hp.assign hf hnodes hassign
  · exact ⟨by simp [Plan.groupOf?], by simp [Plan.groupOf?], by simp, by simp⟩

/-! ## Groups that are chains -/

/-- An operation stands behind those whose results it takes. -/
theorem mem_pre_of_takes (hf : f.Invariant) (hnodes : f.body.nodes = pre ++ node :: post) {x : Node}
    {v : ValueId} (hx : x ∈ f.body.nodes) (hv : v ∈ x.op.results) (htakes : v ∈ node.op.operands) :
    x ∈ pre := by
  rcases hf.wellFormed.operand_defined pre node post hnodes v htakes with harg | ⟨n, hn, hnv⟩
  · exact absurd hv (hf.notMem_results_of_mem_arguments hx harg)
  · rwa [← hf.node_unique (by simp [hnodes, hn]) hx hnv hv]

section Chain

variable {R : Node → Node → Prop} {group : Nat}

/-- The next member of a group continues the chain. -/
theorem Planned.isChain_snoc (hf : f.Invariant) (h : Planned registry dialect f f.body.nodes p)
    (hjoin : ∀ x ∈ p.members f.body.nodes group, ∀ y ∈ p.members f.body.nodes group,
      registry.pattern x.op.name.text ≠ .isolated → Joins f x y → R x y)
    (honly : ∀ x y, R x y → OnlyTaker f x y) (hnodes : f.body.nodes = pre ++ node :: post)
    (hgroup : p.groupOf? node.id = some group) (hchain : (p.members pre group).IsChain R) :
    (p.members pre group ++ [node]).IsChain R := by
  have hnode : node ∈ f.body.nodes := by simp [hnodes]
  have hout : node ∉ p.members pre group := fun hin =>
    id_ne_of_mem_pre hnodes (List.mem_filter.1 hin).1 rfl
  rcases h.joined node hnode group hgroup with hhead | ⟨x, hx, hpattern, hjoins⟩
  · -- the first member has none in front of it
    have hsplit : p.members f.body.nodes group =
        p.members pre group ++ p.members (node :: post) group := by
      rw [hnodes]
      exact List.filter_append ..
    cases hm : p.members pre group with
    | nil => exact .singleton node
    | cons n rest =>
      obtain rfl : n = node := by simpa [hsplit, hm] using hhead
      exact absurd (by simp [hm]) hout
  · have hR : R x node := hjoin x hx node
      (List.mem_filter.2 ⟨hnode, by simpa using hgroup⟩) hpattern hjoins
    obtain ⟨hxnodes, hxgroup⟩ := List.mem_filter.1 hx
    obtain ⟨v, hv, hhead, -⟩ := hjoins
    have htakes : v ∈ node.op.operands := List.mem_of_mem_head? hhead
    have hxpre : x ∈ p.members pre group :=
      List.mem_filter.2 ⟨mem_pre_of_takes hf hnodes hxnodes hv htakes, hxgroup⟩
    -- what it takes is taken outside the chain so far, so it comes from the last member
    have hlast := getLast?_of_taken_outside (hchain.imp honly) hxpre hv hnode htakes hout
    refine hchain.append (.singleton node) ?_
    intro y hy z hz
    rw [hlast] at hy
    cases hy
    cases hz
    exact hR

/-- If whatever joins a member takes all that there is to take from it, a group is a chain. -/
theorem Planned.isChain (hf : f.Invariant) (h : Planned registry dialect f f.body.nodes p)
    (hjoin : ∀ x ∈ p.members f.body.nodes group, ∀ y ∈ p.members f.body.nodes group,
      registry.pattern x.op.name.text ≠ .isolated → Joins f x y → R x y)
    (honly : ∀ x y, R x y → OnlyTaker f x y) : (p.members f.body.nodes group).IsChain R := by
  have hprefix : ∀ pre post, f.body.nodes = pre ++ post → (p.members pre group).IsChain R := by
    intro pre
    induction pre using List.reverseRecOn with
    | nil => exact fun _ _ => .nil
    | append_singleton pre node ih =>
      intro post hs
      have hnodes : f.body.nodes = pre ++ node :: post := by simpa using hs
      have hchain := ih (node :: post) hnodes
      by_cases hgroup : p.groupOf? node.id = some group
      · have hsnoc : p.members (pre ++ [node]) group = p.members pre group ++ [node] := by
          simp [Plan.members, hgroup]
        rw [hsnoc]
        exact h.isChain_snoc hf hjoin honly hnodes hgroup hchain
      · have hsame : p.members (pre ++ [node]) group = p.members pre group := by
          simp [Plan.members, hgroup]
        rwa [hsame]
  exact hprefix f.body.nodes [] (by simp)

end Chain

end Fusion

end TensorIR
