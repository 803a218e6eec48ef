import TensorIR.Proofs.Fusion.Contraction
import TensorIR.Proofs.Fusion.Marks

/-!
# What the groups of fusion are

Fusion is greedy, and it looks at a group only through its anchor, the greatest pattern of the
members so far. What the groups are can be said without anchors (`Partition`): whether an operation
may join is decided by the pattern of the first member alone, because an operation that may join
never changes what the anchor lets in (`canJoin_max`). So the anchor stands for the first member at
every moment (`Greedy.anchor`), and a reason that kept an operation out of a group when it was
looked at is still one when the groups are complete.
-/

namespace TensorIR.Fusion

/-- The operations of a group after fusion, in program order. -/
def fused (dialect : String) (f : Func) (group : Nat) : List Node :=
  f.body.nodes.filter fun node => fusedBlock dialect node = .group (.int group)

/-- Why an operation is not in the group that its first operand comes from. -/
inductive KeptOut (registry : Registry) (dialect : String) (f : Func) (groups : Nat → List Node)
    (x : Node) : Prop where
  | noOperand (operands_eq : x.op.operands = [])
  /-- The operand does not come from an operation, -/
  | argument {v : ValueId} (head_eq : x.op.operands.head? = some v) (mem : v ∈ f.arguments)
  /-- or from one that is in no group: a return, or one of another dialect, -/
  | ungrouped {v : ValueId} {y : Node} (head_eq : x.op.operands.head? = some v)
    (mem : y ∈ f.body.nodes) (result : v ∈ y.op.results)
    (isGrouped_eq : isGrouped dialect y.op = false)
  /-- or it is taken elsewhere, too. -/
  | shared {v : ValueId} {y : Node} (head_eq : x.op.operands.head? = some v)
    (mem : y ∈ f.body.nodes) (ne : y ≠ x) (takes : v ∈ y.op.operands)
  /-- The pattern of the operation is above injective, -/
  | pattern (not_le : ¬registry.pattern x.op.name.text ≤ .injective)
  /-- or the first member of the group does not let it in. -/
  | anchor {v : ValueId} {y z : Node} {group : Nat} (head_eq : x.op.operands.head? = some v)
    (mem : y ∈ groups group) (result : v ∈ y.op.results) (first : (groups group).head? = some z)
    (refuses : registry.pattern z.op.name.text = .reduction ∨
      registry.pattern z.op.name.text = .isolated ∨
      registry.pattern z.op.name.text = .outputFusable ∧
        registry.pattern x.op.name.text = .injective)

/-- The groups of a function, `firsts` being their first members. -/
structure Partition (registry : Registry) (dialect : String) (f : Func) (firsts : List Node) :
    Prop where
  /-- Except for returns, every operation of the dialect carries the number of a group. -/
  grouped : ∀ node ∈ f.body.nodes, isGrouped dialect node.op = true →
    ∃ group < firsts.length, node.op.attribute? groupAttr = some (.int group)
  /-- There is a group for every number below that of first members, and for no other, -/
  first : ∀ group, (fused dialect f group).head? = firsts[group]?
  /-- and they are numbered in the order in which they begin. -/
  in_order : firsts.Sublist f.body.nodes
  /-- Only the first member can have a pattern above injective, -/
  pattern_le : ∀ group x rest, fused dialect f group = x :: rest →
    ∀ y ∈ rest, registry.pattern y.op.name.text ≤ .injective
  /-- and then it limits what comes behind it. -/
  after_outputFusable : ∀ group x rest, fused dialect f group = x :: rest →
    registry.pattern x.op.name.text = .outputFusable → ∀ y ∈ rest,
      registry.pattern y.op.name.text = .elementwise ∨ registry.pattern y.op.name.text = .broadcast
  alone : ∀ group x rest, fused dialect f group = x :: rest →
    registry.pattern x.op.name.text = .reduction ∨ registry.pattern x.op.name.text = .isolated →
      rest = []
  /-- A later member takes a result of an earlier one, which nothing else takes. -/
  joined : ∀ group pre y post, fused dialect f group = pre ++ y :: post → pre ≠ [] →
    ∃ x ∈ pre, Joins f x y
  /-- A first member could not have joined another group. -/
  maximal : ∀ x ∈ firsts, KeptOut registry dialect f (fused dialect f) x

variable {registry : Registry} {dialect : String} {f : Func} {p p' : Plan} {node : Node}
  {pre post firsts : List Node}

/-! ## Patterns -/

theorem canJoin_iff {anchor pattern : Pattern} :
    canJoin anchor pattern = true ↔ pattern ≤ .injective ∧
      (anchor ≤ .injective ∨ anchor = .outputFusable ∧ pattern ≤ .broadcast) := by
  simp [canJoin]

/-- What may join leaves what the anchor lets in as it is. -/
theorem canJoin_max {anchor pattern : Pattern} (h : canJoin anchor pattern = true)
    (next : Pattern) : canJoin (anchor.max pattern) next = canJoin anchor next := by
  revert h
  cases anchor <;> cases pattern <;> cases next <;> decide

theorem canJoin_eq_false {first : Pattern} (h : first = .reduction ∨ first = .isolated)
    (pattern : Pattern) : canJoin first pattern = false := by
  rcases h with rfl | rfl <;> cases pattern <;> decide

theorem refuses_of_canJoin {first pattern : Pattern} (hle : pattern ≤ .injective)
    (h : canJoin first pattern = false) :
    first = .reduction ∨ first = .isolated ∨ first = .outputFusable ∧ pattern = .injective := by
  revert hle h
  cases first <;> cases pattern <;> decide

theorem Pattern.le_broadcast_iff {pattern : Pattern} :
    pattern ≤ .broadcast ↔ pattern = .elementwise ∨ pattern = .broadcast := by
  cases pattern <;> decide

/-! ## Plans made so far -/

/-- What is true of a plan for the operations `nodes`, `firsts` being the first members of its
groups. -/
structure Greedy (registry : Registry) (dialect : String) (f : Func) (nodes : List Node) (p : Plan)
    (firsts : List Node) : Prop where
  length_eq : firsts.length = p.anchors.size
  first : ∀ group, (p.members nodes group).head? = firsts[group]?
  in_order : firsts.Sublist nodes
  /-- The anchor of a group lets in what its first member lets in, -/
  anchor : ∀ group x, firsts[group]? = some x → ∀ pattern,
    canJoin (p.anchors.getD group .isolated) pattern =
      canJoin (registry.pattern x.op.name.text) pattern
  /-- and that one has let in all later members. -/
  grown : ∀ group pre y post, p.members nodes group = pre ++ y :: post → ∀ x, pre.head? = some x →
    canJoin (registry.pattern x.op.name.text) (registry.pattern y.op.name.text) = true ∧
      ∃ z ∈ pre, Joins f z y
  kept_out : ∀ x ∈ firsts, KeptOut registry dialect f (p.members nodes) x

/-- A reason to be kept out stays one when groups grow. -/
theorem KeptOut.mono {groups groups' : Nat → List Node} {x : Node}
    (h : KeptOut registry dialect f groups x)
    (hgroups : ∀ group, ∃ more, groups' group = groups group ++ more) :
    KeptOut registry dialect f groups' x := by
  cases h with
  | noOperand h => exact .noOperand h
  | argument hhead hmem => exact .argument hhead hmem
  | ungrouped hhead hmem hresult hgrouped => exact .ungrouped hhead hmem hresult hgrouped
  | shared hhead hmem hne htakes => exact .shared hhead hmem hne htakes
  | pattern h => exact .pattern h
  | @anchor v y z group hhead hmem hresult hfirst hrefuses =>
    obtain ⟨more, hmore⟩ := hgroups group
    have hmem' : y ∈ groups' group := by
      rw [hmore]
      exact List.mem_append_left _ hmem
    have hfirst' : (groups' group).head? = some z := by
      rw [hmore, List.head?_append, hfirst]
      rfl
    exact .anchor hhead hmem' hresult hfirst' hrefuses

/-- A statement about every member of a list and those in front of it, when a member is added. -/
theorem forall_split_snoc {α : Type} {P : List α → α → Prop} {l : List α} {a : α}
    (h : ∀ pre y post, l = pre ++ y :: post → P pre y) (ha : P l a) :
    ∀ pre y post, l ++ [a] = pre ++ y :: post → P pre y := by
  intro pre y post heq
  rcases List.eq_nil_or_concat post with rfl | ⟨front, b, rfl⟩
  · obtain ⟨rfl, hy⟩ := List.append_inj' heq rfl
    rw [← List.singleton_inj.1 hy]
    exact ha
  · rw [List.concat_eq_append, ← List.cons_append, ← List.append_assoc] at heq
    exact h pre y front (List.append_inj' heq rfl).1

theorem Plan.members_put {anchors : Array Pattern} (hfresh : p.groupOf? node.id = none)
    (hne : ∀ n ∈ pre, n.id ≠ node.id) (new group : Nat) :
    Plan.members ⟨p.groups ++ [(node.id, new)], anchors⟩ (pre ++ [node]) group =
      p.members pre group ++ if new = group then [node] else [] := by
  rw [Plan.members_snoc (p := p)]
  · congr 1
    by_cases heq : new = group <;> simp [Plan.members, Plan.groupOf?, groupOf?_append hfresh, heq]
  · intro n hn
    exact (groupOf?_append hfresh).trans (if_neg (hne n hn))

/-- What stands in the way if an operation may not join. -/
theorem joinable?_eq_none {op : Operation} {pattern : Pattern}
    (h : joinable? f p op pattern = .ok none) :
    op.operands = [] ∨ ∃ first, op.operands.head? = some first ∧
      (f.producer first = .ok none ∨ ∃ producer, f.producer first = .ok (some producer) ∧
        (p.groupOf? producer = none ∨ ∃ group takers, p.groupOf? producer = some group ∧
          f.consumers first = .ok takers ∧
          (takers.length ≠ 1 ∨ canJoin (p.anchors.getD group .isolated) pattern = false))) := by
  unfold joinable? at h
  split at h
  · next hops => exact .inl hops
  · next first rest hops =>
    refine .inr ⟨first, by simp [hops], ?_⟩
    split at h
    · cases h
    · next hproducer => exact .inl hproducer
    · next producer hproducer =>
      refine .inr ⟨producer, hproducer, ?_⟩
      split at h
      · next hgroup => exact .inl hgroup
      · next group hgroup =>
        split at h
        · cases h
        · next takers htakers =>
          split at h
          · cases h
          · next hif =>
            refine .inr ⟨group, takers, hgroup, htakers, ?_⟩
            rw [Bool.and_eq_true, decide_eq_true_eq, not_and, Bool.not_eq_true] at hif
            by_cases hone : takers.length = 1
            · exact .inr (hif hone)
            · exact .inl hone

theorem exists_ne_of_length_ne_one {α : Type} {l : List α} (hnodup : l.Nodup) (h : l.length ≠ 1)
    {a : α} (ha : a ∈ l) : ∃ b ∈ l, b ≠ a := by
  rcases l with _ | ⟨b, _ | ⟨c, l⟩⟩
  · cases ha
  · exact absurd rfl h
  · have hbc : b ≠ c := by
      rintro rfl
      simp at hnodup
    by_cases hba : b = a
    · exact ⟨c, by simp, fun hca => hbc (hba.trans hca.symm)⟩
    · exact ⟨b, by simp, hba⟩

/-- An operation that may not join is kept out. -/
theorem Greedy.keptOut (hf : f.Invariant) (hp : Planned registry dialect f pre p)
    (h : Greedy registry dialect f pre p firsts) (hnodes : f.body.nodes = pre ++ node :: post)
    (hnone : joinable? f p node.op (registry.pattern node.op.name.text) = .ok none) :
    KeptOut registry dialect f (p.members pre) node := by
  have hnode : node ∈ f.body.nodes := by simp [hnodes]
  rcases joinable?_eq_none hnone with hops | ⟨v, hhead, hproducer | ⟨producer, hproducer, hcases⟩⟩
  · exact .noOperand hops
  · obtain ⟨n, horigin⟩ := Func.producer_eq_none_iff.1 hproducer
    exact .argument hhead (List.mem_of_getElem? ((hf.argument_iff v n).1 horigin))
  · have htakes : v ∈ node.op.operands := List.mem_of_mem_head? hhead
    obtain ⟨y, hy, rfl, hresult, hconsumers⟩ := hf.exists_of_producer hproducer
    have hypre : y ∈ pre := mem_pre_of_takes hf hnodes hy hresult htakes
    rcases hcases with hgroup | ⟨group, takers, hgroup, htakers, hlength | hcan⟩
    · refine .ungrouped hhead hy hresult ?_
      by_contra hgrouped
      obtain ⟨group, hsome⟩ := (hp.grouped_iff y.id).2 ⟨y, hypre, rfl, by simpa using hgrouped⟩
      exact absurd (hgroup.symm.trans hsome) (by simp)
    · rw [hconsumers] at htakers
      cases htakers
      rw [List.length_map] at hlength
      have hmem : node ∈ f.body.nodes.filter fun n => v ∈ n.op.operands :=
        List.mem_filter.2 ⟨hnode, by simpa using htakes⟩
      have hnodup : f.body.nodes.Nodup := List.Nodup.of_map _ f.body.nodup_ids
      obtain ⟨n, hn, hne⟩ := exists_ne_of_length_ne_one (hnodup.filter _) hlength hmem
      obtain ⟨hn, hvn⟩ := List.mem_filter.1 hn
      exact .shared hhead hn hne (by simpa using hvn)
    · by_cases hle : registry.pattern node.op.name.text ≤ .injective
      · have hmem : y ∈ p.members pre group := List.mem_filter.2 ⟨hypre, by simpa using hgroup⟩
        obtain ⟨z, hz⟩ : ∃ z, (p.members pre group).head? = some z :=
          Option.isSome_iff_exists.1 (List.isSome_head?.2 (List.ne_nil_of_mem hmem))
        rw [h.anchor group z (by rw [← h.first, hz])] at hcan
        exact .anchor hhead hmem hresult hz (refuses_of_canJoin hle hcan)
      · exact .pattern hle

/-- An operation that is in no group changes nothing. -/
theorem Greedy.skip (h : Greedy registry dialect f pre p firsts)
    (hfresh : p.groupOf? node.id = none) :
    Greedy registry dialect f (pre ++ [node]) p firsts := by
  have hmembers : p.members (pre ++ [node]) = p.members pre :=
    funext (Plan.members_snoc_of_none hfresh)
  refine ⟨h.length_eq, ?_, h.in_order.trans (List.sublist_append_left ..), h.anchor, ?_, ?_⟩
  · rw [hmembers]
    exact h.first
  · rw [hmembers]
    exact h.grown
  · rw [hmembers]
    exact h.kept_out

/-- An operation joins a group at its end. -/
theorem Greedy.join {group : Nat} (hf : f.Invariant) (hp : Planned registry dialect f pre p)
    (h : Greedy registry dialect f pre p firsts) (hnodes : f.body.nodes = pre ++ node :: post)
    (hjoin : joinable? f p node.op (registry.pattern node.op.name.text) = .ok (some group)) :
    Greedy registry dialect f (pre ++ [node])
      (p.join node.id (registry.pattern node.op.name.text) group) firsts := by
  obtain ⟨x, hx, -, hjoins⟩ := hp.exists_joins hf hnodes hjoin
  obtain ⟨-, -, -, -, -, -, -, -, hcan⟩ := joinable?_eq_some hjoin
  have hmembers : ∀ k, Plan.members (p.join node.id (registry.pattern node.op.name.text) group)
      (pre ++ [node]) k = p.members pre k ++ if group = k then [node] else [] :=
    Plan.members_put (hp.groupOf?_eq_none hnodes) (fun n hn => id_ne_of_mem_pre hnodes hn) group
  refine ⟨?_, ?_, h.in_order.trans (List.sublist_append_left ..), ?_, ?_, ?_⟩
  · simpa [Plan.join] using h.length_eq
  · intro k
    rw [hmembers, ← h.first]
    split
    · next heq =>
      rw [← heq]
      exact List.head?_append_of_ne_nil _ (List.ne_nil_of_mem hx)
    · rw [List.append_nil]
  · intro k y hy pattern
    have hk : k < p.anchors.size := h.length_eq ▸ (List.getElem?_eq_some_iff.1 hy).1
    rw [← h.anchor k y hy, Plan.join, getD_modify hk]
    by_cases heq : group = k
    · rw [if_pos heq, ← heq]
      exact canJoin_max hcan pattern
    · rw [if_neg heq]
  · intro k
    rw [hmembers]
    split
    · next heq =>
      subst heq
      refine forall_split_snoc (h.grown group) ?_
      intro y hy
      rw [← h.anchor group y (by rw [← h.first, hy])]
      exact ⟨hcan, x, hx, hjoins⟩
    · rw [List.append_nil]
      exact h.grown k
  · intro y hy
    exact (h.kept_out y hy).mono fun k => ⟨_, hmembers k⟩

/-- An operation that may not join is the first member of the next group. -/
theorem Greedy.start (hf : f.Invariant) (hp : Planned registry dialect f pre p)
    (h : Greedy registry dialect f pre p firsts) (hnodes : f.body.nodes = pre ++ node :: post)
    (hnone : joinable? f p node.op (registry.pattern node.op.name.text) = .ok none) :
    Greedy registry dialect f (pre ++ [node])
      (p.start node.id (registry.pattern node.op.name.text)) (firsts ++ [node]) := by
  have hmembers : ∀ k, Plan.members (p.start node.id (registry.pattern node.op.name.text))
      (pre ++ [node]) k = p.members pre k ++ if p.anchors.size = k then [node] else [] :=
    Plan.members_put (hp.groupOf?_eq_none hnodes) (fun n hn => id_ne_of_mem_pre hnodes hn) _
  have hnil : p.members pre p.anchors.size = [] := by
    rw [← List.head?_eq_none_iff, h.first, List.getElem?_eq_none_iff, h.length_eq]
  have hfirsts : ∀ k, (firsts ++ [node])[k]? =
      if p.anchors.size = k then some node else firsts[k]? := by
    intro k
    rw [← h.length_eq]
    grind
  refine ⟨?_, ?_, h.in_order.append (.refl _), ?_, ?_, ?_⟩
  · simp [Plan.start, h.length_eq]
  · intro k
    rw [hmembers, hfirsts]
    by_cases heq : p.anchors.size = k
    · rw [if_pos heq, if_pos heq, ← heq, hnil]
      rfl
    · rw [if_neg heq, if_neg heq, List.append_nil, h.first]
  · intro k x hx pattern
    rw [hfirsts] at hx
    rw [Plan.start, getD_push]
    by_cases heq : p.anchors.size = k
    · rw [if_pos heq] at hx
      cases hx
      rw [if_pos heq.symm]
    · rw [if_neg heq] at hx
      rw [if_neg (Ne.symm heq)]
      exact h.anchor k x hx pattern
  · intro k
    rw [hmembers]
    by_cases heq : p.anchors.size = k
    · rw [if_pos heq, ← heq, hnil]
      refine forall_split_snoc (by simp) ?_
      intro x hx
      cases hx
    · rw [if_neg heq, List.append_nil]
      exact h.grown k
  · intro x hx
    have hmono : ∀ k, ∃ more, Plan.members (p.start node.id (registry.pattern node.op.name.text))
        (pre ++ [node]) k = p.members pre k ++ more := fun k => ⟨_, hmembers k⟩
    rcases List.mem_append.1 hx with hx | hx
    · exact (h.kept_out x hx).mono hmono
    · obtain rfl : x = node := by simpa using hx
      exact (h.keptOut hf hp hnodes hnone).mono hmono

/-- One more operation. -/
theorem Greedy.assign (hf : f.Invariant) (hp : Planned registry dialect f pre p)
    (h : Greedy registry dialect f pre p firsts) (hnodes : f.body.nodes = pre ++ node :: post)
    (hassign : Fusion.assign registry dialect f p node = .ok p') :
    ∃ firsts', Greedy registry dialect f (pre ++ [node]) p' firsts' := by
  rcases assign_cases hassign with ⟨-, rfl⟩ | ⟨-, ⟨group, hjoin, rfl⟩ | ⟨hnone, rfl⟩⟩
  · exact ⟨firsts, h.skip (hp.groupOf?_eq_none hnodes)⟩
  · exact ⟨firsts, h.join hf hp hnodes hjoin⟩
  · exact ⟨firsts ++ [node], h.start hf hp hnodes hnone⟩

theorem greedy_of_plan (hf : f.Invariant) (h : plan registry dialect f = .ok p) :
    ∃ firsts, Greedy registry dialect f f.body.nodes p firsts := by
  have hboth : Planned registry dialect f f.body.nodes p ∧
      ∃ firsts, Greedy registry dialect f f.body.nodes p firsts := by
    refine Fallible.foldlM_induct (P := fun nodes p => Planned registry dialect f nodes p ∧
      ∃ firsts, Greedy registry dialect f nodes p firsts) ?_ h ?_
    · intro pre node post p p' hnodes hplan hassign
      obtain ⟨hp, firsts, hgreedy⟩ := hplan
      exact ⟨hp.assign hf hnodes hassign, hgreedy.assign hf hp hnodes hassign⟩
    · refine ⟨⟨by simp [Plan.groupOf?], by simp [Plan.groupOf?], by simp, by simp⟩, [], ?_⟩
      exact ⟨rfl, by simp [Plan.members], .slnil, by simp, by simp [Plan.members], by simp⟩
  exact hboth.2

/-! ## The groups that are left -/

/-- The first member of a group lets in all others. -/
theorem Greedy.canJoin_of_mem {nodes rest : List Node} {group : Nat} {x y : Node}
    (h : Greedy registry dialect f nodes p firsts) (hmembers : p.members nodes group = x :: rest)
    (hy : y ∈ rest) :
    canJoin (registry.pattern x.op.name.text) (registry.pattern y.op.name.text) = true := by
  obtain ⟨front, back, rfl⟩ := List.append_of_mem hy
  exact (h.grown group (x :: front) y back hmembers x rfl).1

/-- In a function that carries the marks of its plan, the groups are those of the plan. -/
theorem Greedy.partition (hp : Planned registry dialect f f.body.nodes p)
    (h : Greedy registry dialect f f.body.nodes p firsts) (hmarked : write p f = f) :
    Partition registry dialect f firsts := by
  have hfused : fused dialect f = p.members f.body.nodes := by
    funext group
    have hfilter := filter_fusedBlock_write hp group
    rwa [hmarked] at hfilter
  refine ⟨?_, ?_, h.in_order, ?_, ?_, ?_, ?_, ?_⟩
  · intro node hnode hgrouped
    obtain ⟨group, hgroup⟩ := (hp.grouped_iff node.id).2 ⟨node, hnode, rfl, hgrouped⟩
    refine ⟨group, h.length_eq ▸ hp.group_lt _ _ hgroup, ?_⟩
    rw [← hmarked] at hnode
    obtain ⟨n, -, rfl⟩ := List.mem_map.1 hnode
    exact attribute?_mark hgroup
  · rw [hfused]
    exact h.first
  · rw [hfused]
    intro group x rest hmembers y hy
    exact (canJoin_iff.1 (h.canJoin_of_mem hmembers hy)).1
  · rw [hfused]
    intro group x rest hmembers hfirst y hy
    have hcan := h.canJoin_of_mem hmembers hy
    rw [hfirst, canJoin_iff] at hcan
    rcases hcan.2 with habove | ⟨-, hle⟩
    · exact absurd habove (by decide)
    · exact Pattern.le_broadcast_iff.1 hle
  · rw [hfused]
    intro group x rest hmembers hfirst
    rw [List.eq_nil_iff_forall_not_mem]
    intro y hy
    have hcan := h.canJoin_of_mem hmembers hy
    rw [canJoin_eq_false hfirst] at hcan
    cases hcan
  · rw [hfused]
    intro group pre y post hmembers hne
    obtain ⟨x, hx⟩ := Option.isSome_iff_exists.1 (List.isSome_head?.2 hne)
    exact (h.grown group pre y post hmembers x hx).2
  · rw [hfused]
    exact h.kept_out

theorem partition_write (hf : f.Invariant) (h : plan registry dialect f = .ok p) :
    ∃ firsts, Partition registry dialect (write p f) firsts := by
  have hinv := invariant_write hf p
  have hplan : plan registry dialect (write p f) = .ok p := by rw [plan_write, h]
  obtain ⟨firsts, hgreedy⟩ := greedy_of_plan hinv hplan
  exact ⟨firsts, hgreedy.partition (planned_of_plan hinv hplan) (write_write p f)⟩

/-- **Fusion divides a function into maximal groups**, for every registry and every dialect. It
succeeds on a built function exactly if all types are static, and then it leaves the operations as
they are but for their groups. -/
theorem run_partitions (registry : Registry) (dialect : String) (hf : f.Built) :
    ((∃ changed, (run dialect registry f).result = .ok changed) ↔ f.StaticValues) ∧
      ∀ changed, (run dialect registry f).result = .ok changed →
        Kept dialect f (run dialect registry f).state ∧
          ∃ firsts, Partition registry dialect (run dialect registry f).state firsts := by
  refine ⟨run_succeeds_iff hf.invariant, ?_⟩
  intro changed h
  have hrun : run dialect registry f = ⟨(run dialect registry f).state, .ok changed⟩ := by
    rw [← h]
  obtain ⟨-, p, hplan, hg, -⟩ := run_eq_ok_iff.1 hrun
  rw [hg]
  exact ⟨kept_write (planned_of_plan hf.invariant hplan), partition_write hf.invariant hplan⟩

/-- A bias joins a product, and then a reshape does not: the group is the product's. What joins the
reshape is not let in by the sum, and a value that is taken twice ends a group. -/
theorem run_partitions_dense :
    let ty : Ty := .scalar .f32
    let registry := Registry.ofList
      [{ name := "relay.dense", pattern := .outputFusable },
        { name := "relay.add", pattern := .broadcast },
        { name := "relay.reshape", pattern := .injective },
        { name := "relay.relu", pattern := .elementwise },
        { name := "relay.sum", pattern := .reduction }]
    let f := (Func.empty "main").after
      [.addArgument ty,
        .pushOp { name := ⟨"relay.dense"⟩, operands := [0, 0] } [ty],
        .pushOp { name := ⟨"relay.add"⟩, operands := [1, 0] } [ty],
        .pushOp { name := ⟨"relay.reshape"⟩, operands := [2] } [ty],
        .pushOp { name := ⟨"relay.relu"⟩, operands := [3] } [ty],
        .pushOp { name := ⟨"relay.sum"⟩, operands := [4] } [ty],
        .pushOp { name := ⟨"relay.relu"⟩, operands := [5] } [ty],
        .pushOp { name := ⟨"relay.add"⟩, operands := [6, 6] } [ty],
        .pushOp { name := .terminator, operands := [7, 6] } []]
    let g := (run "relay" registry f).state
    f.Built ∧ (run "relay" registry f).result = .ok true ∧
      g.body.nodes.map (fusedBlock "relay") =
        [.group (.int 0), .group (.int 0), .group (.int 1), .group (.int 1), .group (.int 2),
          .group (.int 3), .group (.int 4), .lone 7] ∧
      Kept "relay" f g ∧ ∃ firsts, Partition registry "relay" g firsts := by
  intro ty registry f g
  have hf : f.Built := ⟨_, _, rfl⟩
  obtain ⟨hrun, hblocks⟩ : (run "relay" registry f).result = .ok true ∧
      g.body.nodes.map (fusedBlock "relay") =
        [.group (.int 0), .group (.int 0), .group (.int 1), .group (.int 1), .group (.int 2),
          .group (.int 3), .group (.int 4), .lone 7] := by
    decide +kernel
  exact ⟨hf, hrun, hblocks, (run_partitions registry "relay" hf).2 true hrun⟩

end TensorIR.Fusion
