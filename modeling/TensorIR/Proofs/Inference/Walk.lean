import TensorIR.Proofs.Inference.Step
import TensorIR.Proofs.Registry

/-!
# The walk of shape inference

In a built function no operation takes or owns a result of a later one (`Forward`), so what a rule
sees when its operation is visited is what stands in the function in the end. The two halves of the
correctness of the walk follow: the final types solve the equations of all operations visited
(`walk_solves`), and a solution is what the walk arrives at (`walk_of_solution`).
-/

namespace TensorIR

namespace ShapeInference

open Func (Retyped)

/-- The operation is passed over: it is the return, or belongs to another dialect, or has no
rule. -/
def Skipped (registry : Registry) (dialect : String) (terminator : OpId) (node : Node) : Prop :=
  node.id = terminator ∨ node.op.name.dialect ≠ dialect ∨
    registry.rule? node.op.name.text = none

/-- No operation takes or owns a result of a later one. -/
def Forward : List Node → Prop
  | [] => True
  | node :: rest =>
    (∀ v ∈ node.op.operands, ∀ later ∈ node :: rest, v ∉ later.op.results) ∧
    (∀ v ∈ node.op.results, ∀ later ∈ rest, v ∉ later.op.results) ∧
    node.op.results.Nodup ∧ Forward rest

variable {registry : Registry} {dialect : String} {terminator : OpId} {f g : Func} {v : ValueId}
  {nodes : List Node}

theorem ruleFor?_eq_some_iff {node : Node} {rule : ShapeRule} :
    ruleFor? registry dialect terminator node = some rule ↔
      ¬Skipped registry dialect terminator node ∧
        registry.rule? node.op.name.text = some rule := by
  unfold ruleFor? Skipped
  by_cases hid : node.id = terminator
  · simp [hid]
  · by_cases hd : node.op.name.dialect = dialect
    · cases hrule : registry.rule? node.op.name.text <;> simp [hid, hd]
    · simp [hid, hd]

theorem ruleFor?_eq_none_iff {node : Node} :
    ruleFor? registry dialect terminator node = none ↔
      Skipped registry dialect terminator node := by
  unfold ruleFor? Skipped
  by_cases hid : node.id = terminator
  · simp [hid]
  · by_cases hd : node.op.name.dialect = dialect <;> simp [hid, hd]

/-- An operation that is not passed over has a rule. -/
theorem exists_rule_of_not_skipped {node : Node} (h : ¬Skipped registry dialect terminator node) :
    ∃ rule, ruleFor? registry dialect terminator node = some rule :=
  Option.ne_none_iff_exists'.1 fun hnone => h (ruleFor?_eq_none_iff.1 hnone)

theorem forward_of_invariant (h : f.Invariant) : Forward f.body.nodes := by
  -- what stands behind a prefix of the body is in forward order
  have hsuffix : ∀ pre post, f.body.nodes = pre ++ post → Forward post := by
    intro pre post
    induction post generalizing pre with
    | nil => exact fun _ => trivial
    | cons node post ih =>
      intro hs
      have hnode : node.wiring ∈ f.wirings := Func.wiring_mem (by simp [hs])
      have hearlier : ∀ {earlier}, earlier ∈ pre → earlier.wiring ∈ f.wirings :=
        fun hin => Func.wiring_mem (hs ▸ List.mem_append_left _ hin)
      have hlater : ∀ {later}, later ∈ node :: post → later.wiring ∈ f.wirings :=
        fun hin => Func.wiring_mem (hs ▸ List.mem_append_right _ hin)
      have hids : (pre.map Node.id ++ (node :: post).map Node.id).Nodup := by
        rw [← List.map_append, ← hs]
        exact f.body.nodup_ids
      refine ⟨?_, ?_, h.nodup_results_of_mem hnode, ih (pre ++ [node]) (by simp [hs])⟩
      · intro v hv later hin hres
        rcases h.wellFormed.operand_defined pre node post hs v hv with harg | ⟨p, hp, hpres⟩
        · exact h.notMem_results_of_mem_arguments (hs ▸ List.mem_append_right _ hin) harg hres
        · have hown := h.owner_unique (hearlier hp) (hlater hin) hpres hres
          exact (List.nodup_append.1 hids).2.2 _ (List.mem_map_of_mem hp) _
            (List.mem_map_of_mem hin) (congrArg Wiring.id hown)
      · intro v hv later hin hres
        have hown := h.owner_unique hnode (hlater (.tail _ hin)) hv hres
        have htail := (List.nodup_append.1 hids).2.1
        rw [List.map_cons, List.nodup_cons] at htail
        exact htail.1 (List.mem_map.2 ⟨later, hin, (congrArg Wiring.id hown).symm⟩)
  exact hsuffix [] _ rfl

/-- Types `g` that solve the equations of the operations: the rule of each operation that is not
passed over, asked in `g`, gives its results the types they have in `g`, starting from those they
have in `f`; and all other types are those of `f`. -/
structure Solves (registry : Registry) (dialect : String) (terminator : OpId) (nodes : List Node)
    (f g : Func) : Prop where
  kept : ∀ v,
    (∀ node ∈ nodes, ¬Skipped registry dialect terminator node → v ∉ node.op.results) →
      g.valueTy? v = f.valueTy? v
  inferred : ∀ node ∈ nodes, ∀ rule, ruleFor? registry dialect terminator node = some rule →
    ∃ cs, rule ⟨node.op, g⟩ = .ok cs ∧ cs.length = node.op.results.length ∧
      ∀ p ∈ node.op.results.zip cs, g.valueTy? p.1 = (f.valueTy? p.1).map p.2.resolve

theorem inputs_congr {op : Operation} (h : ∀ v ∈ op.operands, g.valueTy? v = f.valueTy? v) :
    (⟨op, g⟩ : Context).inputs = (⟨op, f⟩ : Context).inputs := by
  unfold Context.inputs
  congr 1
  exact List.map_congr_left h

/-! ## Steps of the walk -/

/-- A walk that succeeds passes over its first operation, or infers its types, and goes on. -/
theorem walk_cons_eq_ok_iff {node : Node} {rest : List Node} {changed : Bool} :
    walk registry dialect terminator (node :: rest) f = ⟨g, .ok changed⟩ ↔
      (Skipped registry dialect terminator node ∧
        walk registry dialect terminator rest f = ⟨g, .ok changed⟩) ∨
      ∃ rule f₁ now later, ruleFor? registry dialect terminator node = some rule ∧
        inferOp f node.op rule = .ok (f₁, now) ∧
        walk registry dialect terminator rest f₁ = ⟨g, .ok later⟩ ∧ changed = (now || later) := by
  rw [← ruleFor?_eq_none_iff, walk]
  cases hrule : ruleFor? registry dialect terminator node with
  | none => simp
  | some rule =>
    cases hstep : inferOp f node.op rule with
    | error e => simp [hstep]
    | ok p =>
      obtain ⟨f₁, now⟩ := p
      rcases hwalk : walk registry dialect terminator rest f₁ with ⟨g', result⟩
      simp only [hstep, hwalk, Outcome.mk.injEq, Option.some.injEq, reduceCtorEq, false_and,
        false_or]
      constructor
      · intro h
        obtain ⟨rfl, hresult⟩ := h
        obtain ⟨later, rfl, rfl⟩ := Fallible.map_eq_ok_iff.1 hresult
        exact ⟨rule, f₁, now, later, rfl, hstep, hwalk, rfl⟩
      · intro h
        obtain ⟨rule', f₁', now', later', rfl, hstep', hwalk', rfl⟩ := h
        rw [hstep] at hstep'
        cases hstep'
        rw [hwalk] at hwalk'
        cases hwalk'
        exact ⟨rfl, rfl⟩

/-- **The final types solve the equations**: what a rule saw when it was asked is still there at the
end of the walk. -/
theorem walk_solves (hr : registry.Pure) {changed : Bool} (hn : Forward nodes)
    (h : walk registry dialect terminator nodes f = ⟨g, .ok changed⟩) :
    Retyped f g ∧ g.signature = f.signature ∧ Solves registry dialect terminator nodes f g := by
  induction nodes generalizing f changed with
  | nil =>
    cases h
    exact ⟨.refl _, rfl, fun _ _ => rfl, by simp⟩
  | cons node rest ih =>
    obtain ⟨hoperands, hresults, hnodup, hrest⟩ := hn
    rcases walk_cons_eq_ok_iff.1 h with ⟨hskip, h⟩ | ⟨rule, f₁, now, later, hrule, hstep, h, -⟩
    · obtain ⟨hre, hsig, hkept, hinf⟩ := ih hrest h
      refine ⟨hre, hsig, fun v hv => hkept v fun n hn => hv n (.tail _ hn), ?_⟩
      intro n hn rule hrule
      rcases List.mem_cons.1 hn with rfl | hn
      · exact absurd hskip (ruleFor?_eq_some_iff.1 hrule).1
      · exact hinf n hn rule hrule
    · obtain ⟨hre, hsig, hkept, hinf⟩ := ih hrest h
      obtain ⟨cs, hcs, hlen, hre₁, hsig₁, hkept₁, hinf₁⟩ := inferOp_spec hnodup hstep
      obtain ⟨hlive, hrule'⟩ := ruleFor?_eq_some_iff.1 hrule
      -- results of the first operation are not touched again
      have hfinal : ∀ v ∈ node.op.results, g.valueTy? v = f₁.valueTy? v :=
        fun v hv => hkept v fun n hn _ => hresults v hv n hn
      -- operands of the first operation are not touched at all
      have hseen : ∀ v ∈ node.op.operands, g.valueTy? v = f.valueTy? v := by
        intro v hv
        rw [hkept v fun n hn _ => hoperands v hv n (.tail _ hn)]
        exact hkept₁ v (hoperands v hv node List.mem_cons_self)
      refine ⟨hre₁.trans hre, hsig.trans hsig₁, ?_, ?_⟩
      · intro v hv
        rw [hkept v fun n hn => hv n (.tail _ hn)]
        exact hkept₁ v (hv node List.mem_cons_self hlive)
      · intro n hn rule' hrule''
        rcases List.mem_cons.1 hn with rfl | hn
        · obtain rfl : rule' = rule := by simpa [hrule] using hrule''.symm
          refine ⟨cs, (hr _ _ hrule').ok (inputs_congr hseen).symm hcs, hlen, ?_⟩
          intro p hp
          rw [hfinal p.1 (List.of_mem_zip hp).1, hinf₁ p hp]
        · obtain ⟨cs', hcs', hlen', hinf'⟩ := hinf n hn rule' hrule''
          refine ⟨cs', hcs', hlen', ?_⟩
          intro p hp
          have hold : f₁.valueTy? p.1 = f.valueTy? p.1 :=
            hkept₁ _ fun hin => hresults _ hin n hn (List.of_mem_zip hp).1
          rw [hinf' p hp, hold]

/-- Part of a type stays if no operation that owns the value infers another one. This holds of any
rules, of values with several owners, and of walks that fail. -/
theorem walk_keeps {α : Type} (part : Ty → α)
    (hpart : ∀ node ∈ nodes, v ∈ node.op.results →
      ∀ rule, ruleFor? registry dialect terminator node = some rule →
        ∀ h cs, rule ⟨node.op, h⟩ = .ok cs → ∀ c ∈ cs, ∀ old, part (c.resolve old) = part old) :
    ((walk registry dialect terminator nodes f).state.valueTy? v).map part =
      (f.valueTy? v).map part := by
  induction nodes generalizing f with
  | nil => rfl
  | cons node rest ih =>
    have hrest := fun n hn => hpart n (List.mem_cons_of_mem node hn)
    rw [walk]
    split
    · exact ih hrest
    · next rule hrule =>
      split
      · rfl
      · next f₁ changed hstep =>
        refine (ih hrest).trans ?_
        rcases inferOp_valueTy?_cases hstep v with hkept | ⟨hv, cs, hcs, c, hc, hnew⟩
        · rw [hkept]
        · have hsame : part ∘ c.resolve = part :=
            funext (hpart node List.mem_cons_self hv rule hrule f cs hcs c hc)
          rw [hnew, Option.map_map, hsame]

/-- The walk tells whether it has changed anything: what one operation changes no later one changes
back. -/
theorem walk_changed_iff {changed : Bool} (hn : Forward nodes)
    (h : walk registry dialect terminator nodes f = ⟨g, .ok changed⟩) :
    changed = false ↔ g = f := by
  induction nodes generalizing f changed with
  | nil =>
    cases h
    simp
  | cons node rest ih =>
    obtain ⟨-, hresults, hnodup, hrest⟩ := hn
    rcases walk_cons_eq_ok_iff.1 h with ⟨-, hwalk⟩ | ⟨rule, f₁, now, later, -, hstep, hwalk, rfl⟩
    · exact ih hrest hwalk
    · cases now with
      | false =>
        obtain rfl := inferOp_unchanged hstep
        simpa using ih hrest hwalk
      | true =>
        obtain ⟨v, hv, hne⟩ := inferOp_changed hnodup hstep
        have hfinal : g.valueTy? v = f₁.valueTy? v := by
          have hkept : (walk registry dialect terminator rest f₁).state.valueTy? v =
              f₁.valueTy? v := by
            simpa using walk_keeps id fun n hn hin => absurd hin (hresults v hv n hn)
          rwa [hwalk] at hkept
        have hgf : g ≠ f := by
          intro hgf
          rw [← hfinal, hgf] at hne
          exact hne rfl
        simp [hgf]

/-- **A solution is where the walk arrives.** The invariant: values that the rest of the walk infers
have their types of `f`, and all others those of `g`. -/
theorem walk_of_solution (hr : registry.Pure) {h : Func} (hn : Forward nodes)
    (hresults : ∀ node ∈ nodes, ∀ v ∈ node.op.results, v < h.values.size)
    (hinf : ∀ node ∈ nodes, ∀ rule, ruleFor? registry dialect terminator node = some rule →
      ∃ cs, rule ⟨node.op, g⟩ = .ok cs ∧ cs.length = node.op.results.length ∧
        ∀ p ∈ node.op.results.zip cs, g.valueTy? p.1 = (f.valueTy? p.1).map p.2.resolve)
    (hahead : ∀ node ∈ nodes, ¬Skipped registry dialect terminator node →
      ∀ v ∈ node.op.results, h.valueTy? v = f.valueTy? v)
    (hdone : ∀ v,
      (∀ node ∈ nodes, ¬Skipped registry dialect terminator node → v ∉ node.op.results) →
        h.valueTy? v = g.valueTy? v) :
    ∃ h' changed, walk registry dialect terminator nodes h = ⟨h', .ok changed⟩ ∧
      ∀ v, h'.valueTy? v = g.valueTy? v := by
  induction nodes generalizing h with
  | nil => exact ⟨h, false, rfl, fun v => hdone v (by simp)⟩
  | cons node rest ih =>
    obtain ⟨hoperands, hdisjoint, hnodup, hrest⟩ := hn
    have hinf' := fun n hn => hinf n (List.mem_cons_of_mem node hn)
    have hahead' := fun n hn => hahead n (List.mem_cons_of_mem node hn)
    have hresults' := fun n hn => hresults n (List.mem_cons_of_mem node hn)
    by_cases hskip : Skipped registry dialect terminator node
    · have hdone' : ∀ v,
          (∀ n ∈ rest, ¬Skipped registry dialect terminator n → v ∉ n.op.results) →
            h.valueTy? v = g.valueTy? v := by
        intro v hv
        refine hdone v fun n hn hlive => ?_
        rcases List.mem_cons.1 hn with rfl | hn
        · exact absurd hskip hlive
        · exact hv n hn hlive
      obtain ⟨h', changed, hwalk, htys⟩ := ih hrest hresults' hinf' hahead' hdone'
      exact ⟨h', changed, walk_cons_eq_ok_iff.2 (.inl ⟨hskip, hwalk⟩), htys⟩
    · obtain ⟨rule, hrule⟩ := exists_rule_of_not_skipped hskip
      obtain ⟨cs, hcs, hlen, hsol⟩ := hinf node List.mem_cons_self rule hrule
      have hseen : ∀ v ∈ node.op.operands, h.valueTy? v = g.valueTy? v :=
        fun v hv => hdone v fun n hn _ => hoperands v hv n hn
      have hcs' : rule ⟨node.op, h⟩ = .ok cs :=
        (hr _ _ (ruleFor?_eq_some_iff.1 hrule).2).ok (inputs_congr hseen).symm hcs
      have hstep := inferOp_eq_ok_iff.2
        ⟨cs, hcs', hlen, hresults node List.mem_cons_self, rfl, rfl⟩
      obtain ⟨cs₁, hcs₁, -, hre, -, hkept, hnew⟩ := inferOp_spec hnodup hstep
      obtain rfl : cs = cs₁ := by simpa [hcs'] using hcs₁
      have hgoes := ih hrest (fun n hn v hv => hre.size_eq ▸ hresults' n hn v hv) hinf' ?_ ?_
      · obtain ⟨h', later, hwalk, htys⟩ := hgoes
        exact ⟨h', _, walk_cons_eq_ok_iff.2 (.inr ⟨rule, _, _, later, hrule, hstep, hwalk, rfl⟩),
          htys⟩
      · intro n hn hlive v hv
        rw [hkept v fun hin => hdisjoint v hin n hn hv]
        exact hahead' n hn hlive v hv
      · intro v hv
        by_cases hin : v ∈ node.op.results
        · -- the step gives the first operation's results the types of the solution
          have hfst : (node.op.results.zip cs).map Prod.fst = node.op.results :=
            List.map_fst_zip (by omega)
          rw [← hfst] at hin
          obtain ⟨p, hp, rfl⟩ := List.mem_map.1 hin
          rw [hnew p hp, hsol p hp,
            hahead node List.mem_cons_self hskip p.1 (List.of_mem_zip hp).1]
        · rw [hkept v hin]
          refine hdone v fun n hn hlive => ?_
          rcases List.mem_cons.1 hn with rfl | hn
          · exact hin
          · exact hv n hn hlive

end ShapeInference

end TensorIR
