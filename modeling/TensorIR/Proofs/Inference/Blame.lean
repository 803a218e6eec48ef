import TensorIR.Proofs.Inference.Dims
import TensorIR.Proofs.Inference.Failure

/-!
# Errors name the operation at fault

The walk wraps an error of a rule with the operation, except that it trusts errors about shapes to
name it. A rule could break this trust, since it may fail with any error, and the arithmetic and the
broadcasting that rules share do fail in words that name no operation. But none of these errors gets
out of a rule of the dialect as it is (`InContext.unary_eq` and the others), so all of them are
accountable (`registry_accountable`). Whatever goes wrong in a rule, the error then carries the
description of the operation (`subject?_of_inferOp`), and since the walk goes in program order and
stops at once, this is the first operation that cannot be answered (`failure_named`).
-/

namespace TensorIR

/-! ## What a message mentions -/

/-- A text stands somewhere in another. -/
def Text.Within (text whole : String) : Prop :=
  ∃ front back, whole = front ++ text ++ back

namespace Text.Within

variable {s t u : String}

theorem refl (s : String) : Within s s :=
  ⟨"", "", by simp⟩

theorem trans (h : Within s t) (h' : Within t u) : Within s u := by
  obtain ⟨front, back, rfl⟩ := h
  obtain ⟨front', back', rfl⟩ := h'
  refine ⟨front' ++ front, back ++ back', ?_⟩
  simp only [String.append_assoc]

theorem append_left (h : Within s t) (front : String) : Within s (front ++ t) :=
  h.trans ⟨front, "", by simp⟩

theorem append_right (h : Within s t) (back : String) : Within s (t ++ back) :=
  h.trans ⟨"", back, by simp⟩

end Text.Within

theorem Operation.name_within_describe (op : Operation) :
    Text.Within op.name.text op.describe := by
  unfold describe
  cases op.loc with
  | none => exact .refl _
  | some loc => exact ((Text.Within.refl _).append_right _).append_right _

theorem Operation.loc_within_describe {op : Operation} {loc : String} (h : op.loc = some loc) :
    Text.Within loc op.describe := by
  unfold describe
  rw [h]
  exact (Text.Within.refl _).append_left _

namespace Error

/-- The message contains a text. -/
def Mentions (e : Error) (text : String) : Prop :=
  Text.Within text e.message

/-- The operation that a failure of inference is put down to, by its description. -/
def subject? : Error → Option String
  | ruleFailed subject _ _ | ruleRaised subject _ | resultCount subject _ _ => some subject
  | _ => none

theorem kind_of_subject? {e : Error} {subject : String} (h : e.subject? = some subject) :
    e.kind = .shapeInference := by
  cases e with
  | ruleFailed | ruleRaised | resultCount => rfl
  | _ => cases h

theorem mentions_of_subject? {e : Error} {subject : String} (h : e.subject? = some subject) :
    e.Mentions subject := by
  have hdetail : Text.Within subject e.detail := by
    have hself := Text.Within.refl subject
    cases e with
    | ruleFailed subject' operands reason =>
      obtain rfl := Option.some.inj h
      exact ((((hself.append_left _).append_right _).append_right _).append_right _).append_right _
    | ruleRaised subject' cause =>
      obtain rfl := Option.some.inj h
      exact ((hself.append_right _).append_right _).append_right _
    | resultCount subject' inferred declared =>
      obtain rfl := Option.some.inj h
      exact ((((hself.append_right _).append_right _).append_right _).append_right _).append_right _
    | _ => cases h
  exact hdetail.append_left _

end Error

/-! ## Rules -/

/-- When the rule fails to infer a shape, it says for which operation. Failures of other kinds are
not its own affair. -/
def ShapeRule.Accountable (rule : ShapeRule) : Prop :=
  ∀ c e, rule c = .error e → e.kind = .shapeInference → e.subject? = some c.op.describe

/-- All rules of the registry say for which operation they fail. -/
def Registry.Accountable (registry : Registry) : Prop :=
  ∀ name rule, registry.rule? name = some rule → rule.Accountable

/-- A rule that sees the inputs only leaves it to the context to word its faults. -/
theorem ShapeRule.accountable_ofInputs (rule : Inputs → Except Fault (List Component)) :
    (ofInputs rule).Accountable := by
  intro c e h hkind
  obtain ⟨fault, -, rfl⟩ := ofInputs_eq_error_iff.1 h
  cases fault with
  | shape reason => rfl
  | missingAttribute key => cases hkind
  | unreadableAttribute key mismatch => cases hkind
  | unknownOperand index => cases hkind

theorem Relay.registry_accountable : Relay.registry.Accountable := by
  intro name rule h
  obtain ⟨r, -, rfl⟩ := Relay.mem_rules_of_rule? h
  exact ShapeRule.accountable_ofInputs r

theorem Func.length_returns_of_terminator {f : Func} {t : OpId} (h : f.terminator = .ok t) :
    f.returns.length = 1 := by
  unfold Func.terminator at h
  split at h
  · next hreturns => rw [hreturns, List.length_singleton]
  · cases h
  · cases h

namespace ShapeInference

variable {registry : Registry} {dialect : String} {terminator : OpId} {f g : Func} {e : Error}
  {op : Operation} {rule : ShapeRule}

/-! ## The operation at fault -/

theorem subject?_blame {c : Context} (hr : rule.Accountable) (h : rule c = .error e) :
    (blame c.op e).subject? = some c.op.describe := by
  unfold blame
  split
  · next hkind => exact hr c e h hkind
  · rfl

/-- A step that fails names its operation, whether the rule fails or answers with a wrong number of
components. -/
theorem subject?_of_inferOp (hr : rule.Accountable) (hresults : ∀ v ∈ op.results, v < f.values.size)
    (h : inferOp f op rule = .error e) : e.subject? = some op.describe := by
  obtain ⟨-, hrefused⟩ := inferOp_eq_error hresults h
  unfold inferOp components at h
  cases hrule : rule ⟨op, f⟩ with
  | error e' =>
    simp only [hrule, Except.error.injEq] at h
    subst h
    exact subject?_blame hr hrule
  | ok cs =>
    simp only [hrule, if_neg (hrefused cs hrule), Except.error.injEq] at h
    subst h
    rfl

/-- The rule of an operation, if it has one, infers a component for each result from the types in
`g`. -/
def Answered (registry : Registry) (g : Func) (op : Operation) : Prop :=
  ∀ rule, registry.rule? op.name.text = some rule →
    ∃ cs, rule ⟨op, g⟩ = .ok cs ∧ cs.length = op.results.length

/-- A walk that fails has left the types from which all visited operations in front of some
operation can be answered, but not this one, and names it. -/
theorem walk_blames (hp : registry.Pure) (hr : registry.Accountable) (hf : f.Invariant)
    (h : walk registry dialect terminator f.body.nodes f = ⟨g, .error e⟩) :
    ∃ pre node post, f.body.nodes = pre ++ node :: post ∧
      (∀ earlier ∈ pre, ¬Skipped registry dialect terminator earlier →
        Answered registry g earlier.op) ∧
      ¬Answered registry g node.op ∧ e.subject? = some node.op.describe := by
  obtain ⟨pre, node, post, now, rule, hnodes, hpre, hrule, hfail⟩ := walk_eq_error h
  have hforward := forward_of_invariant hf
  rw [hnodes] at hforward
  obtain ⟨hre, -, hsol⟩ := walk_solves hp hforward.left hpre
  obtain ⟨-, hrule'⟩ := ruleFor?_eq_some_iff.1 hrule
  have hresults : ∀ v ∈ node.op.results, v < g.values.size := by
    intro v hv
    rw [hre.size_eq]
    exact hf.result_lt (by simp [hnodes]) hv
  refine ⟨pre, node, post, hnodes, fun earlier hearlier hlive rule' hrule'' => ?_, fun hall => ?_,
    subject?_of_inferOp (hr _ _ hrule') hresults hfail⟩
  · obtain ⟨cs, hcs, hlen, -⟩ :=
      hsol.inferred earlier hearlier rule' (ruleFor?_eq_some_iff.2 ⟨hlive, hrule''⟩)
    exact ⟨cs, hcs, hlen⟩
  · obtain ⟨cs, hcs, hlen⟩ := hall rule hrule'
    exact (inferOp_eq_error hresults hfail).2 cs hcs hlen

/-! ## The dialect -/

/-- **Every failure of inference names its operation.** If inference fails on a built function, then
either there is not exactly one return and the error says that the body is malformed; or there is
one, and the error is about shapes and describes the first operation that cannot be answered from
the types inferred so far: by its name, and by its location if it has one. -/
theorem failure_named (hf : f.Built)
    (h : (run Relay.dialectName Relay.registry f).result = .error e) :
    let g := (run Relay.dialectName Relay.registry f).state
    f.returns.length ≠ 1 ∧ e.kind = .malformed ∨
      f.returns.length = 1 ∧ e.kind = .shapeInference ∧
        ∃ pre node post, f.body.nodes = pre ++ node :: post ∧
          (∀ earlier ∈ pre, Answered Relay.registry g earlier.op) ∧
          ¬Answered Relay.registry g node.op ∧ e.Mentions node.op.describe ∧
          e.Mentions node.op.name.text ∧ ∀ loc, node.op.loc = some loc → e.Mentions loc := by
  rcases hrun : run Relay.dialectName Relay.registry f with ⟨g, result⟩
  rw [hrun] at h
  cases h
  rcases run_eq_error Relay.registry_pure hf.invariant hrun with ⟨hterm, -⟩ | ⟨t, hterm, hwalk⟩
  · exact .inl (Func.terminator_eq_error hterm)
  · obtain ⟨pre, node, post, hnodes, hpre, hnode, hsubject⟩ :=
      walk_blames Relay.registry_pure Relay.registry_accountable hf.invariant hwalk
    have hmentions := Error.mentions_of_subject? hsubject
    refine .inr ⟨Func.length_returns_of_terminator hterm, Error.kind_of_subject? hsubject, pre,
      node, post, hnodes, fun earlier hearlier => ?_, hnode, hmentions,
      node.op.name_within_describe.trans hmentions, fun loc hloc =>
        (Operation.loc_within_describe hloc).trans hmentions⟩
    intro rule hrule
    have hvisited := ruleFor?_of_rule? hterm (by simp [hnodes, hearlier]) hrule
    exact hpre earlier hearlier (ruleFor?_eq_some_iff.1 hvisited).1 rule hrule

/-- An attribute is missing: the rule says so in an error about attributes, and the walk puts it
down to the operation. The operation in front is answered, and the one behind, which cannot be
either, is not named. -/
theorem failure_named_cast :
    let ty : Ty := .tensor ⟨.f32, [.known 2]⟩
    let f := (Func.empty "main").after
      [.addArgument ty,
        .pushOp { name := ⟨"relay.exp"⟩, operands := [0], loc := some "model.py:11" }
          [.scalar .f32],
        .pushOp { name := ⟨"relay.cast"⟩, operands := [1], loc := some "model.py:12" } [ty],
        .pushOp { name := ⟨"relay.add"⟩, operands := [2], loc := some "model.py:13" } [ty],
        .pushOp { name := .terminator, operands := [3] } []]
    let e : Error := .ruleRaised "relay.cast at model.py:12"
      (.missingAttribute "relay.cast at model.py:12" "dtype")
    let g := (run Relay.dialectName Relay.registry f).state
    f.Built ∧ (run Relay.dialectName Relay.registry f).result = .error e ∧
      e.message = "Shape inference error: relay.cast at model.py:12: Attribute error: " ++
        "relay.cast at model.py:12: missing attribute 'dtype'" ∧
      ∃ pre node post, f.body.nodes = pre ++ node :: post ∧
        (∀ earlier ∈ pre, Answered Relay.registry g earlier.op) ∧
        ¬Answered Relay.registry g node.op ∧ e.Mentions node.op.describe := by
  intro ty f e g
  have hf : f.Built := ⟨_, _, rfl⟩
  have hrun : (run Relay.dialectName Relay.registry f).result = .error e := by decide +kernel
  rcases failure_named hf hrun with ⟨-, hkind⟩ | ⟨-, -, pre, node, post, hnodes, hpre, hnode, hm, -⟩
  · cases hkind
  · exact ⟨hf, hrun, by decide +kernel, pre, node, post, hnodes, hpre, hnode, hm⟩

end ShapeInference

end TensorIR
