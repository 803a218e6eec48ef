import TensorIR.Pass.ShapeInference
import TensorIR.Proofs.Func.WellFormed

/-!
# One step of shape inference

What inferring the result types of one operation does to a function. `inferOp_eq_ok_iff` says when a
step succeeds, and `inferOp_spec` gives every type after it. All else stays as it is
(`Retyped`).
-/

namespace TensorIR

namespace Func

/-- The same function up to types and the signature. -/
structure Retyped (f g : Func) : Prop where
  name : g.name = f.name
  arguments : g.arguments = f.arguments
  body : g.body = f.body
  uses : g.uses = f.uses
  origin? : ∀ v, g.origin? v = f.origin? v

namespace Retyped

variable {f g h : Func}

theorem refl (f : Func) : Retyped f f := ⟨rfl, rfl, rfl, rfl, fun _ => rfl⟩

theorem trans (hg : Retyped f g) (hh : Retyped g h) : Retyped f h where
  name := hh.name.trans hg.name
  arguments := hh.arguments.trans hg.arguments
  body := hh.body.trans hg.body
  uses := hh.uses.trans hg.uses
  origin? v := (hh.origin? v).trans (hg.origin? v)

theorem symm (hg : Retyped f g) : Retyped g f where
  name := hg.name.symm
  arguments := hg.arguments.symm
  body := hg.body.symm
  uses := hg.uses.symm
  origin? v := (hg.origin? v).symm

theorem setSignature (hg : Retyped f g) (signature : Signature) :
    Retyped f (g.setSignature signature) :=
  ⟨hg.name, hg.arguments, hg.body, hg.uses, hg.origin?⟩

theorem invariant (hg : Retyped f g) (hf : f.Invariant) : g.Invariant :=
  hf.of_wiring hg.arguments hg.origin? (by rw [wirings, wirings, hg.body]) hg.uses

/-- The same values are there. -/
theorem size_eq (hg : Retyped f g) : g.values.size = f.values.size := by
  apply Nat.le_antisymm
  · exact origin?_eq_none_iff.1 ((hg.origin? _).trans (origin?_eq_none_iff.2 (Nat.le_refl _)))
  · exact origin?_eq_none_iff.1 ((hg.origin? _).symm.trans (origin?_eq_none_iff.2 (Nat.le_refl _)))

end Retyped

variable {f : Func} {v : ValueId}

theorem valueTy?_eq_none_iff : f.valueTy? v = none ↔ f.values.size ≤ v := by
  simp [valueTy?, value?]

theorem exists_valueTy?_iff : (∃ ty, f.valueTy? v = some ty) ↔ v < f.values.size := by
  rw [← Option.isSome_iff_exists, ← Option.ne_none_iff_isSome, Ne, valueTy?_eq_none_iff]
  exact Nat.not_le

theorem valueTy_eq_ok_iff {ty : Ty} : f.valueTy v = .ok ty ↔ f.valueTy? v = some ty := by
  unfold valueTy Func.value valueTy?
  cases f.value? v with
  | none => simp [Except.map]
  | some value => simp [Except.map]

end Func

namespace ShapeInference

open Func (Retyped)

variable {f g : Func} {op : Operation} {rule : ShapeRule} {v : ValueId}

/-! ## Writing types -/

theorem retyped_modify (f : Func) (v : ValueId) (ty : Ty) :
    Retyped f { f with values := f.values.modify v fun value => { value with ty } } :=
  ⟨rfl, rfl, rfl, rfl, fun v' => f.origin?_modify_ty v v' ty⟩

theorem retyped_write (f : Func) (us : List (ValueId × Ty)) : Retyped f (write f us) := by
  induction us generalizing f with
  | nil => exact .refl f
  | cons u us ih => exact (retyped_modify f u.1 u.2).trans (ih _)

theorem signature_write (f : Func) (us : List (ValueId × Ty)) :
    (write f us).signature = f.signature := by
  induction us generalizing f with
  | nil => rfl
  | cons u us ih => exact ih _

theorem valueTy?_modify (f : Func) (v v' : ValueId) (ty : Ty) :
    ({ f with values := f.values.modify v fun value => { value with ty } } : Func).valueTy? v' =
      if v = v' then (f.valueTy? v').map fun _ => ty else f.valueTy? v' := by
  unfold Func.valueTy? Func.value?
  rw [Array.getElem?_modify]
  split
  · simp only [Option.map_map, Function.comp_def]
  · rfl

theorem valueTy?_write_of_notMem {us : List (ValueId × Ty)} (hv : v ∉ us.map Prod.fst) :
    (write f us).valueTy? v = f.valueTy? v := by
  induction us generalizing f with
  | nil => rfl
  | cons u us ih =>
    rw [List.map_cons, List.mem_cons, not_or] at hv
    refine (ih hv.2).trans ?_
    rw [valueTy?_modify, if_neg (Ne.symm hv.1)]

theorem valueTy?_write_of_mem {us : List (ValueId × Ty)} {ty : Ty}
    (hnodup : (us.map Prod.fst).Nodup) (hmem : (v, ty) ∈ us) :
    (write f us).valueTy? v = (f.valueTy? v).map fun _ => ty := by
  induction us generalizing f with
  | nil => cases hmem
  | cons u us ih =>
    rw [List.map_cons, List.nodup_cons] at hnodup
    rcases List.mem_cons.1 hmem with rfl | hmem
    · refine (valueTy?_write_of_notMem hnodup.1).trans ?_
      rw [valueTy?_modify, if_pos rfl]
    · have hne : u.1 ≠ v := fun h => hnodup.1 (h ▸ List.mem_map_of_mem hmem)
      refine (ih hnodup.2 hmem).trans ?_
      rw [valueTy?_modify, if_neg hne]

/-- A value keeps its type, or has one that was written to it. -/
theorem valueTy?_write_cases (f : Func) (us : List (ValueId × Ty)) (v : ValueId) :
    (write f us).valueTy? v = f.valueTy? v ∨
      ∃ ty, (v, ty) ∈ us ∧ (write f us).valueTy? v = (f.valueTy? v).map fun _ => ty := by
  induction us generalizing f with
  | nil => exact .inl rfl
  | cons u us ih =>
    obtain ⟨w, new⟩ := u
    have hfirst := valueTy?_modify f w v new
    rcases ih { f with values := f.values.modify w fun value => { value with ty := new } } with
      hrest | ⟨ty, hmem, hrest⟩
    · by_cases hw : w = v
      · subst hw
        rw [if_pos rfl] at hfirst
        exact .inr ⟨new, List.mem_cons_self, hrest.trans hfirst⟩
      · rw [if_neg hw] at hfirst
        exact .inl (hrest.trans hfirst)
    · refine .inr ⟨ty, List.mem_cons_of_mem _ hmem, hrest.trans ?_⟩
      rw [hfirst]
      split
      · exact Option.map_map ..
      · rfl

/-! ## Which types change -/

/-- The results whose types change, with their new types. -/
def changes (f : Func) (pairs : List (ValueId × Component)) : List (ValueId × Ty) :=
  pairs.filterMap fun p => (f.valueTy? p.1).bind fun old =>
    if p.2.resolve old = old then none else some (p.1, p.2.resolve old)

theorem updates_eq_ok_iff {pairs : List (ValueId × Component)} {us : List (ValueId × Ty)} :
    updates f pairs = .ok us ↔
      (∀ p ∈ pairs, ∃ old, f.valueTy? p.1 = some old) ∧ us = changes f pairs := by
  induction pairs generalizing us with
  | nil => simp [updates, changes, eq_comm]
  | cons p pairs ih =>
    obtain ⟨v, c⟩ := p
    rw [updates, List.forall_mem_cons]
    cases hold : f.valueTy v with
    | error e =>
      have hnone : ¬∃ old, f.valueTy? v = some old := by
        intro hx
        obtain ⟨old, h⟩ := hx
        rw [Func.valueTy_eq_ok_iff.2 h] at hold
        cases hold
      simp [hnone]
    | ok old =>
      have hv : f.valueTy? v = some old := Func.valueTy_eq_ok_iff.1 hold
      have hcons : changes f ((v, c) :: pairs) =
          if c.resolve old = old then changes f pairs
          else (v, c.resolve old) :: changes f pairs := by
        unfold changes
        rw [List.filterMap_cons]
        by_cases hr : c.resolve old = old <;> simp [hv, hr]
      cases hrest : updates f pairs with
      | error e =>
        have hno : ¬∀ p ∈ pairs, ∃ old, f.valueTy? p.1 = some old := by
          intro h
          rw [ih.2 ⟨h, rfl⟩] at hrest
          cases hrest
        simp only [reduceCtorEq, hno, and_false, false_and]
      | ok us' =>
        obtain ⟨hall, rfl⟩ := ih.1 hrest
        rw [hcons]
        simp only [Except.ok.injEq]
        constructor
        · rintro rfl
          exact ⟨⟨⟨old, hv⟩, hall⟩, rfl⟩
        · intro hx
          obtain ⟨-, rfl⟩ := hx
          rfl

theorem map_fst_changes_sublist (f : Func) (pairs : List (ValueId × Component)) :
    ((changes f pairs).map Prod.fst).Sublist (pairs.map Prod.fst) := by
  induction pairs with
  | nil => exact .slnil
  | cons p pairs ih =>
    unfold changes at ih ⊢
    rw [List.filterMap_cons]
    split
    · exact ih.cons _
    · next u hu =>
      obtain ⟨old, -, h⟩ := Option.bind_eq_some_iff.1 hu
      split at h
      · cases h
      · cases h
        exact ih.cons_cons _

theorem mem_changes_iff {pairs : List (ValueId × Component)} {ty : Ty} :
    (v, ty) ∈ changes f pairs ↔
      ∃ c old, (v, c) ∈ pairs ∧ f.valueTy? v = some old ∧ c.resolve old ≠ old ∧
        ty = c.resolve old := by
  unfold changes
  simp only [List.mem_filterMap, Option.bind_eq_some_iff, Option.ite_none_left_eq_some,
    Option.some.injEq, Prod.mk.injEq]
  constructor
  · intro h
    obtain ⟨⟨v', c⟩, hmem, old, hold, hne, rfl, rfl⟩ := h
    exact ⟨c, old, hmem, hold, hne, rfl⟩
  · intro h
    obtain ⟨c, old, hmem, hold, hne, rfl⟩ := h
    exact ⟨(v, c), hmem, old, hold, hne, rfl, rfl⟩

theorem lookup_eq_some_iff_mem {pairs : List (ValueId × Component)} {c : Component}
    (hnodup : (pairs.map Prod.fst).Nodup) : pairs.lookup v = some c ↔ (v, c) ∈ pairs := by
  induction pairs with
  | nil => simp
  | cons p pairs ih =>
    obtain ⟨v', c'⟩ := p
    rw [List.map_cons, List.nodup_cons] at hnodup
    rw [List.lookup_cons, List.mem_cons, Prod.mk.injEq]
    cases hv : v == v' with
    | true =>
      obtain rfl : v = v' := eq_of_beq hv
      have hno : (v, c) ∉ pairs := fun h => hnodup.1 (List.mem_map.2 ⟨_, h, rfl⟩)
      simp [hno, eq_comm]
    | false => simp [beq_eq_false_iff_ne.1 hv, ih hnodup.2]

/-- After the writes, a value of the list has the type that its component gives it, and any other
value the type it had. -/
theorem valueTy?_write_changes {pairs : List (ValueId × Component)}
    (hnodup : (pairs.map Prod.fst).Nodup) (v : ValueId) :
    (write f (changes f pairs)).valueTy? v =
      match pairs.lookup v with
      | some c => (f.valueTy? v).map c.resolve
      | none => f.valueTy? v := by
  have hnodup' := (map_fst_changes_sublist f pairs).nodup hnodup
  -- a value that is written has a component, and its type exists and changes
  have hwritten : v ∈ (changes f pairs).map Prod.fst →
      ∃ c old, pairs.lookup v = some c ∧ f.valueTy? v = some old ∧ c.resolve old ≠ old := by
    intro hv
    obtain ⟨⟨v', ty⟩, hmem, rfl⟩ := List.mem_map.1 hv
    obtain ⟨c, old, hc, hold, hne, -⟩ := mem_changes_iff.1 hmem
    exact ⟨c, old, (lookup_eq_some_iff_mem hnodup).2 hc, hold, hne⟩
  by_cases hv : v ∈ (changes f pairs).map Prod.fst
  · obtain ⟨c, old, hlook, hold, hne⟩ := hwritten hv
    have hmem : (v, c.resolve old) ∈ changes f pairs :=
      mem_changes_iff.2 ⟨c, old, (lookup_eq_some_iff_mem hnodup).1 hlook, hold, hne, rfl⟩
    rw [valueTy?_write_of_mem hnodup' hmem, hlook, hold]
    rfl
  · rw [valueTy?_write_of_notMem hv]
    cases hlook : pairs.lookup v with
    | none => rfl
    | some c =>
      cases hold : f.valueTy? v with
      | none => rfl
      | some old =>
        by_cases hr : c.resolve old = old
        · simp [hr]
        · have hmem : (v, c.resolve old) ∈ changes f pairs :=
            mem_changes_iff.2 ⟨c, old, (lookup_eq_some_iff_mem hnodup).1 hlook, hold, hr, rfl⟩
          exact absurd (List.mem_map.2 ⟨_, hmem, rfl⟩) hv

/-! ## The step -/

theorem components_eq_ok_iff {cs : List Component} :
    components f op rule = .ok cs ↔ rule ⟨op, f⟩ = .ok cs ∧ cs.length = op.results.length := by
  unfold components
  cases rule ⟨op, f⟩ with
  | error e => simp
  | ok cs' =>
    simp only [Except.ok.injEq]
    split
    · next hlen =>
      constructor
      · intro h
        cases h
        exact ⟨rfl, hlen⟩
      · intro hx
        obtain ⟨rfl, -⟩ := hx
        rfl
    · next hlen =>
      constructor
      · intro h
        cases h
      · intro hx
        obtain ⟨rfl, h⟩ := hx
        exact absurd h hlen

/-- A step succeeds exactly if the rule does, with a component for each result, and the results are
there. -/
theorem inferOp_eq_ok_iff {changed : Bool} :
    inferOp f op rule = .ok (g, changed) ↔
      ∃ cs, rule ⟨op, f⟩ = .ok cs ∧ cs.length = op.results.length ∧
        (∀ v ∈ op.results, v < f.values.size) ∧
        g = write f (changes f (op.results.zip cs)) ∧
        changed = !(changes f (op.results.zip cs)).isEmpty := by
  have hexists : ∀ {cs : List Component}, cs.length = op.results.length →
      ((∀ p ∈ op.results.zip cs, ∃ old, f.valueTy? p.1 = some old) ↔
        ∀ v ∈ op.results, v < f.values.size) := by
    intro cs hlen
    have hfst : (op.results.zip cs).map Prod.fst = op.results :=
      List.map_fst_zip (by omega)
    simp only [Func.exists_valueTy?_iff]
    conv_rhs => rw [← hfst]
    rw [List.forall_mem_map]
  unfold inferOp
  cases hcs : components f op rule with
  | error e =>
    simp only [reduceCtorEq, false_iff, not_exists]
    rintro cs ⟨hrule, hlen, -⟩
    rw [components_eq_ok_iff.2 ⟨hrule, hlen⟩] at hcs
    cases hcs
  | ok cs =>
    obtain ⟨hrule, hlen⟩ := components_eq_ok_iff.1 hcs
    cases hus : updates f (op.results.zip cs) with
    | error e =>
      simp only [hus, reduceCtorEq, false_iff, not_exists]
      rintro cs' ⟨hrule', -, hsome, -⟩
      rw [hrule] at hrule'
      cases hrule'
      rw [updates_eq_ok_iff.2 ⟨(hexists hlen).2 hsome, rfl⟩] at hus
      cases hus
    | ok us =>
      obtain ⟨hsome, rfl⟩ := updates_eq_ok_iff.1 hus
      simp only [hus, Except.ok.injEq, Prod.mk.injEq]
      constructor
      · intro h
        obtain ⟨rfl, rfl⟩ := h
        exact ⟨cs, hrule, hlen, (hexists hlen).1 hsome, rfl, rfl⟩
      · intro h
        obtain ⟨cs', hrule', -, -, rfl, rfl⟩ := h
        rw [hrule] at hrule'
        cases hrule'
        exact ⟨rfl, rfl⟩

/-- What a step does: it asks the rule on the function as it stands, gives each result the type that
its component says, and leaves everything else alone. -/
theorem inferOp_spec {changed : Bool} (hnodup : op.results.Nodup)
    (h : inferOp f op rule = .ok (g, changed)) :
    ∃ cs, rule ⟨op, f⟩ = .ok cs ∧ cs.length = op.results.length ∧
      Retyped f g ∧ g.signature = f.signature ∧
      (∀ v ∉ op.results, g.valueTy? v = f.valueTy? v) ∧
      ∀ p ∈ op.results.zip cs, g.valueTy? p.1 = (f.valueTy? p.1).map p.2.resolve := by
  obtain ⟨cs, hrule, hlen, -, rfl, -⟩ := inferOp_eq_ok_iff.1 h
  have hfst : (op.results.zip cs).map Prod.fst = op.results := List.map_fst_zip (by omega)
  have hkeys : ((op.results.zip cs).map Prod.fst).Nodup := by rw [hfst]; exact hnodup
  refine ⟨cs, hrule, hlen, retyped_write .., signature_write .., ?_, ?_⟩
  · intro v hv
    refine valueTy?_write_of_notMem fun hin => hv ?_
    rw [← hfst]
    exact (map_fst_changes_sublist f _).subset hin
  · rintro ⟨v, c⟩ hmem
    rw [valueTy?_write_changes hkeys, (lookup_eq_some_iff_mem hkeys).2 hmem]

/-- A step leaves the type of a value, or the value is a result of the operation and gets the type
of one of the components that the rule infers. -/
theorem inferOp_valueTy?_cases {changed : Bool} (h : inferOp f op rule = .ok (g, changed))
    (v : ValueId) :
    g.valueTy? v = f.valueTy? v ∨
      v ∈ op.results ∧ ∃ cs, rule ⟨op, f⟩ = .ok cs ∧
        ∃ c ∈ cs, g.valueTy? v = (f.valueTy? v).map c.resolve := by
  obtain ⟨cs, hrule, -, -, rfl, -⟩ := inferOp_eq_ok_iff.1 h
  rcases valueTy?_write_cases f (changes f (op.results.zip cs)) v with hkept | ⟨ty, hmem, hnew⟩
  · exact .inl hkept
  · obtain ⟨c, old, hzip, hold, -, rfl⟩ := mem_changes_iff.1 hmem
    obtain ⟨hv, hc⟩ := List.of_mem_zip hzip
    refine .inr ⟨hv, cs, hrule, c, hc, hnew.trans ?_⟩
    rw [hold]
    rfl

theorem inferOp_unchanged (h : inferOp f op rule = .ok (g, false)) : g = f := by
  obtain ⟨cs, -, -, -, rfl, hchanged⟩ := inferOp_eq_ok_iff.1 h
  have hnone : changes f (op.results.zip cs) = [] := by simpa using hchanged
  rw [hnone]
  rfl

theorem inferOp_changed (hnodup : op.results.Nodup) (h : inferOp f op rule = .ok (g, true)) :
    ∃ v ∈ op.results, g.valueTy? v ≠ f.valueTy? v := by
  obtain ⟨cs, hrule, -, -, -, hchanged⟩ := inferOp_eq_ok_iff.1 h
  obtain ⟨cs', hrule', -, -, -, -, hnew⟩ := inferOp_spec hnodup h
  obtain rfl : cs = cs' := by simpa [hrule] using hrule'
  have hsome : changes f (op.results.zip cs) ≠ [] := by simpa using hchanged
  obtain ⟨⟨v, ty⟩, hmem⟩ := List.exists_mem_of_ne_nil _ hsome
  obtain ⟨c, old, hzip, hold, hne, -⟩ := mem_changes_iff.1 hmem
  refine ⟨v, (List.of_mem_zip hzip).1, ?_⟩
  rw [hnew (v, c) hzip, hold, Option.map_some, Ne, Option.some.injEq]
  exact hne

end ShapeInference

end TensorIR
