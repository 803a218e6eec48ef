import Mathlib.Data.Set.Finite.Basic
import Mathlib.Order.WellFounded
import TensorIR.Func.Verify
import TensorIR.Proofs.Func.WellFormed

/-!
# Peeling finds the cycles

`Func.hasCycle` peels off operations until nothing changes any more. It answers whether recorded
uses run in a circle among the operations of the body (`hasCycle_iff`), for every function, built or
not: an operation on a circle is always fed by another one on it and is never peeled off, and among
operations that all feed on each other there is a circle, as there are finitely many.
-/

namespace TensorIR.Func

variable {f : Func} {uses : List Use} {ids : List OpId} {id : OpId}

/-- A use leads from one operation of the list to another. -/
def Leads (uses : List Use) (ids : List OpId) (producer consumer : OpId) : Prop :=
  producer ∈ ids ∧ consumer ∈ ids ∧ ∃ v, ⟨producer, consumer, v⟩ ∈ uses

theorem mem_peel_iff :
    id ∈ peel uses ids ↔ id ∈ ids ∧ ∃ producer ∈ ids, ∃ v, ⟨producer, id, v⟩ ∈ uses := by
  simp only [peel, List.mem_filter, List.any_eq_true, Bool.and_eq_true, beq_iff_eq,
    List.contains_iff_mem]
  refine and_congr_right fun _ => ?_
  constructor
  · rintro ⟨use, huse, rfl, hproducer⟩
    exact ⟨use.producer, hproducer, use.value, huse⟩
  · rintro ⟨producer, hproducer, v, huse⟩
    exact ⟨_, huse, rfl, hproducer⟩

/-! ## Rounds -/

theorem length_peel_lt (h : peel uses ids ≠ ids) : (peel uses ids).length < ids.length := by
  have hsublist : (peel uses ids).Sublist ids := List.filter_sublist
  exact Nat.lt_of_le_of_ne hsublist.length_le fun heq => h (hsublist.eq_of_length heq)

/-- After any number of rounds, either nothing is left to peel off or every round has peeled off
something. -/
theorem peel_repeat (uses : List Use) (ids : List OpId) (n : Nat) :
    peel uses (Nat.repeat (peel uses) n ids) = Nat.repeat (peel uses) n ids ∨
      (Nat.repeat (peel uses) n ids).length + n ≤ ids.length := by
  induction n with
  | zero => exact .inr (Nat.le_refl _)
  | succ n ih =>
    change peel uses (peel uses (Nat.repeat (peel uses) n ids)) =
      peel uses (Nat.repeat (peel uses) n ids) ∨
        (peel uses (Nat.repeat (peel uses) n ids)).length + (n + 1) ≤ ids.length
    by_cases hstable : peel uses (Nat.repeat (peel uses) n ids) = Nat.repeat (peel uses) n ids
    · exact .inl (congrArg (peel uses) hstable)
    · have hlt := length_peel_lt hstable
      have hle := ih.resolve_left hstable
      exact .inr (by omega)

/-- As many rounds as there are operations are enough. -/
theorem peel_unpeelable (uses : List Use) (ids : List OpId) :
    peel uses (unpeelable uses ids) = unpeelable uses ids := by
  rcases peel_repeat uses ids ids.length with hstable | hle
  · exact hstable
  · have hnil : unpeelable uses ids = [] := List.length_eq_zero_iff.1 (by unfold unpeelable; omega)
    rw [hnil]
    rfl

theorem unpeelable_sublist (uses : List Use) (ids : List OpId) :
    (unpeelable uses ids).Sublist ids := by
  have hrounds : ∀ n, (Nat.repeat (peel uses) n ids).Sublist ids := by
    intro n
    induction n with
    | zero => exact .refl _
    | succ n ih => exact List.filter_sublist.trans ih
  exact hrounds ids.length

/-! ## Circles -/

/-- An operation on a circle is fed by another one on it. -/
theorem exists_leads_of_cycle (h : Relation.TransGen (Leads uses ids) id id) :
    ∃ producer, Leads uses ids producer id ∧
      Relation.TransGen (Leads uses ids) producer producer := by
  obtain ⟨producer, hpath, hleads⟩ := Relation.TransGen.tail'_iff.1 h
  exact ⟨producer, hleads, Relation.TransGen.head' hleads hpath⟩

/-- What lies on a circle is not peeled off. -/
theorem mem_unpeelable_of_cycle (h : Relation.TransGen (Leads uses ids) id id) :
    id ∈ unpeelable uses ids := by
  have hrounds : ∀ n id, Relation.TransGen (Leads uses ids) id id →
      id ∈ Nat.repeat (peel uses) n ids := by
    intro n
    induction n with
    | zero =>
      intro id h
      obtain ⟨producer, hleads, -⟩ := exists_leads_of_cycle h
      exact hleads.2.1
    | succ n ih =>
      intro id h
      obtain ⟨producer, ⟨-, -, hfeeds⟩, hproducer⟩ := exists_leads_of_cycle h
      exact mem_peel_iff.2 ⟨ih id h, producer, ih producer hproducer, hfeeds⟩
  exact hrounds ids.length id h

/-- Without circles there is a first operation among those that are left, and it is peeled off. -/
theorem unpeelable_eq_nil (h : ∀ id, ¬Relation.TransGen (Leads uses ids) id id) :
    unpeelable uses ids = [] := by
  let behind (a b : {id // id ∈ ids}) : Prop := Relation.TransGen (Leads uses ids) a b
  have : Finite {id // id ∈ ids} := ids.finite_toSet.to_subtype
  have : IsTrans _ behind := ⟨fun _ _ _ => Relation.TransGen.trans⟩
  have : Std.Irrefl behind := ⟨fun a => h a⟩
  have hwf : WellFounded behind := Finite.wellFounded_of_trans_of_irrefl behind
  by_contra hne
  obtain ⟨first, hfirst⟩ := List.exists_mem_of_ne_nil _ hne
  have hsub := (unpeelable_sublist uses ids).subset
  obtain ⟨a, ha, hmin⟩ := hwf.has_min {a | a.1 ∈ unpeelable uses ids} ⟨⟨first, hsub hfirst⟩, hfirst⟩
  have hpeeled : a.1 ∈ peel uses (unpeelable uses ids) := (peel_unpeelable uses ids).symm ▸ ha
  obtain ⟨-, producer, hproducer, hfeeds⟩ := mem_peel_iff.1 hpeeled
  exact hmin ⟨producer, hsub hproducer⟩ hproducer (.single ⟨hsub hproducer, a.2, hfeeds⟩)

/-- **Peeling decides** whether uses run in a circle among the operations of the body. -/
theorem hasCycle_iff :
    f.hasCycle = true ↔ ∃ id, Relation.TransGen (Leads f.uses f.opIds) id id := by
  rw [hasCycle, Bool.not_eq_true', List.isEmpty_eq_false_iff]
  constructor
  · intro hne
    by_contra hnone
    exact hne (unpeelable_eq_nil (not_exists.1 hnone))
  · rintro ⟨id, hcycle⟩
    exact List.ne_nil_of_mem (mem_unpeelable_of_cycle hcycle)

/-- Uses of a function that satisfies the invariant lead forward only. -/
theorem Invariant.hasCycle_eq_false (hf : f.Invariant) : f.hasCycle = false := by
  rw [Bool.eq_false_iff, Ne, hasCycle_iff]
  rintro ⟨id, hcycle⟩
  exact hf.acyclic id (Relation.TransGen.mono (p := f.Feeds) (fun _ _ h => h.2.2) id id hcycle)

end TensorIR.Func
