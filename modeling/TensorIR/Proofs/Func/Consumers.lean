import Mathlib.Data.List.Destutter
import Mathlib.Data.List.Sort
import TensorIR.Proofs.Func.Checking

/-!
# Consumers

The consumers of a value can be found in two ways: by following the recorded uses that leave its
producer, or by scanning the operand lists. Uses are met in no particular order and once for every
occurrence of the value, so what they lead to is sorted by place, and of equal neighbours one is
kept (`inProgramOrder`). In a built function this comes to the same as the scan, whatever the order
of the uses (`consumers_exact`): an operation is met if it takes the value, and different operations
have different places.
-/

namespace TensorIR.Func

variable {f : Func} {v : ValueId} {id : OpId}

/-! ## Sorting without repetitions -/

section

variable {α : Type} [DecidableEq α] {l l' : List α} {a : α}

/-- To keep one of equal neighbours loses no member. -/
theorem mem_destutter_ne_iff : a ∈ l.destutter (· ≠ ·) ↔ a ∈ l := by
  have hcons : ∀ (b : α) (l : List α), a ∈ l.destutter' (· ≠ ·) b ↔ a ∈ b :: l := by
    intro b l
    induction l generalizing b with
    | nil => simp
    | cons c l ih =>
      by_cases hbc : b = c
      · subst hbc
        rw [List.destutter'_cons_neg _ (not_not.2 rfl), ih]
        simp
      · rw [List.destutter'_cons_pos _ hbc, List.mem_cons, ih, ← List.mem_cons]
  cases l with
  | nil => simp
  | cons b l => exact hcons b l

/-- Members with different places come in the order of these, once each, when they are sorted and
one of equal neighbours is kept. -/
theorem destutter_mergeSort_eq {place : α → Nat} (hl : l.Pairwise fun a b => place a < place b)
    (hmem : ∀ a, a ∈ l' ↔ a ∈ l) :
    (l'.mergeSort fun a b => decide (place a ≤ place b)).destutter (· ≠ ·) = l := by
  let sorted := l'.mergeSort fun a b => decide (place a ≤ place b)
  have hsorted : (sorted.destutter (· ≠ ·)).Pairwise fun a b => place a ≤ place b := by
    have hpairwise : sorted.Pairwise fun a b => decide (place a ≤ place b) = true :=
      List.pairwise_mergeSort (by simpa using fun _ _ _ => Nat.le_trans)
        (by simpa using fun _ _ => Nat.le_total _ _) l'
    simp only [decide_eq_true_eq] at hpairwise
    exact hpairwise.sublist (List.destutter_sublist _ _)
  have hkept : ∀ a, a ∈ sorted.destutter (· ≠ ·) ↔ a ∈ l := by
    intro a
    rw [mem_destutter_ne_iff, List.mem_mergeSort, hmem]
  have hplaces : (l.map place).Nodup := by
    rw [List.Nodup, List.pairwise_map]
    exact hl.imp Nat.ne_of_lt
  -- neighbours are different and sorted, so their places increase, and all places do
  have hchain : (sorted.destutter (· ≠ ·)).IsChain fun a b => place a < place b := by
    rw [List.isChain_iff_forall_rel_of_append_cons_cons]
    intro a b pre post hs
    have hne : a ≠ b := List.isChain_iff_forall_rel_of_append_cons_cons.1
      (List.isChain_destutter (· ≠ ·) sorted) hs
    have hle : place a ≤ place b := by
      rw [hs, List.pairwise_append] at hsorted
      exact (List.pairwise_cons.1 hsorted.2.1).1 b List.mem_cons_self
    refine Nat.lt_of_le_of_ne hle fun heq => hne ?_
    refine List.inj_on_of_nodup_map hplaces ((hkept a).1 ?_) ((hkept b).1 ?_) heq <;> simp [hs]
  have : Trans (fun a b => place a < place b) (fun a b => place a < place b)
      fun a b => place a < place b := ⟨Nat.lt_trans⟩
  have : Std.Antisymm fun a b => place a < place b := ⟨fun _ _ h h' => absurd h (Nat.lt_asymm h')⟩
  have : Std.Irrefl fun a b => place a < place b := ⟨fun _ => Nat.lt_irrefl _⟩
  exact hchain.pairwise.eq_of_mem_iff hl hkept

end

/-! ## Two ways to find consumers -/

/-- The operations that take a value, in program order, as their operand lists say. -/
def takers (f : Func) (v : ValueId) : List OpId :=
  (f.body.nodes.filter fun node => node.op.operands.contains v).map Node.id

/-- Where the uses of a value lead that leave its producer, use by use. -/
def followed (uses : List Use) (producer : OpId) (v : ValueId) : List OpId :=
  (uses.filter fun use => use.producer == producer && use.value == v).map Use.consumer

/-- The place of an operation; one that is not there comes behind all others. -/
def place (f : Func) (id : OpId) : Nat :=
  (f.body.position? id).getD (UInt64.size - 1)

/-- Operations sorted by place, with one of equal neighbours kept. -/
def inProgramOrder (f : Func) (users : List OpId) : List OpId :=
  (users.mergeSort fun a b => f.place a ≤ f.place b).destutter (· ≠ ·)

theorem place_eq (h : id ∈ f.opIds) : f.place id = f.opIds.idxOf id := by
  rw [place, position?_eq_some h, Option.getD_some]

theorem takers_sublist (f : Func) (v : ValueId) : (f.takers v).Sublist f.opIds :=
  List.filter_sublist.map Node.id

theorem mem_takers_iff : id ∈ f.takers v ↔ ∃ op, f.op? id = some op ∧ v ∈ op.operands := by
  simp only [takers, List.mem_map, List.mem_filter, List.contains_iff_mem]
  constructor
  · rintro ⟨node, ⟨hnode, hv⟩, rfl⟩
    exact ⟨node.op, Body.op?_eq_some_iff.2 hnode, hv⟩
  · rintro ⟨op, hop, hv⟩
    exact ⟨⟨id, op⟩, ⟨Body.op?_eq_some_iff.1 hop, hv⟩, rfl⟩

/-- Places increase along the body. -/
theorem pairwise_place {ids : List OpId} (h : ids.Sublist f.opIds) :
    ids.Pairwise fun a b => f.place a < f.place b := by
  have hall : f.opIds.Pairwise fun a b => f.place a < f.place b := by
    rw [List.pairwise_iff_getElem]
    intro i j hi hj hij
    have hnodup : f.opIds.Nodup := f.body.nodup_ids
    rwa [place_eq (List.getElem_mem hi), place_eq (List.getElem_mem hj),
      hnodup.idxOf_getElem i hi, hnodup.idxOf_getElem j hj]
  exact hall.sublist h

/-- Whichever way the takers of a value are come by, in program order and once each they are what
the operand lists say. -/
theorem inProgramOrder_eq_takers {users : List OpId} (h : ∀ id, id ∈ users ↔ id ∈ f.takers v) :
    f.inProgramOrder users = f.takers v :=
  destutter_mergeSort_eq (pairwise_place (f.takers_sublist v)) h

theorem Invariant.consumers_eq_takers (hf : f.Invariant) {o : Origin} (ho : f.origin? v = some o)
    (hne : o ≠ .erased) : f.consumers v = .ok (f.takers v) := by
  rw [hf.consumers_eq ho hne, takers]
  simp only [List.contains_eq_mem]

/-- Uses lead to the operations that take the value. -/
theorem Invariant.mem_followed_iff (hf : f.Invariant) {producer : OpId} {k : Nat}
    (ho : f.origin? v = some (.result producer k)) {uses : List Use} (huses : uses.Perm f.uses) :
    id ∈ followed uses producer v ↔ id ∈ f.takers v := by
  have hfollowed : id ∈ followed uses producer v ↔ ⟨producer, id, v⟩ ∈ f.uses := by
    simp only [followed, List.mem_map, List.mem_filter, Bool.and_eq_true, beq_iff_eq,
      huses.mem_iff]
    constructor
    · rintro ⟨use, ⟨huse, rfl, rfl⟩, rfl⟩
      exact huse
    · intro huse
      exact ⟨_, ⟨huse, rfl, rfl⟩, rfl⟩
  rw [hfollowed, hf.uses_perm.mem_iff, mem_operandUses_iff, mem_takers_iff]
  constructor
  · rintro ⟨w, hw, rfl, hv, -⟩
    obtain ⟨node, hnode, rfl⟩ := List.mem_map.1 hw
    exact ⟨node.op, Body.op?_eq_some_iff.2 hnode, hv⟩
  · rintro ⟨op, hop, hv⟩
    exact ⟨_, mem_wirings_of_op? hop, rfl, hv, k, ho⟩

theorem kind_of_consumers (h : f.origin? v = none ∨ f.origin? v = some .erased) :
    ∃ e, f.consumers v = .error e ∧ e.kind = .invalidGraph := by
  unfold consumers
  rw [producer_eq]
  rcases h with h | h <;> rw [h] <;> exact ⟨_, rfl, rfl⟩

/-- **Consumers are the true uses.** In a built function, the consumers of every argument and of
every result that is not erased are the operations whose operand lists contain it, once each and in
program order. For a result, this is what is found by following the recorded uses, in whatever order
these are met, and putting what they lead to in program order. There is an answer for no other
value. -/
theorem consumers_exact (hf : f.Built) :
    (∀ v o, f.origin? v = some o → o ≠ .erased →
      ∃ users, f.consumers v = .ok users ∧ users.Sublist f.opIds ∧ users.Nodup ∧
        (∀ id, id ∈ users ↔ ∃ op, f.op? id = some op ∧ v ∈ op.operands) ∧
        users = f.inProgramOrder (f.takers v) ∧
        ∀ producer k, o = .result producer k → ∀ uses, uses.Perm f.uses →
          users = f.inProgramOrder (followed uses producer v)) ∧
    ∀ v, f.origin? v = none ∨ f.origin? v = some .erased →
      ∃ e, f.consumers v = .error e ∧ e.kind = .invalidGraph := by
  have hinv := hf.invariant
  refine ⟨fun v o ho hne => ?_, fun v => kind_of_consumers⟩
  refine ⟨f.takers v, hinv.consumers_eq_takers ho hne, f.takers_sublist v,
    f.body.nodup_ids.sublist (f.takers_sublist v), fun id => mem_takers_iff,
    (inProgramOrder_eq_takers fun _ => Iff.rfl).symm, ?_⟩
  rintro producer k rfl uses huses
  exact (inProgramOrder_eq_takers fun _ => hinv.mem_followed_iff ho huses).symm

/-- A result is taken twice by one operation and once by another behind it, which has got the number
of an erased one. -/
theorem consumers_exact_reuse :
    let ty := Ty.scalar .f32
    let f := (empty "main").after
      [.addArgument ty,
        .pushOp { name := ⟨"relay.exp"⟩, operands := [0] } [ty],
        .pushOp { name := ⟨"relay.sqrt"⟩, operands := [0] } [ty],
        .pushOp { name := ⟨"relay.add"⟩, operands := [2, 2] } [ty],
        .eraseOp 0,
        .pushOp { name := ⟨"relay.tanh"⟩, operands := [2] } [ty]]
    f.opIds = [1, 2, 0] ∧ f.origin? 2 = some (.result 1 0) ∧ f.consumers 2 = .ok [2, 0] ∧
      followed f.uses.reverse 1 2 = [0, 2, 2] ∧ f.inProgramOrder [0, 2, 2] = [2, 0] ∧
      f.origin? 1 = some .erased ∧ ∃ e, f.consumers 1 = .error e ∧ e.kind = .invalidGraph := by
  intro ty f
  have hf : f.Built := ⟨_, _, rfl⟩
  have horigin : f.origin? 2 = some (.result 1 0) := by decide
  have hconsumers : f.consumers 2 = .ok [2, 0] := by decide
  have hfollowed : followed f.uses.reverse 1 2 = [0, 2, 2] := by decide
  have herased : f.origin? 1 = some .erased := by decide
  obtain ⟨hlive, hgone⟩ := consumers_exact hf
  obtain ⟨users, husers, -, -, -, -, hfollow⟩ := hlive 2 _ horigin (by decide)
  cases hconsumers.symm.trans husers
  have horder := hfollow 1 0 rfl f.uses.reverse f.uses.reverse_perm
  rw [hfollowed] at horder
  exact ⟨by decide, horigin, hconsumers, hfollowed, horder.symm, herased, hgone 1 (.inr herased)⟩

end TensorIR.Func
