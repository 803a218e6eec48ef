import Mathlib.Data.List.Forall2
import TensorIR.Broadcast
import TensorIR.Proofs.Fallible

/-!
# Broadcasting axis by axis

Shapes are aligned at their last axes, so axes are counted from the end here, and a shape goes on in
front with axes of extent 1 without end (`axis`). Seen from there the alignment is gone: the
broadcast of two shapes has the rank of the longer one, and each of its axes is the broadcast of the
two axes at its place (`dims_eq_ok_iff`), if there is one at every place (`exists_dims_iff`). What
is to be shown of shapes of different ranks is then to be shown of two or three extents.
-/

namespace TensorIR

namespace Broadcast

/-! ## Places counted from the end -/

section FromEnd

variable {α β : Type} {pad : α}

/-- The member of a list at a place counted from its end. In front of the list stands `pad`. -/
def fromEnd (pad : α) (l : List α) (k : Nat) : α :=
  l.reverse.getD k pad

@[simp] theorem fromEnd_nil (k : Nat) : fromEnd pad [] k = pad := rfl

theorem fromEnd_of_length_le {l : List α} {k : Nat} (h : l.length ≤ k) : fromEnd pad l k = pad := by
  rw [fromEnd, List.getD_eq_getElem?_getD, List.getElem?_eq_none (by simpa using h)]
  rfl

theorem fromEnd_cons (a : α) (l : List α) (k : Nat) :
    fromEnd pad (a :: l) k = if k = l.length then a else fromEnd pad l k := by
  unfold fromEnd
  rw [List.reverse_cons, List.getD_eq_getElem?_getD, List.getD_eq_getElem?_getD,
    List.getElem?_append, List.length_reverse]
  by_cases hlt : k < l.length
  · rw [if_pos hlt, if_neg (by omega)]
  · rw [if_neg hlt, List.getElem?_eq_none (l := l.reverse) (by simpa using hlt)]
    by_cases heq : k = l.length
    · simp [heq]
    · rw [if_neg heq, List.getElem?_eq_none]
      simp only [List.length_singleton]
      omega

theorem fromEnd_map (f : α → β) (l : List α) (k : Nat) :
    fromEnd (f pad) (l.map f) k = f (fromEnd pad l k) := by
  induction l with
  | nil => rfl
  | cons a l ih =>
    rw [List.map_cons, fromEnd_cons, fromEnd_cons, ih, List.length_map]
    split <;> rfl

/-- What stands in front does not change when more of it is written down. -/
theorem fromEnd_replicate_append (n : Nat) (l : List α) (k : Nat) :
    fromEnd pad (List.replicate n pad ++ l) k = fromEnd pad l k := by
  induction n with
  | zero => rfl
  | succ n ih =>
    rw [List.replicate_succ, List.cons_append, fromEnd_cons, ih]
    split
    · next heq =>
      rw [fromEnd_of_length_le]
      rw [heq, List.length_append]
      omega
    · rfl

/-- A relation between lists of one length is one between the members at each place. -/
theorem forall₂_iff_fromEnd {R : α → β → Prop} {pad' : β} (hpad : R pad pad') {l : List α}
    {l' : List β} :
    List.Forall₂ R l l' ↔
      l.length = l'.length ∧ ∀ k, R (fromEnd pad l k) (fromEnd pad' l' k) := by
  induction l generalizing l' with
  | nil =>
    cases l' with
    | nil => simp [hpad]
    | cons b l' => simp
  | cons a l ih =>
    cases l' with
    | nil => simp
    | cons b l' =>
      rw [List.forall₂_cons, ih, List.length_cons, List.length_cons, Nat.add_right_cancel_iff]
      constructor
      · intro h
        obtain ⟨hab, hlen, hrest⟩ := h
        refine ⟨hlen, fun k => ?_⟩
        rw [fromEnd_cons, fromEnd_cons, hlen]
        split
        · exact hab
        · exact hrest k
      · intro h
        obtain ⟨hlen, hall⟩ := h
        have hk : ∀ k, R (if k = l'.length then a else fromEnd pad l k)
            (if k = l'.length then b else fromEnd pad' l' k) := by
          intro k
          have := hall k
          rwa [fromEnd_cons, fromEnd_cons, hlen] at this
        refine ⟨by simpa using hk l'.length, hlen, fun k => ?_⟩
        by_cases heq : k = l'.length
        · rw [fromEnd_of_length_le (by omega), fromEnd_of_length_le (by omega)]
          exact hpad
        · simpa [heq] using hk k

/-- There is a list with given members, if nothing but `pad` is asked for in front of it. -/
theorem exists_fromEnd (pad : α) (n : Nat) (m : Nat → α) (h : ∀ k, n ≤ k → m k = pad) :
    ∃ l : List α, l.length = n ∧ ∀ k, fromEnd pad l k = m k := by
  refine ⟨((List.range n).map m).reverse, by simp, fun k => ?_⟩
  unfold fromEnd
  rw [List.reverse_reverse, List.getD_eq_getElem?_getD, List.getElem?_map]
  by_cases hk : k < n
  · simp [hk]
  · rw [List.getElem?_eq_none (by simpa using hk), h k (by omega)]
    rfl

end FromEnd

/-! ## Axes of a broadcast -/

/-- The dimension of an axis counted from the last one. -/
def axis (ds : List Dim) (k : Nat) : Dim :=
  fromEnd (.known 1) ds k

theorem axis_of_length_le {ds : List Dim} {k : Nat} (h : ds.length ≤ k) : axis ds k = .known 1 :=
  fromEnd_of_length_le h

theorem axis_cons (d : Dim) (ds : List Dim) (k : Nat) :
    axis (d :: ds) k = if k = ds.length then d else axis ds k :=
  fromEnd_cons ..

theorem axis_align (rank : Nat) (ds : List Dim) (k : Nat) : axis (align rank ds) k = axis ds k :=
  fromEnd_replicate_append ..

theorem length_align {rank : Nat} {ds : List Dim} (h : ds.length ≤ rank) :
    (align rank ds).length = rank := by
  rw [align, List.length_append, List.length_replicate]
  omega

/-- Aligned shapes are broadcast axis by axis. -/
theorem zip_eq_ok_iff {as bs ds : List Dim} (h : as.length = bs.length) (position : Nat) :
    zip position as bs = .ok ds ↔
      ds.length = as.length ∧ ∀ k, (axis as k).broadcast? (axis bs k) = some (axis ds k) := by
  induction as generalizing bs ds position with
  | nil =>
    obtain rfl : bs = [] := List.length_eq_zero_iff.1 h.symm
    rw [zip, List.length_nil, List.length_eq_zero_iff]
    · constructor
      · rintro ⟨⟩
        exact ⟨rfl, fun _ => rfl⟩
      · rintro ⟨rfl, -⟩
        rfl
    · simp
  | cons a as ih =>
    cases bs with
    | nil => cases h
    | cons b bs =>
      have hlen : as.length = bs.length := Nat.succ.inj h
      rw [zip]
      constructor
      · intro hzip
        cases hd : a.broadcast? b with
        | none => simp [hd] at hzip
        | some d =>
          cases hrest : zip (position + 1) as bs with
          | error p => simp [hd, hrest] at hzip
          | ok ds' =>
            simp only [hd, hrest, Except.ok.injEq] at hzip
            obtain ⟨hlen', hall⟩ := (ih hlen (position + 1)).1 hrest
            subst hzip
            refine ⟨by rw [List.length_cons, List.length_cons, hlen'], fun k => ?_⟩
            rw [axis_cons, axis_cons, axis_cons, ← hlen, hlen']
            split
            · exact hd
            · exact hall k
      · rintro ⟨hlen', hall⟩
        cases ds with
        | nil => cases hlen'
        | cons d ds =>
          have hlen' : ds.length = as.length := Nat.succ.inj hlen'
          simp only [axis_cons, ← hlen, hlen'] at hall
          have hd : a.broadcast? b = some d := by simpa using hall as.length
          have hrest : zip (position + 1) as bs = .ok ds := by
            refine (ih hlen (position + 1)).2 ⟨hlen', fun k => ?_⟩
            by_cases heq : k = as.length
            · rw [axis_of_length_le (by omega), axis_of_length_le (by omega),
                axis_of_length_le (by omega)]
              rfl
            · simpa [heq] using hall k
          simp only [hd, hrest]

/-- **The broadcast of two shapes**, axis by axis. -/
theorem dims_eq_ok_iff {a b ds : List Dim} :
    dims a b = .ok ds ↔
      ds.length = max a.length b.length ∧
        ∀ k, (axis a k).broadcast? (axis b k) = some (axis ds k) := by
  have ha : (align (max a.length b.length) a).length = max a.length b.length :=
    length_align (by omega)
  have hb : (align (max a.length b.length) b).length = max a.length b.length :=
    length_align (by omega)
  have hzip := @zip_eq_ok_iff _ _ ds (ha.trans hb.symm) 0
  simp only [axis_align, ha] at hzip
  rw [← hzip]
  unfold dims
  simp only
  split
  · next p hp => simp [hp]
  · next ds' hds' => simp [hds']

/-- Shapes can be broadcast if all their axes can. -/
theorem exists_dims_iff {a b : List Dim} :
    (∃ ds, dims a b = .ok ds) ↔ ∀ k, ∃ d, (axis a k).broadcast? (axis b k) = some d := by
  constructor
  · rintro ⟨ds, hds⟩ k
    exact ⟨_, (dims_eq_ok_iff.1 hds).2 k⟩
  · intro h
    choose m hm using h
    have hone : ∀ k, max a.length b.length ≤ k → m k = .known 1 := by
      intro k hk
      have hk' := hm k
      rw [axis_of_length_le (by omega), axis_of_length_le (by omega)] at hk'
      exact (Option.some.inj hk').symm
    obtain ⟨ds, hlen, hds⟩ := exists_fromEnd (.known 1) _ m hone
    refine ⟨ds, dims_eq_ok_iff.2 ⟨hlen, fun k => ?_⟩⟩
    rw [hm, axis, hds]

end Broadcast

end TensorIR
