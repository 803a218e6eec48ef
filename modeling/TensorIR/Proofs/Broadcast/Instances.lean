import TensorIR.Proofs.Broadcast.Axes
import TensorIR.Proofs.Relay.Static

/-!
# Broadcasting with open extents is exact

A shape with open extents stands for the shapes that it may turn out to be (`DimsAdmit`). The
broadcast of two such shapes stands for exactly what the broadcasts of these turn out to be
(`dims_exact`): an extent of it is known only if every choice leads there, and open only if every
number can come out. It is refused only if every choice is. All of this is decided axis by axis,
since the open extents of different axes have nothing to do with each other.
-/

namespace TensorIR

/-- A number that an extent may turn out to be. -/
def Dim.Admits : Dim → Nat → Prop
  | .known m, n => n = m
  | .dynamic, n => n < extentLimit

instance (d : Dim) (n : Nat) : Decidable (d.Admits n) :=
  match d with
  | .known m => inferInstanceAs (Decidable (n = m))
  | .dynamic => inferInstanceAs (Decidable (n < extentLimit))

/-- A shape that the dimensions may turn out to be. -/
def DimsAdmit (ds : List Dim) (s : List Nat) : Prop :=
  List.Forall₂ Dim.Admits ds s

instance (ds : List Dim) (s : List Nat) : Decidable (DimsAdmit ds s) :=
  inferInstanceAs (Decidable (List.Forall₂ Dim.Admits ds s))

/-! ## Two extents -/

namespace Dim

variable {a b d : Dim} {m n r : Nat}

theorem broadcast?_known_iff :
    (known m).broadcast? (known n) = some (known r) ↔
      (m = n ∨ m = 1 ∨ n = 1) ∧ r = if m = 1 then n else m := by
  grind [broadcast?]

theorem exists_broadcast?_known_iff :
    (∃ d, (known m).broadcast? (known n) = some d) ↔ m = n ∨ m = 1 ∨ n = 1 := by
  grind [broadcast?]

theorem exists_admits (d : Dim) : ∃ n, d.Admits n := by
  cases d with
  | known m => exact ⟨m, rfl⟩
  | dynamic => exact ⟨0, by decide⟩

/-- What comes out of two choices is a choice for the broadcast. -/
theorem admits_of_broadcast? (hd : a.broadcast? b = some d) (ha : a.Admits m) (hb : b.Admits n)
    (hr : (known m).broadcast? (known n) = some (known r)) : d.Admits r := by
  obtain ⟨hfit, rfl⟩ := broadcast?_known_iff.1 hr
  cases a <;> cases b <;> grind [broadcast?, Admits]

/-- Every choice for the broadcast comes out of two choices. -/
theorem exists_admits_of_broadcast? (hd : a.broadcast? b = some d) (hr : d.Admits r) :
    ∃ m n, a.Admits m ∧ b.Admits n ∧ (known m).broadcast? (known n) = some (known r) := by
  simp only [broadcast?_known_iff]
  cases a with
  | known x =>
    cases b with
    | known y => exact ⟨x, y, rfl, rfl, by grind [broadcast?, Admits]⟩
    | dynamic =>
      by_cases hx : x = 1
      · exact ⟨x, r, rfl, by grind [broadcast?, Admits], by grind⟩
      · exact ⟨x, 1, rfl, by decide, by grind [broadcast?, Admits]⟩
  | dynamic =>
    cases b with
    | known y =>
      by_cases hy : y = 1
      · exact ⟨r, y, by grind [broadcast?, Admits], rfl, by grind⟩
      · exact ⟨1, y, by decide, rfl, by grind [broadcast?, Admits]⟩
    | dynamic =>
      cases hd
      exact ⟨r, r, hr, hr, .inl rfl, by simp⟩

/-- Extents that do not fit are known, so every choice is the same misfit. -/
theorem broadcast?_eq_none_of_admits (hd : a.broadcast? b = none) (ha : a.Admits m)
    (hb : b.Admits n) : (known m).broadcast? (known n) = none := by
  cases a <;> cases b <;> grind [broadcast?, Admits]

end Dim

namespace Broadcast

variable {a b d : List Dim} {s : List Nat}

/-- The extent of an axis counted from the last one. -/
def extent (s : List Nat) (k : Nat) : Nat :=
  fromEnd 1 s k

theorem axis_map_known (s : List Nat) (k : Nat) : axis (s.map .known) k = .known (extent s k) :=
  fromEnd_map ..

theorem dimsAdmit_iff :
    DimsAdmit d s ↔ d.length = s.length ∧ ∀ k, (axis d k).Admits (extent s k) := by
  have hone : (Dim.known 1).Admits 1 := rfl
  exact forall₂_iff_fromEnd hone

/-- Whatever a single extent may turn out to be, there is a shape in which it does. -/
theorem exists_dimsAdmit (d : List Dim) (k : Nat) {n : Nat} (hn : (axis d k).Admits n) :
    ∃ s, DimsAdmit d s ∧ extent s k = n := by
  choose m hm using fun j => (axis d j).exists_admits
  have hadmits : ∀ j, (axis d j).Admits (if j = k then n else m j) := by
    intro j
    split
    · next hj => rwa [hj]
    · exact hm j
  obtain ⟨s, hlen, hs⟩ := exists_fromEnd 1 d.length (fun j => if j = k then n else m j) <| by
    intro j hj
    have hone := hadmits j
    rwa [axis_of_length_le hj] at hone
  refine ⟨s, dimsAdmit_iff.2 ⟨hlen.symm, fun j => ?_⟩, ?_⟩
  · rw [extent, hs]
    exact hadmits j
  · rw [extent, hs, if_pos rfl]

/-! ## Shapes without open extents -/

theorem map_known_of_static (h : DimsStatic d) : (d.filterMap Dim.known?).map .known = d := by
  induction d with
  | nil => rfl
  | cons e d ih =>
    obtain ⟨he, hd⟩ := List.forall_mem_cons.1 h
    cases e with
    | known n => simp [Dim.known?, ih hd]
    | dynamic => exact absurd rfl he

theorem dimsStatic_map_known (s : List Nat) : DimsStatic (s.map .known) := by
  simp [DimsStatic]

theorem shape_eq_ok_iff {x y : List Nat} :
    shape x y = .ok s ↔ s.length = max x.length y.length ∧
      ∀ k, Dim.broadcast? (.known (extent x k)) (.known (extent y k)) =
        some (.known (extent s k)) := by
  have hdims : shape x y = .ok s ↔ dims (x.map .known) (y.map .known) = .ok (s.map .known) := by
    unfold shape
    rw [Fallible.map_eq_ok_iff]
    constructor
    · rintro ⟨d, hd, rfl⟩
      rw [hd, map_known_of_static]
      exact dims_static (dimsStatic_map_known x) (dimsStatic_map_known y) d hd
    · intro h
      exact ⟨_, h, by simp [List.filterMap_map, Function.comp_def, Dim.known?]⟩
  rw [hdims, dims_eq_ok_iff]
  simp only [axis_map_known, List.length_map]

theorem exists_shape_iff {x y : List Nat} :
    (∃ s, shape x y = .ok s) ↔
      ∀ k, extent x k = extent y k ∨ extent x k = 1 ∨ extent y k = 1 := by
  have hdims : (∃ s, shape x y = .ok s) ↔ ∃ d, dims (x.map .known) (y.map .known) = .ok d := by
    simp [shape, Fallible.map_eq_ok_iff]
  rw [hdims, exists_dims_iff]
  simp only [axis_map_known, Dim.exists_broadcast?_known_iff]

/-! ## Shapes with open extents -/

/-- A shape comes out when the open extents of two shapes are chosen and the shapes broadcast. -/
def ComesOut (a b : List Dim) (s : List Nat) : Prop :=
  ∃ x y, DimsAdmit a x ∧ DimsAdmit b y ∧ shape x y = .ok s

/-- What comes out is what the broadcast may turn out to be. -/
theorem comesOut_iff (h : dims a b = .ok d) : ComesOut a b s ↔ DimsAdmit d s := by
  obtain ⟨hlen, hd⟩ := dims_eq_ok_iff.1 h
  constructor
  · rintro ⟨x, y, hx, hy, hs⟩
    obtain ⟨hxlen, hx⟩ := dimsAdmit_iff.1 hx
    obtain ⟨hylen, hy⟩ := dimsAdmit_iff.1 hy
    obtain ⟨hslen, hs⟩ := shape_eq_ok_iff.1 hs
    refine dimsAdmit_iff.2 ⟨by omega, fun k => ?_⟩
    exact Dim.admits_of_broadcast? (hd k) (hx k) (hy k) (hs k)
  · intro hs
    obtain ⟨hslen, hs⟩ := dimsAdmit_iff.1 hs
    -- choose extents axis by axis; in front of a shape they can only be 1
    choose m n hm hn hmn using fun k => Dim.exists_admits_of_broadcast? (hd k) (hs k)
    obtain ⟨x, hxlen, hx⟩ := exists_fromEnd 1 a.length m <| by
      intro k hk
      have hone := hm k
      rwa [axis_of_length_le hk] at hone
    obtain ⟨y, hylen, hy⟩ := exists_fromEnd 1 b.length n <| by
      intro k hk
      have hone := hn k
      rwa [axis_of_length_le hk] at hone
    refine ⟨x, y, dimsAdmit_iff.2 ⟨hxlen.symm, fun k => ?_⟩,
      dimsAdmit_iff.2 ⟨hylen.symm, fun k => ?_⟩, shape_eq_ok_iff.2 ⟨by omega, fun k => ?_⟩⟩
    · rw [extent, hx]
      exact hm k
    · rw [extent, hy]
      exact hn k
    · rw [extent, extent, hx, hy]
      exact hmn k

/-- Shapes can be broadcast if they can for some choice of their open extents. -/
theorem exists_dims_iff_comesOut : (∃ d, dims a b = .ok d) ↔ ∃ s, ComesOut a b s := by
  constructor
  · rintro ⟨d, hd⟩
    obtain ⟨n, hn⟩ := (axis d 0).exists_admits
    obtain ⟨s, hs, -⟩ := exists_dimsAdmit d 0 hn
    exact ⟨s, (comesOut_iff hd).2 hs⟩
  · rintro ⟨s, x, y, hx, hy, hs⟩
    rw [exists_dims_iff]
    intro k
    cases hd : (axis a k).broadcast? (axis b k) with
    | some d => exact ⟨d, rfl⟩
    | none =>
      have hnone := Dim.broadcast?_eq_none_of_admits hd ((dimsAdmit_iff.1 hx).2 k)
        ((dimsAdmit_iff.1 hy).2 k)
      rw [(shape_eq_ok_iff.1 hs).2 k] at hnone
      cases hnone

/-- **Broadcasting is exact.** Shapes of known extents are broadcast if at each place, counted from
the last axis, the extents are equal or one of them is 1, and the other one comes out. Shapes with
open extents are refused only if all that they may turn out to be is refused. Otherwise the shapes
that come out are those that the broadcast may turn out to be: what is known in it is forced, and
what is open in it can still be anything. -/
theorem dims_exact :
    (∀ x y : List Nat,
      ((∃ s, shape x y = .ok s) ↔
        ∀ k, extent x k = extent y k ∨ extent x k = 1 ∨ extent y k = 1) ∧
      ∀ s, shape x y = .ok s → s.length = max x.length y.length ∧
        ∀ k, extent s k = if extent x k = 1 then extent y k else extent x k) ∧
    ∀ a b : List Dim,
      ((∃ e, dims a b = .error e) ↔
        ∀ x y, DimsAdmit a x → DimsAdmit b y → ∃ e, shape x y = .error e) ∧
      ∀ d, dims a b = .ok d →
        (∀ s, ComesOut a b s ↔ DimsAdmit d s) ∧
        (∀ k n, axis d k = .known n → ∀ s, ComesOut a b s → extent s k = n) ∧
        ∀ k, axis d k = .dynamic → ∀ n < extentLimit, ∃ s, ComesOut a b s ∧ extent s k = n := by
  refine ⟨fun x y => ⟨exists_shape_iff, fun s hs => ?_⟩, fun a b => ⟨?_, fun d hd => ?_⟩⟩
  · obtain ⟨hlen, hs⟩ := shape_eq_ok_iff.1 hs
    exact ⟨hlen, fun k => (Dim.broadcast?_known_iff.1 (hs k)).2⟩
  · rw [Fallible.exists_error_iff, exists_dims_iff_comesOut]
    simp only [Fallible.exists_error_iff, ComesOut, not_exists, not_and]
    exact ⟨fun h x y hx hy s => h s x y hx hy, fun h s x y hx hy => h x y hx hy s⟩
  · refine ⟨fun s => comesOut_iff hd, fun k n hk s hs => ?_, fun k hk n hn => ?_⟩
    · have hadmits := (dimsAdmit_iff.1 ((comesOut_iff hd).1 hs)).2 k
      rwa [hk] at hadmits
    · obtain ⟨s, hs, hsn⟩ := exists_dimsAdmit d k (n := n) (by rwa [hk])
      exact ⟨s, (comesOut_iff hd).2 hs, hsn⟩

/-- Open extents next to each other, next to 0, and next to no axis at all; and two known extents
that no choice of the open one brings together. -/
theorem dims_exact_open :
    let a : List Dim := [.dynamic, .known 1, .dynamic]
    let b : List Dim := [.known 0, .dynamic]
    (dims a b = .ok [.dynamic, .known 0, .dynamic] ∧
      ComesOut a b [7, 0, 2] ∧ ¬ComesOut a b [7, 1, 2]) ∧
    dims [.dynamic, .known 3] [.known 4] =
        .error (.cannotBroadcast [.dynamic, .known 3] [.known 4] 1) ∧
      ∀ x y, DimsAdmit [.dynamic, .known 3] x → DimsAdmit [.known 4] y →
        ∃ e, shape x y = .error e := by
  intro a b
  have hok : dims a b = .ok [.dynamic, .known 0, .dynamic] := by decide
  have herror : dims [.dynamic, .known 3] [.known 4] =
      .error (.cannotBroadcast [.dynamic, .known 3] [.known 4] 1) := by decide
  obtain ⟨hexact, -⟩ := (dims_exact.2 a b).2 _ hok
  refine ⟨⟨hok, (hexact _).2 (by decide), fun h => ?_⟩, herror, (dims_exact.2 _ _).1.1 ⟨_, herror⟩⟩
  exact absurd ((hexact _).1 h) (by decide)

end Broadcast

end TensorIR
