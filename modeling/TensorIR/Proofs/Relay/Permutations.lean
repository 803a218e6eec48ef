import Mathlib.Algebra.Group.End
import Mathlib.Data.Fintype.EquivFin
import Mathlib.Data.List.FinRange
import TensorIR.Proofs.Relay.Axes

/-!
# Transposition by permutations

A list of as many axes as there are, each in range and none named twice, names all axes once
(`perm_range_iff`), so it spells out a permutation (`Spells`). Transposition accepts exactly these
lists and reads the operand through the permutation (`transposeDims_eq_ok_iff`); the opposite order
is the permutation that it takes by default. What is known of permutations is then known of
transposition: one after the other is their product, and every one can be undone
(`transpose_permutation`).
-/

namespace TensorIR.Relay

variable {r : Nat} {axes : List Int} {ks : List Nat} {d : Fin r → Dim} {p : Equiv.Perm (Fin r)}

/-! ## Permutations as lists -/

/-- The positions that a permutation gives the axes, from the first to the last. -/
def positions (p : Equiv.Perm (Fin r)) : List Nat :=
  List.ofFn fun j => (p j : Nat)

/-- A list of as many different numbers as there are in the range holds all of them. -/
theorem perm_range_iff : ks.Perm (List.range r) ↔ ks.length = r ∧ ks.Nodup ∧ ∀ k ∈ ks, k < r := by
  constructor
  · intro h
    refine ⟨by simpa using h.length_eq, h.nodup_iff.2 List.nodup_range, fun k hk => ?_⟩
    exact List.mem_range.1 (h.mem_iff.1 hk)
  · rintro ⟨hlength, hnodup, hlt⟩
    have hsubset : ks ⊆ List.range r := fun k hk => List.mem_range.2 (hlt k hk)
    refine (List.subperm_of_subset hnodup hsubset).perm_of_length_le ?_
    rw [List.length_range, hlength]

theorem positions_perm_range (p : Equiv.Perm (Fin r)) : (positions p).Perm (List.range r) := by
  refine perm_range_iff.2 ⟨List.length_ofFn, List.nodup_ofFn.2 ?_, ?_⟩
  · exact Fin.val_injective.comp p.injective
  · exact List.forall_mem_ofFn_iff.2 fun j => (p j).isLt

theorem exists_positions_eq (h : ks.Perm (List.range r)) : ∃ p, positions (r := r) p = ks := by
  obtain ⟨hlength, hnodup, hlt⟩ := perm_range_iff.1 h
  have hplace : ∀ j : Fin r, (j : Nat) < ks.length := fun j => hlength ▸ j.isLt
  -- different entries make it injective, and on a finite set that is enough
  let f : Fin r → Fin r := fun j => ⟨ks.get ⟨j, hplace j⟩, hlt _ (List.get_mem _ _)⟩
  have hf : Function.Injective f := by
    intro a b hab
    exact Fin.ext (hnodup.getElem_inj_iff.1 (congrArg Fin.val hab))
  refine ⟨Equiv.ofBijective f (Finite.injective_iff_bijective.1 hf), ?_⟩
  refine List.ext_getElem (by simp [positions, hlength]) fun k hk hk' => ?_
  simp [positions, f]

/-! ## What transposition accepts -/

/-- The list spells out a permutation: counted from the front, entry `j` is the position of the axis
that comes to stand at `j`. -/
def Spells (axes : List Int) (p : Equiv.Perm (Fin r)) : Prop :=
  axes.map (fromFront r) = (positions p).map fun k : Nat => (k : Int)

instance (axes : List Int) (p : Equiv.Perm (Fin r)) : Decidable (Spells axes p) :=
  inferInstanceAs (Decidable (_ = _))

theorem Spells.length_eq (h : Spells axes p) : axes.length = r := by
  have hlength := congrArg List.length h
  simpa [positions] using hlength

/-- To spell out a permutation is to name every axis once. -/
theorem exists_spells_iff :
    (∃ p : Equiv.Perm (Fin r), Spells axes p) ↔
      (axes.map (fromFront r)).Perm ((List.range r).map fun k : Nat => (k : Int)) := by
  constructor
  · rintro ⟨p, hp⟩
    rw [hp]
    exact (positions_perm_range p).map _
  · intro h
    have hcount : (axes.map fun axis => (fromFront r axis).toNat).Perm (List.range r) := by
      simpa [Function.comp_def] using h.map Int.toNat
    obtain ⟨p, hp⟩ := exists_positions_eq hcount
    refine ⟨p, ?_⟩
    rw [Spells, hp, List.map_map]
    refine List.map_congr_left fun axis haxis => ?_
    obtain ⟨k, -, hk⟩ := List.mem_map.1 (h.mem_iff.1 (List.mem_map_of_mem haxis))
    simp [← hk]

theorem permuteDims_positions (d : Fin r → Dim) (p : Equiv.Perm (Fin r)) :
    permuteDims (List.ofFn d) (positions p) = .ok (List.ofFn (d ∘ p)) := by
  obtain ⟨hlength, hnodup, -⟩ := perm_range_iff.1 (positions_perm_range p)
  have hread : (positions p).filterMap (fun k => (List.ofFn d)[k]?) = List.ofFn (d ∘ p) := by
    have hplaces : positions p = (List.finRange r).map fun j => (p j : Nat) := List.ofFn_eq_map
    rw [hplaces, List.filterMap_map, List.ofFn_eq_map (f := d ∘ p)]
    refine List.filterMap_eq_map_iff_forall_eq_some.2 fun j _ => ?_
    simp
  unfold permuteDims
  rw [if_neg (by simp [hlength]), if_pos hnodup, hread]

theorem transposeDims_eq_ok_iff {out : List Dim} :
    transposeDims (List.ofFn d) (some axes) = .ok out ↔
      ∃ p, Spells axes p ∧ out = List.ofFn (d ∘ p) := by
  unfold transposeDims
  simp only [Fallible.bind_eq_ok_iff, normalizeAxes_eq_ok_iff, List.length_ofFn]
  constructor
  · rintro ⟨ks, ⟨hplaces, hlt⟩, hout⟩
    have hperm : ks.Perm (List.range r) := by
      unfold permuteDims at hout
      split at hout
      · cases hout
      · next hlength =>
        split at hout
        · next hnodup =>
          refine perm_range_iff.2 ⟨?_, hnodup, hlt⟩
          simpa using hlength
        · cases hout
    obtain ⟨p, rfl⟩ := exists_positions_eq hperm
    rw [permuteDims_positions] at hout
    cases hout
    exact ⟨p, hplaces, rfl⟩
  · rintro ⟨p, hp, rfl⟩
    refine ⟨positions p, ⟨hp, ?_⟩, permuteDims_positions d p⟩
    exact (perm_range_iff.1 (positions_perm_range p)).2.2

/-- By default the axes come to stand in the opposite order. -/
theorem transposeDims_none (d : Fin r → Dim) :
    transposeDims (List.ofFn d) none = .ok (List.ofFn d).reverse := by
  have hpositions : (List.range (List.ofFn d).length).reverse =
      positions (Fin.revPerm (n := r)) := by
    refine List.ext_getElem (by simp [positions]) fun k hk hk' => ?_
    simp only [positions, List.getElem_reverse, List.getElem_range, List.getElem_ofFn,
      Fin.revPerm_apply, Fin.val_rev, List.length_range, List.length_ofFn]
    omega
  have hreverse : List.ofFn (d ∘ (Fin.revPerm (n := r))) = (List.ofFn d).reverse := by
    refine List.ext_getElem (by simp) fun k hk hk' => ?_
    simp only [List.getElem_reverse, List.getElem_ofFn, Function.comp_apply, Fin.revPerm_apply,
      List.length_ofFn]
    refine congrArg d (Fin.ext ?_)
    simp only [Fin.val_rev]
    omega
  rw [← hreverse, ← permuteDims_positions, ← hpositions]
  rfl

/-! ## The rule -/

/-- An operation that puts the axes of its operand in another order: as listed, or the opposite
one. -/
structure Transposes (i : Inputs) (dims : List Dim) (axes : Option (List Int)) : Prop where
  operand : i.operandDims 0 = .ok dims
  axes : i.attr? Attr.toInts "axes" = .ok axes

theorem Transposes.eq_ok_iff {i : Inputs} {dims : List Dim} {axes : Option (List Int)}
    {cs : List Component} (h : Transposes i dims axes) :
    transpose i = .ok cs ↔ ∃ out, transposeDims dims axes = .ok out ∧ cs = single out := by
  unfold transpose
  rw [h.operand, h.axes]
  change (Defect.lift (transposeDims dims axes) >>= fun out => .ok (single out)) = .ok cs ↔ _
  rw [Fallible.bind_eq_ok_iff]
  simp only [Defect.lift, Fallible.mapError_eq_ok_iff, Except.ok.injEq, eq_comm (b := cs)]

/-- A list is accepted if it spells out a permutation, and the operand is read through it. -/
theorem Transposes.eq_ok_iff_spells {i : Inputs} {cs : List Component}
    (h : Transposes i (List.ofFn d) (some axes)) :
    transpose i = .ok cs ↔ ∃ p, Spells axes p ∧ cs = single (List.ofFn (d ∘ p)) := by
  simp only [h.eq_ok_iff, transposeDims_eq_ok_iff]
  constructor
  · rintro ⟨out, ⟨p, hp, rfl⟩, rfl⟩
    exact ⟨p, hp, rfl⟩
  · rintro ⟨p, hp, rfl⟩
    exact ⟨_, ⟨p, hp, rfl⟩, rfl⟩

theorem Transposes.infers {i : Inputs} (h : Transposes i (List.ofFn d) (some axes))
    (hp : Spells axes p) : transpose i = .ok (single (List.ofFn (d ∘ p))) :=
  h.eq_ok_iff_spells.2 ⟨p, hp, rfl⟩

theorem rule?_transpose :
    registry.rule? "relay.transpose" = some (ShapeRule.ofInputs transpose) :=
  rule?_of_mem (o := operator "transpose" .injective (.ofInputs transpose)) (by simp [operators])

/-- **Transposition is by permutations.** A list of axes is accepted exactly if it names every axis
once, and the result then has along its axis `j` the extent that the operand has along the axis
named at `j`; without a list, the extents come in the opposite order. So the extents of the result
are those of the operand, rearranged. To transpose twice is to transpose once by the product of the
two permutations. The inverse permutation gives the operand back, and so does the opposite order
after the opposite order. -/
theorem transpose_permutation (dims : List Dim) :
    registry.rule? "relay.transpose" = some (ShapeRule.ofInputs transpose) ∧
    (∀ i axes, Transposes i dims (some axes) →
      ((∃ cs, transpose i = .ok cs) ↔
        axes.length = dims.length ∧ (axes.map (fromFront dims.length)).Perm
          ((List.range dims.length).map fun k : Nat => (k : Int))) ∧
      ∀ cs, transpose i = .ok cs ↔ ∃ p : Equiv.Perm (Fin dims.length),
        Spells axes p ∧ cs = single (List.ofFn fun j => dims.get (p j))) ∧
    (∀ i axes p, Transposes i dims (some axes) → Spells (r := dims.length) axes p →
      ∃ out, transpose i = .ok (single out) ∧ out.Perm dims ∧
        (∀ i' i'' axes' axes'' q, Transposes i' out (some axes') → Spells axes' q →
          Transposes i'' dims (some axes'') → Spells axes'' (p * q) →
          ∃ out', transpose i' = .ok (single out') ∧ transpose i'' = .ok (single out')) ∧
        ∀ i' axes', Transposes i' out (some axes') → Spells axes' p⁻¹ →
          transpose i' = .ok (single dims)) ∧
    (∀ i, Transposes i dims none → transpose i = .ok (single dims.reverse)) ∧
    ∀ i, Transposes i dims.reverse none → transpose i = .ok (single dims) := by
  have hget : ∀ {i axes}, Transposes i dims axes → Transposes i (List.ofFn dims.get) axes := by
    intro i axes h
    rwa [List.ofFn_get]
  have hdefault : ∀ {i} {ds : List Dim}, Transposes i ds none →
      transpose i = .ok (single ds.reverse) := by
    intro i ds h
    have hreverse := transposeDims_none ds.get
    rw [List.ofFn_get] at hreverse
    exact h.eq_ok_iff.2 ⟨_, hreverse, rfl⟩
  refine ⟨rule?_transpose, fun i axes h => ?_, fun i axes p h hp => ?_, fun i h => hdefault h,
    fun i h => ?_⟩
  · have haccepts : ∀ cs, transpose i = .ok cs ↔ ∃ p : Equiv.Perm (Fin dims.length),
        Spells axes p ∧ cs = single (List.ofFn fun j => dims.get (p j)) :=
      fun cs => (hget h).eq_ok_iff_spells
    refine ⟨?_, haccepts⟩
    simp only [haccepts, ← exists_spells_iff]
    constructor
    · rintro ⟨cs, p, hp, -⟩
      exact ⟨hp.length_eq, p, hp⟩
    · rintro ⟨-, p, hp⟩
      exact ⟨_, p, hp, rfl⟩
  · refine ⟨_, (hget h).infers hp, ?_, fun i' i'' axes' axes'' q h' hq h'' hpq => ?_,
      fun i' axes' h' hinverse => ?_⟩
    · have hperm := p.ofFn_comp_perm dims.get
      rwa [List.ofFn_get] at hperm
    · exact ⟨_, h'.infers hq, (hget h'').infers hpq⟩
    · have hback : (dims.get ∘ p) ∘ (p⁻¹ : Equiv.Perm _) = dims.get := by
        funext j
        simp
      rw [h'.infers hinverse, hback, List.ofFn_get]
  · simpa using hdefault h

/-- Three axes in a circle, one step and two steps back; and an axis named twice, once from each
end. -/
theorem transpose_permutation_circle :
    let request (dims : List Dim) (axes : List Int) : Inputs :=
      ⟨[some (.tensor ⟨.f32, dims⟩)], StringMap.ofList [("axes", .ints axes)]⟩
    let p : Equiv.Perm (Fin 3) := ⟨fun j => j + 2, fun j => j + 1, by decide, by decide⟩
    let dims : List Dim := [.known 2, .dynamic, .known 3]
    let out : List Dim := [.known 3, .known 2, .dynamic]
    (Spells [-1, 0, -2] p ∧ transpose (request dims [-1, 0, -2]) = .ok (single out)) ∧
      transpose (request out [1, -1, 0]) = .ok (single dims) ∧
      (∃ out', transpose (request out [2, -3, 1]) = .ok (single out') ∧
        transpose (request dims [-2, 2, 0]) = .ok (single out')) ∧
      transpose ⟨[some (.tensor ⟨.f32, dims⟩)], ∅⟩ = .ok (single dims.reverse) ∧
      ¬∃ cs, transpose (request dims [1, -2, 0]) = .ok cs := by
  intro request p dims out
  have hrequest : ∀ ds axes, Transposes (request ds axes) ds (some axes) := by
    intro ds axes
    exact ⟨rfl, by simp [request, Inputs.attr?, Inputs.attrD, StringMap.ofList, Attr.toInts,
      Except.map, Except.mapError]⟩
  have hp : Spells [-1, 0, -2] p := by decide
  obtain ⟨-, haccepts, hpermute, hreverse, -⟩ := transpose_permutation dims
  obtain ⟨out', hout, -, hproduct, hinverse⟩ := hpermute _ _ p (hrequest dims [-1, 0, -2]) hp
  have hsame : out' = out := by
    have hcs := ((haccepts _ _ (hrequest dims [-1, 0, -2])).2 (single out)).2 ⟨p, hp, rfl⟩
    cases hout.symm.trans hcs
    rfl
  subst hsame
  refine ⟨⟨hp, hout⟩, hinverse _ _ (hrequest _ _) (by decide), ?_, hreverse _ ⟨rfl, rfl⟩, ?_⟩
  · exact hproduct _ _ _ _ p (hrequest _ [2, -3, 1]) (by decide) (hrequest _ [-2, 2, 0]) (by decide)
  · rw [(haccepts _ _ (hrequest dims [1, -2, 0])).1]
    decide

end TensorIR.Relay
