import Mathlib.Algebra.BigOperators.Ring.List
import Mathlib.Algebra.GroupWithZero.Nat
import TensorIR.Proofs.Relay.Static

/-!
# Products of extents

Extents are multiplied from the first to the last, up to the first open one, and every product on
the way must fit in 64 bits (`product_eq_ok_iff`). So it is not the exact product alone that
decides: behind a product that is too large there may be an open extent, or one of 0. This is the
only way to miss what the exact product calls for (`product_eq_exactProduct_iff`), and the only way
in which the order of the extents matters (`product_exact_iff`).
-/

namespace TensorIR.Relay

variable {ds ds' : List Dim}

theorem checkedMul_of_lt {a b : Nat} (h : a * b < extentLimit) : checkedMul a b = .ok (a * b) :=
  if_pos h

theorem checkedMul_of_le {a b : Nat} (h : extentLimit ≤ a * b) :
    checkedMul a b = .error .overflow :=
  if_neg (Nat.not_lt.2 h)

theorem dimsStatic_iff : DimsStatic ds ↔ .dynamic ∉ ds :=
  ⟨fun h hd => h _ hd rfl, fun h _ hd heq => h (heq ▸ hd)⟩

/-! ## The exact product -/

/-- The product of the known extents, which is the number of elements if no extent is open. -/
def elements (ds : List Dim) : Nat :=
  (ds.filterMap Dim.known?).prod

@[simp] theorem elements_nil : elements [] = 1 := rfl

@[simp] theorem elements_known (n : Nat) (ds : List Dim) :
    elements (.known n :: ds) = n * elements ds :=
  List.prod_cons

@[simp] theorem elements_dynamic (ds : List Dim) : elements (.dynamic :: ds) = elements ds := rfl

@[simp] theorem elements_append (ds ds' : List Dim) :
    elements (ds ++ ds') = elements ds * elements ds' := by
  simp [elements]

theorem elements_perm (h : ds.Perm ds') : elements ds = elements ds' :=
  (h.filterMap _).prod_eq

theorem elements_eq_zero_iff : elements ds = 0 ↔ .known 0 ∈ ds := by
  simp only [elements, List.prod_eq_zero_iff, List.mem_filterMap]
  constructor
  · rintro ⟨d, hd, hzero⟩
    cases d with
    | dynamic => cases hzero
    | known n =>
      cases hzero
      exact hd
  · intro h
    exact ⟨_, h, rfl⟩

/-- What the extents multiply to: an open extent if one of them is open, and otherwise the exact
product, if it fits in 64 bits. -/
def exactProduct (ds : List Dim) : Except Defect Dim :=
  if .dynamic ∈ ds then .ok .dynamic
  else if elements ds < extentLimit then .ok (.known (elements ds))
  else .error .overflow

theorem exactProduct_perm (h : ds.Perm ds') : exactProduct ds = exactProduct ds' := by
  simp only [exactProduct, h.mem_iff, elements_perm h]

/-! ## What is multiplied on the way -/

/-- A product on the way from `acc` through the extents does not fit in 64 bits. -/
def OverflowsFrom (acc : Nat) (ds : List Dim) : Prop :=
  ∃ pre post, ds = pre ++ post ∧ DimsStatic pre ∧ extentLimit ≤ acc * elements pre

/-- Some of the extents, from the first on, are known and have a product that does not fit in 64
bits. -/
def Overflows (ds : List Dim) : Prop :=
  ∃ pre post, ds = pre ++ post ∧ DimsStatic pre ∧ extentLimit ≤ elements pre

theorem overflowsFrom_one_iff : OverflowsFrom 1 ds ↔ Overflows ds := by
  simp only [OverflowsFrom, Overflows, Nat.one_mul]

theorem OverflowsFrom.known {acc n : Nat} (h : OverflowsFrom (acc * n) ds) :
    OverflowsFrom acc (.known n :: ds) := by
  obtain ⟨pre, post, rfl, hpre, hle⟩ := h
  refine ⟨.known n :: pre, post, rfl, List.forall_mem_cons.2 ⟨by simp, hpre⟩, ?_⟩
  rwa [elements_known, ← Nat.mul_assoc]

theorem productFrom_of_overflows {acc : Nat} (hacc : acc < extentLimit)
    (h : OverflowsFrom acc ds) : productFrom acc ds = .error .overflow := by
  obtain ⟨pre, post, rfl, hpre, hle⟩ := h
  induction pre generalizing acc with
  | nil =>
    rw [elements_nil, Nat.mul_one] at hle
    exact absurd hacc (Nat.not_lt.2 hle)
  | cons d pre ih =>
    rw [DimsStatic, List.forall_mem_cons] at hpre
    cases d with
    | dynamic => exact absurd rfl hpre.1
    | known n =>
      rw [elements_known, ← Nat.mul_assoc] at hle
      rw [List.cons_append, productFrom]
      rcases Nat.lt_or_ge (acc * n) extentLimit with hlt | hge
      · rw [checkedMul_of_lt hlt]
        exact ih hlt hpre.2 hle
      · rw [checkedMul_of_le hge]

theorem productFrom_of_fits {acc : Nat} (h : ¬OverflowsFrom acc ds) :
    productFrom acc ds = .ok (if .dynamic ∈ ds then .dynamic else .known (acc * elements ds)) := by
  induction ds generalizing acc with
  | nil => simp [productFrom]
  | cons d ds ih =>
    cases d with
    | dynamic => simp [productFrom]
    | known n =>
      have hrest : ¬OverflowsFrom (acc * n) ds := fun hrest => h hrest.known
      have hlt : acc * n < extentLimit := by
        refine Nat.lt_of_not_le fun hle => hrest ⟨[], ds, rfl, by simp [DimsStatic], ?_⟩
        rwa [elements_nil, Nat.mul_one]
      rw [productFrom, checkedMul_of_lt hlt]
      dsimp only
      rw [ih hrest]
      simp [Nat.mul_assoc]

theorem product_of_overflows (h : Overflows ds) : product ds = .error .overflow :=
  productFrom_of_overflows (by decide) (overflowsFrom_one_iff.2 h)

theorem product_of_fits (h : ¬Overflows ds) :
    product ds = .ok (if .dynamic ∈ ds then .dynamic else .known (elements ds)) := by
  rw [product, productFrom_of_fits (mt overflowsFrom_one_iff.1 h), Nat.one_mul]

theorem product_eq_ok_iff {d : Dim} :
    product ds = .ok d ↔
      ¬Overflows ds ∧ d = if .dynamic ∈ ds then .dynamic else .known (elements ds) := by
  by_cases h : Overflows ds
  · simp [product_of_overflows h, h]
  · simp [product_of_fits h, h, eq_comm]

theorem product_eq_known_iff {p : Nat} :
    product ds = .ok (.known p) ↔ ¬Overflows ds ∧ DimsStatic ds ∧ p = elements ds := by
  rw [product_eq_ok_iff, dimsStatic_iff]
  split <;> simp [*]

/-- The exact product of known extents fits if every product on the way does. -/
theorem elements_lt (hds : DimsStatic ds) (h : ¬Overflows ds) : elements ds < extentLimit :=
  Nat.lt_of_not_le fun hle => h ⟨ds, [], by simp, hds, hle⟩

/-! ## Where the products on the way decide -/

/-- A product on the way does not fit, and behind it an extent is open or 0. -/
def StopsEarly (ds : List Dim) : Prop :=
  ∃ pre post, ds = pre ++ post ∧ DimsStatic pre ∧ extentLimit ≤ elements pre ∧
    (.dynamic ∈ post ∨ .known 0 ∈ post)

theorem StopsEarly.overflows (h : StopsEarly ds) : Overflows ds := by
  obtain ⟨pre, post, hds, hpre, hle, -⟩ := h
  exact ⟨pre, post, hds, hpre, hle⟩

theorem StopsEarly.exists_exactProduct (h : StopsEarly ds) : ∃ d, exactProduct ds = .ok d := by
  obtain ⟨pre, post, rfl, -, -, hpost⟩ := h
  unfold exactProduct
  split
  · exact ⟨_, rfl⟩
  · next hstatic =>
    rcases hpost with hopen | hzero
    · exact absurd (List.mem_append_right _ hopen) hstatic
    · have helements : elements (pre ++ post) = 0 :=
        elements_eq_zero_iff.2 (List.mem_append_right _ hzero)
      rw [helements, if_pos (by decide)]
      exact ⟨_, rfl⟩

/-- With no open extent and no 0 behind it, what is too large stays too large. -/
theorem exactProduct_of_overflows (h : Overflows ds) (hlate : ¬StopsEarly ds) :
    exactProduct ds = .error .overflow := by
  obtain ⟨pre, post, hds, hpre, hle⟩ := h
  have hpost : .dynamic ∉ post ∧ .known 0 ∉ post :=
    not_or.1 fun hpost => hlate ⟨pre, post, hds, hpre, hle, hpost⟩
  subst hds
  have hstatic : .dynamic ∉ pre ++ post := by
    rw [List.mem_append, not_or]
    exact ⟨dimsStatic_iff.1 hpre, hpost.1⟩
  have hpos : 0 < elements post := Nat.pos_of_ne_zero (mt elements_eq_zero_iff.1 hpost.2)
  have hlarge : extentLimit ≤ elements (pre ++ post) := by
    rw [elements_append]
    exact Nat.le_trans hle (Nat.le_mul_of_pos_right _ hpos)
  rw [exactProduct, if_neg hstatic, if_neg (Nat.not_lt.2 hlarge)]

theorem exactProduct_of_fits (h : ¬Overflows ds) :
    exactProduct ds = .ok (if .dynamic ∈ ds then .dynamic else .known (elements ds)) := by
  unfold exactProduct
  split
  · rfl
  · next hstatic =>
    rw [if_pos (elements_lt (dimsStatic_iff.2 hstatic) h)]

/-- The outcome is the one that the exact product calls for, unless the multiplication stops too
early. -/
theorem product_eq_exactProduct_iff : product ds = exactProduct ds ↔ ¬StopsEarly ds := by
  constructor
  · intro heq hearly
    obtain ⟨d, hd⟩ := hearly.exists_exactProduct
    rw [product_of_overflows hearly.overflows, hd] at heq
    cases heq
  · intro hlate
    by_cases h : Overflows ds
    · rw [product_of_overflows h, exactProduct_of_overflows h hlate]
    · rw [product_of_fits h, exactProduct_of_fits h]

/-- Extents in another order have the same product, unless the multiplication stops too early in
one of the orders and not in the other. -/
theorem product_eq_iff_of_perm (h : ds.Perm ds') :
    product ds = product ds' ↔ (StopsEarly ds ↔ StopsEarly ds') := by
  have hdiffer : ∀ {as bs : List Dim}, as.Perm bs → StopsEarly as → ¬StopsEarly bs →
      product as ≠ product bs := by
    intro as bs hperm hearly hlate heq
    obtain ⟨d, hd⟩ := hearly.exists_exactProduct
    rw [product_of_overflows hearly.overflows, product_eq_exactProduct_iff.2 hlate,
      ← exactProduct_perm hperm, hd] at heq
    cases heq
  by_cases hearly : StopsEarly ds <;> by_cases hearly' : StopsEarly ds'
  · simp [product_of_overflows hearly.overflows, product_of_overflows hearly'.overflows, *]
  · simp [hdiffer h hearly hearly', *]
  · simp [(hdiffer h.symm hearly' hearly).symm, *]
  · simp [product_eq_exactProduct_iff.2 hearly, product_eq_exactProduct_iff.2 hearly',
      exactProduct_perm h, *]

/-! ## Flattening -/

theorem batchFlatten_eq {i : Inputs} {batch : Dim} {rest : List Dim}
    (h : i.operandDims 0 = .ok (batch :: rest)) :
    batchFlatten i =
      Defect.lift (product rest) >>= fun flat => .ok (single [batch, flat]) := by
  unfold batchFlatten
  rw [h]
  change (Defect.lift (product rest >>= fun flat => .ok [batch, flat]) >>= fun ds =>
    .ok (single ds)) = _
  cases product rest <;> rfl

theorem rule?_batchFlatten :
    registry.rule? "relay.nn.batch_flatten" = some (ShapeRule.ofInputs batchFlatten) :=
  rule?_of_mem (o := operator "nn.batch_flatten" .injective (.ofInputs batchFlatten))
    (by simp [operators])

/-- **Products are exact unless they stop early.** The product of extents is open if one of them
is, and otherwise the exact product or, if that does not fit in 64 bits, an overflow, unless a
product on the way does not fit and an extent behind it is open or 0; then there is an overflow all
the same. So the order of the extents matters only if the multiplication stops early in one order
and not in the other. Flattening infers an open extent exactly if one of the extents to flatten is
open, and the exact product of them whenever it fits, with the same exception. -/
theorem product_exact_iff (ds : List Dim) :
    (product ds = exactProduct ds ↔ ¬StopsEarly ds) ∧
    (StopsEarly ds → product ds = .error .overflow) ∧
    (∀ ds', ds.Perm ds' → (product ds = product ds' ↔ (StopsEarly ds ↔ StopsEarly ds'))) ∧
    registry.rule? "relay.nn.batch_flatten" = some (ShapeRule.ofInputs batchFlatten) ∧
    ∀ (i : Inputs) (batch : Dim), i.operandDims 0 = .ok (batch :: ds) →
      (StopsEarly ds → batchFlatten i = .error Defect.overflow.fault) ∧
      (¬StopsEarly ds →
        (batchFlatten i = .ok (single [batch, .dynamic]) ↔ .dynamic ∈ ds) ∧
        (.dynamic ∉ ds → elements ds < extentLimit →
          batchFlatten i = .ok (single [batch, .known (elements ds)]))) := by
  refine ⟨product_eq_exactProduct_iff, fun h => product_of_overflows h.overflows,
    fun ds' h => product_eq_iff_of_perm h, rule?_batchFlatten, fun i batch h => ?_⟩
  rw [batchFlatten_eq h]
  constructor
  · intro hearly
    rw [product_of_overflows hearly.overflows]
    rfl
  · intro hlate
    rw [product_eq_exactProduct_iff.2 hlate]
    constructor
    · unfold exactProduct
      split
      · next hopen => exact iff_of_true rfl hopen
      · next hstatic =>
        refine iff_of_false ?_ hstatic
        split <;> rintro ⟨⟩
    · intro hstatic hlt
      rw [exactProduct, if_neg hstatic, if_pos hlt]
      rfl

/-- An extent of 0 in front of two extents that overflow, or between them, but not behind them. -/
theorem product_exact_iff_zero :
    let big : Dim := .known (2 ^ 63)
    let late : List Dim := [.known 0, big, .known 2]
    let later : List Dim := [big, .known 0, .known 2]
    let i : Inputs := ⟨[some (.tensor ⟨.f32, .known 3 :: late⟩)], ∅⟩
    (late.Perm later ∧ product late = product later) ∧
      i.operandDims 0 = .ok (.known 3 :: late) ∧
      batchFlatten i = .ok (single [.known 3, .known 0]) ∧
      late.Perm [big, .known 2, .known 0] ∧ product late ≠ product [big, .known 2, .known 0] := by
  intro big late later i
  obtain ⟨hexact, -, horder, -, hflatten⟩ := product_exact_iff late
  have hlate : ¬StopsEarly late := hexact.1 (by decide +kernel)
  have hlater : ¬StopsEarly later := (product_exact_iff later).1.1 (by decide +kernel)
  have hearly : StopsEarly [big, .known 2, .known 0] :=
    not_not.1 (mt (product_exact_iff _).1.2 (by decide +kernel))
  have hzero : elements late = 0 := by decide +kernel
  have hperm : late.Perm later := by decide
  have hperm' : late.Perm [big, .known 2, .known 0] := by decide
  refine ⟨⟨hperm, (horder _ hperm).2 (iff_of_false hlate hlater)⟩, rfl, ?_, hperm', ?_⟩
  · rw [← hzero]
    exact ((hflatten i _ rfl).2 hlate).2 (by decide) (by rw [hzero]; decide)
  · exact fun heq => hlate (((horder _ hperm').1 heq).2 hearly)

/-- An extent that is open, or 0, behind a product that is too large, and in front of it. -/
theorem product_stops_early :
    let big : Dim := .known (2 ^ 63)
    let i : Inputs := ⟨[some (.tensor ⟨.f32, [.known 1, big, .known 2, .dynamic]⟩)], ∅⟩
    (product [big, .known 2, .dynamic] = .error .overflow ∧
      product [.dynamic, big, .known 2] = .ok .dynamic) ∧
    (product [big, .known 2, .known 0] = .error .overflow ∧
      elements [big, .known 2, .known 0] < extentLimit ∧
      product [.known 0, big, .known 2] = .ok (.known 0)) ∧
    batchFlatten i = .error Defect.overflow.fault := by
  decide +kernel

end TensorIR.Relay
