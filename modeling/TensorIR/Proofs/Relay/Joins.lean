import Mathlib.Algebra.GroupWithZero.Nat
import Mathlib.Data.Set.List
import TensorIR.Proofs.Relay.Axes

/-!
# Joining in parts

Shapes of one rank are joined axis by axis: along one axis extents are added up, on all others they
must agree as far as they are known. What comes out, and whether anything does, can be said of the
extents on each axis alone (`concatenate_eq_ok_iff`).

An open extent counts for more than a sum that does not fit: in front of it every sum must fit, and
behind it none is formed. So a part can fail where the whole does not. If the later part does not
fail by itself, the parts can be joined first and then each other (`concatenate_in_parts`), since
joining regroups: this is a property of single extents (`merge?_regroup`) that shapes and lists of
shapes inherit (`foldlM_regroup`).
-/

namespace TensorIR.Relay

variable {axis k : Nat} {a b c ab bc abc r : Dim} {ds : List Dim}

/-! ## Two extents -/

/-- The extent of two parts, if it fits in 64 bits. -/
def join? (a b : Dim) : Option Dim :=
  (joinDim a b).toOption

@[simp] theorem join?_known (m n : Nat) :
    join? (.known m) (.known n) = if m + n < extentLimit then some (.known (m + n)) else none := by
  change ((if m + n < extentLimit then Except.ok (m + n) else .error .overflow).map
    Dim.known : Except Defect Dim).toOption = _
  split <;> rfl

@[simp] theorem join?_dynamic_left (b : Dim) : join? .dynamic b = some .dynamic := rfl

@[simp] theorem join?_dynamic_right (a : Dim) : join? a .dynamic = some .dynamic := by
  cases a <;> rfl

/-- The extent of two shapes that are joined along `axis`, on the axis at position `k`. -/
def merge? (axis k : Nat) (a b : Dim) : Option Dim :=
  if k = axis then join? a b else a.unify? b

theorem merge?_self : merge? axis axis = join? := by
  funext a b
  simp [merge?]

theorem merge?_of_ne (h : k ≠ axis) : merge? axis k = Dim.unify? := by
  funext a b
  simp [merge?, h]

theorem merge?_dynamic : merge? axis k .dynamic .dynamic = some .dynamic := by
  unfold merge?
  split <;> rfl

/-- Three extents, the last two of them first: it comes to the same if nothing fails. -/
theorem merge?_regroup (hab : merge? axis k a b = some ab) (habc : merge? axis k ab c = some abc)
    (hbc : merge? axis k b c = some bc) : merge? axis k a bc = some abc := by
  -- that the limit is a number of many digits does not matter
  generalize hlimit : extentLimit = limit
  unfold merge? at *
  split at hab
  · cases a <;> cases b <;> cases c <;> grind [join?_known, join?_dynamic_left, join?_dynamic_right]
  · cases a <;> cases b <;> cases c <;> grind [Dim.unify?]

/-! ## The extents on one axis -/

/-- What regroups for three regroups for any number. -/
theorem foldlM_regroup {α : Type} {op : α → α → Option α}
    (hop : ∀ {a b c ab bc abc}, op a b = some ab → op ab c = some abc → op b c = some bc →
      op a bc = some abc)
    {a b ab r e : α} {cs : List α} (hab : op a b = some ab) (hr : cs.foldlM op ab = some r)
    (he : cs.foldlM op b = some e) : op a e = some r := by
  induction cs generalizing b ab with
  | nil =>
    cases hr
    cases he
    exact hab
  | cons c cs ih =>
    rw [List.foldlM_cons] at hr he
    obtain ⟨abc, habc, hr⟩ := Option.bind_eq_some_iff.1 hr
    obtain ⟨bc, hbc, he⟩ := Option.bind_eq_some_iff.1 he
    exact ih (hop hab habc hbc) hr he

/-- The sum of the known extents. -/
def extentSum (ds : List Dim) : Nat :=
  (ds.filterMap Dim.known?).sum

@[simp] theorem extentSum_nil : extentSum [] = 0 := rfl

@[simp] theorem extentSum_known (n : Nat) (ds : List Dim) :
    extentSum (.known n :: ds) = n + extentSum ds :=
  List.sum_cons

/-- Every sum of two or more extents, from the first to before an open one, fits in 64 bits. -/
def SumsFit (ds : List Dim) : Prop :=
  ∀ pre post, ds = pre ++ post → 2 ≤ pre.length → .dynamic ∉ pre → extentSum pre < extentLimit

/-- No sum is formed of a single extent. -/
theorem sumsFit_singleton (a : Dim) : SumsFit [a] := by
  intro pre post hds hlen
  have hlength := congrArg List.length hds
  rw [List.length_singleton, List.length_append] at hlength
  omega

/-- What joins to an open extent is not added up. -/
theorem sumsFit_of_dynamic (h : a = .dynamic ∨ b = .dynamic) : SumsFit (a :: b :: ds) := by
  intro pre post hds hlen hpre
  rcases pre with _ | ⟨a', _ | ⟨b', pre⟩⟩
  · simp at hlen
  · simp at hlen
  · simp only [List.cons_append, List.cons.injEq] at hds
    obtain ⟨rfl, rfl, -⟩ := hds
    rcases h with rfl | rfl <;> simp at hpre

/-- The first two extents may be added up. -/
theorem sumsFit_known {m n : Nat} :
    SumsFit (.known m :: .known n :: ds) ↔
      m + n < extentLimit ∧ SumsFit (.known (m + n) :: ds) := by
  constructor
  · intro h
    constructor
    · have hfit := h [.known m, .known n] ds rfl (by simp) (by simp)
      simpa only [extentSum_known, extentSum_nil, Nat.add_zero] using hfit
    · intro pre post hds hlen hpre
      rcases pre with _ | ⟨d, pre⟩
      · simp at hlen
      · simp only [List.cons_append, List.cons.injEq] at hds
        obtain ⟨rfl, rfl⟩ := hds
        have hfit := h (.known m :: .known n :: pre) post rfl (by simp) (by simpa using hpre)
        simpa only [extentSum_known, Nat.add_assoc] using hfit
  · rintro ⟨hlt, h⟩ pre post hds hlen hpre
    rcases pre with _ | ⟨d, _ | ⟨d', pre⟩⟩
    · simp at hlen
    · simp at hlen
    · simp only [List.cons_append, List.cons.injEq] at hds
      obtain ⟨rfl, rfl, rfl⟩ := hds
      rcases pre with _ | ⟨d'', pre⟩
      · simpa only [extentSum_known, extentSum_nil, Nat.add_zero] using hlt
      · have hfit := h (.known (m + n) :: d'' :: pre) post rfl (by simp) (by simpa using hpre)
        simpa only [extentSum_known, Nat.add_assoc] using hfit

/-- Along the axis of concatenation: the exact sum, unless an extent is open. -/
theorem foldlM_join? :
    ds.foldlM join? a = some r ↔
      SumsFit (a :: ds) ∧
        r = if .dynamic ∈ a :: ds then .dynamic else .known (extentSum (a :: ds)) := by
  induction ds generalizing a with
  | nil => cases a <;> simp [sumsFit_singleton, eq_comm]
  | cons b ds ih =>
    rw [List.foldlM_cons]
    by_cases hopen : a = .dynamic ∨ b = .dynamic
    · have hjoin : join? a b = some .dynamic := by rcases hopen with rfl | rfl <;> simp
      have hmem : Dim.dynamic ∈ a :: b :: ds := by rcases hopen with rfl | rfl <;> simp
      have hfit : SumsFit (.dynamic :: ds) := by
        cases ds with
        | nil => exact sumsFit_singleton _
        | cons d ds => exact sumsFit_of_dynamic (.inl rfl)
      rw [hjoin, Option.bind_eq_bind, Option.bind_some, ih, if_pos hmem,
        if_pos List.mem_cons_self]
      exact and_congr_left' (iff_of_true hfit (sumsFit_of_dynamic hopen))
    · cases a with
      | dynamic => simp at hopen
      | known m =>
        cases b with
        | dynamic => simp at hopen
        | known n =>
          rw [sumsFit_known, join?_known]
          by_cases hlt : m + n < extentLimit
          · rw [if_pos hlt, Option.bind_eq_bind, Option.bind_some, ih]
            simp only [hlt, List.mem_cons, reduceCtorEq, false_or, extentSum_known, Nat.add_assoc,
              true_and]
          · simp only [hlt, if_false, Option.bind_eq_bind, Option.bind_none, reduceCtorEq,
              false_and]

/-- One extent of which there are several accounts, all of which agree as far as they go. -/
@[mk_iff]
structure Common (ds : List Dim) (d : Dim) : Prop where
  agree : ∀ x ∈ ds, x = .dynamic ∨ x = d
  dynamic_iff : d = .dynamic ↔ ∀ x ∈ ds, x = .dynamic

theorem common_singleton_iff : Common [a] r ↔ a = r := by
  simp only [common_iff, List.forall_mem_singleton]
  grind

theorem common_pair_iff : Common [a, b] c ↔ a.unify? b = some c := by
  simp only [common_iff, List.forall_mem_cons]
  cases a <;> cases b <;> cases c <;> grind [Dim.unify?]

/-- The first two accounts may be put together. -/
theorem common_cons_cons_iff :
    Common (a :: b :: ds) r ↔ ∃ c, Common [a, b] c ∧ Common (c :: ds) r := by
  simp only [common_iff, List.forall_mem_cons]
  constructor
  · rintro ⟨⟨ha, hb, hds⟩, hopen⟩
    by_cases hdynamic : a = .dynamic
    · exact ⟨b, by grind, by grind⟩
    · exact ⟨a, by grind, by grind⟩
  · rintro ⟨c, ⟨⟨ha, hb⟩, hc⟩, ⟨hcr, hds⟩, hopen⟩
    grind

/-- On any other axis: the common extent. -/
theorem foldlM_unify? : ds.foldlM Dim.unify? a = some r ↔ Common (a :: ds) r := by
  induction ds generalizing a with
  | nil => rw [common_singleton_iff, List.foldlM_nil, Option.pure_def, Option.some.injEq]
  | cons b ds ih =>
    rw [List.foldlM_cons, Option.bind_eq_bind, Option.bind_eq_some_iff, common_cons_cons_iff]
    simp only [common_pair_iff, ih]

/-! ## Shapes -/

variable {s t u out : List Dim} {shapes : List (List Dim)}

/-- The extent on the axis at a position, an open one behind the last axis. -/
def extentAt (k : Nat) (s : List Dim) : Dim :=
  s.getD k .dynamic

theorem extentAt_of_le (h : s.length ≤ k) : extentAt k s = .dynamic := by
  rw [extentAt, List.getD_eq_getElem?_getD, List.getElem?_eq_none h, Option.getD_none]

/-- A shape is made of its extents. -/
theorem exists_shape {n : Nat} {d : Nat → Dim} (h : ∀ k, n ≤ k → d k = .dynamic) :
    ∃ s : List Dim, s.length = n ∧ ∀ k, extentAt k s = d k := by
  refine ⟨(List.range n).map d, by simp, fun k => ?_⟩
  rcases Nat.lt_or_ge k n with hk | hk
  · simp [extentAt, hk]
  · rw [extentAt_of_le (by simpa using hk), h k hk]

theorem joinDims_cons_eq_ok_iff {operand position : Nat} :
    joinDims operand axis position (a :: s) (b :: t) = .ok out ↔
      ∃ d u, merge? axis position a b = some d ∧ joinDims operand axis (position + 1) s t = .ok u ∧
        d :: u = out := by
  rw [joinDims, merge?]
  by_cases haxis : position = axis
  · rw [if_pos haxis, if_pos haxis]
    simp only [join?, Fallible.toOption_eq_some_iff, Fallible.bind_eq_ok_iff, pure, Except.pure,
      Except.ok.injEq, exists_and_left]
  · rw [if_neg haxis, if_neg haxis]
    cases a.unify? b with
    | none => simp only [Fallible.bind_eq_ok_iff, reduceCtorEq, false_and, exists_false]
    | some d =>
      simp only [Fallible.bind_eq_ok_iff, pure, Except.pure, Except.ok.injEq, Option.some.injEq,
        exists_and_left, exists_eq_left']

/-- An operand is joined if each of its extents can be. -/
theorem joinDims_eq_ok_iff {operand position : Nat} (hlen : t.length = s.length) :
    joinDims operand axis position s t = .ok u ↔
      u.length = s.length ∧
        ∀ k, merge? axis (position + k) (extentAt k s) (extentAt k t) = some (extentAt k u) := by
  induction s generalizing t u position with
  | nil =>
    obtain rfl := List.length_eq_zero_iff.1 hlen
    change Except.ok [] = Except.ok u ↔ _
    rw [Except.ok.injEq, List.length_nil, List.length_eq_zero_iff, eq_comm, iff_self_and]
    rintro rfl k
    exact merge?_dynamic
  | cons a s ih =>
    cases t with
    | nil => cases hlen
    | cons b t =>
      have hrest {u : List Dim} : joinDims operand axis (position + 1) s t = .ok u ↔
          u.length = s.length ∧
            ∀ k, merge? axis (position + 1 + k) (extentAt k s) (extentAt k t) =
              some (extentAt k u) :=
        ih (Nat.succ.inj hlen)
      rw [joinDims_cons_eq_ok_iff]
      constructor
      · rintro ⟨d, u, hd, hu, rfl⟩
        obtain ⟨hlength, hu⟩ := hrest.1 hu
        refine ⟨congrArg Nat.succ hlength, fun k => ?_⟩
        cases k with
        | zero => exact hd
        | succ k =>
          rw [Nat.add_succ, ← Nat.succ_add]
          exact hu k
      · rintro ⟨hlength, h⟩
        cases u with
        | nil => cases hlength
        | cons d u =>
          refine ⟨d, u, h 0, hrest.2 ⟨Nat.succ.inj hlength, fun k => ?_⟩, rfl⟩
          have hk := h (k + 1)
          rwa [Nat.add_succ, ← Nat.succ_add] at hk

/-- Two shapes of one rank, joined. -/
def merged? (axis : Nat) (s t : List Dim) : Option (List Dim) :=
  if t.length = s.length then (joinDims 0 axis 0 s t).toOption else none

theorem merged?_eq_some_iff :
    merged? axis s t = some u ↔
      t.length = s.length ∧ u.length = s.length ∧
        ∀ k, merge? axis k (extentAt k s) (extentAt k t) = some (extentAt k u) := by
  unfold merged?
  split
  · next hlen =>
    rw [Fallible.toOption_eq_some_iff, joinDims_eq_ok_iff hlen]
    simp only [hlen, true_and, Nat.zero_add]
  · next hlen => simp [hlen]

theorem merged?_regroup {s t u st tu stu : List Dim} (hst : merged? axis s t = some st)
    (hstu : merged? axis st u = some stu) (htu : merged? axis t u = some tu) :
    merged? axis s tu = some stu := by
  obtain ⟨ht, hst, hfirst⟩ := merged?_eq_some_iff.1 hst
  obtain ⟨-, hstu, hboth⟩ := merged?_eq_some_iff.1 hstu
  obtain ⟨-, htu, hlast⟩ := merged?_eq_some_iff.1 htu
  refine merged?_eq_some_iff.2 ⟨by omega, by omega, fun k => ?_⟩
  exact merge?_regroup (hfirst k) (hboth k) (hlast k)

/-- The extents of shapes on the axis at a position. -/
def column (k : Nat) (shapes : List (List Dim)) : List Dim :=
  shapes.map (extentAt k)

theorem eq_iff_extentAt : s = t ↔ t.length = s.length ∧ ∀ k, extentAt k s = extentAt k t := by
  constructor
  · rintro rfl
    exact ⟨rfl, fun _ => rfl⟩
  · rintro ⟨hlen, h⟩
    refine List.ext_getElem hlen.symm fun k hs ht => ?_
    simpa [extentAt, hs, ht] using h k

/-- Shapes are joined axis by axis. -/
theorem foldlM_merged? :
    shapes.foldlM (merged? axis) s = some out ↔
      (∀ t ∈ shapes, t.length = s.length) ∧ out.length = s.length ∧
        ∀ k, (column k shapes).foldlM (merge? axis k) (extentAt k s) = some (extentAt k out) := by
  induction shapes generalizing s with
  | nil =>
    simp only [column, List.foldlM_nil, List.map_nil, Option.pure_def, Option.some.injEq,
      List.not_mem_nil, false_imp_iff, implies_true, true_and]
    exact eq_iff_extentAt
  | cons t shapes ih =>
    simp only [column, List.foldlM_cons, List.map_cons, Option.bind_eq_bind,
      Option.bind_eq_some_iff, List.forall_mem_cons, ih, merged?_eq_some_iff]
    constructor
    · rintro ⟨u, ⟨hlen, hlen', hu⟩, hlens, hout, hk⟩
      rw [hlen'] at hlens hout
      exact ⟨⟨hlen, hlens⟩, hout, fun k => ⟨_, hu k, hk k⟩⟩
    · rintro ⟨⟨hlen, hlens⟩, hout, hk⟩
      choose d hd hrest using hk
      have hopen : ∀ k, s.length ≤ k → d k = .dynamic := by
        intro k hle
        have hdk := hd k
        rw [extentAt_of_le hle, extentAt_of_le (hlen ▸ hle), merge?_dynamic] at hdk
        exact (Option.some.inj hdk).symm
      obtain ⟨u, hu, hextent⟩ := exists_shape hopen
      refine ⟨u, ⟨hlen, hu, fun k => ?_⟩, ?_, ?_, fun k => ?_⟩
      · rw [hd k, hextent k]
      · rwa [hu]
      · rwa [hu]
      · rw [hextent k]
        exact hrest k

/-! ## Operands -/

variable {i : Inputs} {ts : List TensorTy} {t : TensorTy} {attributes : Attributes}

/-- The inputs of an operation on tensors. -/
def onTensors (ts : List TensorTy) (attributes : Attributes) : Inputs :=
  ⟨ts.map fun t => some (.tensor t), attributes⟩

theorem operandDims_eq_ok_iff {k : Nat} {s : List Dim} :
    i.operandDims k = .ok s ↔ ∃ t, i.operands[k]? = some (some (.tensor t)) ∧ t.dims = s := by
  rw [Inputs.operandDims, Fallible.map_eq_ok_iff]
  refine exists_congr fun t => and_congr_left' ?_
  unfold Inputs.operandTensor Inputs.operandTy
  rcases i.operands[k]? with _ | _ | (element | t') <;> simp [Ty.tensor?]

theorem operandDims_onTensors {k : Nat} (h : ts[k]? = some t) :
    (onTensors ts attributes).operandDims k = .ok t.dims :=
  operandDims_eq_ok_iff.2 ⟨t, by simp [onTensors, h], rfl⟩

/-- If the dimensions of all operands can be read, these are tensors. -/
theorem exists_onTensors (h : ∀ k < i.operandCount, ∃ s, i.operandDims k = .ok s) :
    ∃ ts, i = onTensors ts i.attributes := by
  have hrange : i.operands ∈ Set.range (List.map fun t => some (Ty.tensor t)) := by
    rw [Set.range_list_map]
    intro operand hmem
    obtain ⟨k, hk, rfl⟩ := List.getElem_of_mem hmem
    obtain ⟨s, hs⟩ := h k hk
    obtain ⟨t, ht, -⟩ := operandDims_eq_ok_iff.1 hs
    rw [List.getElem?_eq_getElem hk] at ht
    exact ⟨t, (Option.some.inj ht).symm⟩
  obtain ⟨ts, hts⟩ := hrange
  exact ⟨ts, by rw [onTensors, hts]⟩

theorem operandDims_of_joinRest {joined : List Dim} {operand count : Nat}
    (h : joinRest i axis joined operand count = .ok out) :
    ∀ k < count, ∃ s, i.operandDims (operand + k) = .ok s := by
  induction count generalizing joined operand with
  | zero => simp
  | succ count ih =>
    rw [joinRest] at h
    obtain ⟨dims, hdims, h⟩ := Fallible.bind_eq_ok_iff.1 h
    split at h
    · cases h
    · obtain ⟨joined', -, h⟩ := Fallible.bind_eq_ok_iff.1 h
      intro k hk
      cases k with
      | zero => exact ⟨dims, hdims⟩
      | succ k =>
        rw [Nat.add_succ, ← Nat.succ_add]
        exact ih h k (Nat.lt_of_succ_lt_succ hk)

/-- Operands are joined one after the other. -/
theorem joinRest_eq_ok_iff {joined : List Dim} {operand : Nat}
    (h : ∀ k s, shapes[k]? = some s → i.operandDims (operand + k) = .ok s) :
    joinRest i axis joined operand shapes.length = .ok out ↔
      shapes.foldlM (merged? axis) joined = some out := by
  induction shapes generalizing joined operand with
  | nil => rw [List.length_nil, joinRest, List.foldlM_nil, Option.pure_def, Except.ok.injEq,
      Option.some.injEq]
  | cons s shapes ih =>
    have hrest : ∀ k s, shapes[k]? = some s → i.operandDims (operand + 1 + k) = .ok s := by
      intro k s hs
      rw [Nat.add_right_comm]
      exact h (k + 1) s hs
    have hfirst : i.operandDims operand = .ok s := h 0 s rfl
    rw [List.length_cons, joinRest, hfirst, List.foldlM_cons, Option.bind_eq_bind,
      Option.bind_eq_some_iff]
    change (if s.length ≠ joined.length then _ else _) = _ ↔ _
    split
    · next hlen => simp [merged?, hlen, Defect.fail]
    · next hlen =>
      have hlen : s.length = joined.length := not_not.1 hlen
      rw [Fallible.bind_eq_ok_iff]
      refine exists_congr fun u => and_congr ?_ (ih hrest)
      rw [Defect.lift, Fallible.mapError_eq_ok_iff, joinDims_eq_ok_iff hlen, merged?_eq_some_iff]
      simp only [hlen, true_and, Nat.zero_add]

/-- The rule succeeds if it finds an axis and the shapes of all operands can be joined along it. -/
theorem concatenate_cons_eq_ok_iff {r : List Component} :
    concatenate (onTensors (t :: ts) attributes) = .ok r ↔
      ∃ number, (onTensors (t :: ts) attributes).attrD Attr.toInt "axis" 0 = .ok number ∧
        ∃ axis, normalizeAxis number t.dims.length = .ok axis ∧
          ∃ out, (ts.map TensorTy.dims).foldlM (merged? axis) t.dims = some out ∧
            single out = r := by
  have hcount : (onTensors (t :: ts) attributes).operandCount - 1 =
      (ts.map TensorTy.dims).length := by
    simp [onTensors, Inputs.operandCount]
  have hrest : ∀ k s, (ts.map TensorTy.dims)[k]? = some s →
      (onTensors (t :: ts) attributes).operandDims (1 + k) = .ok s := by
    intro k s hs
    rw [List.getElem?_map, Option.map_eq_some_iff] at hs
    obtain ⟨t', ht', rfl⟩ := hs
    refine operandDims_onTensors ?_
    rwa [Nat.add_comm, List.getElem?_cons_succ]
  unfold concatenate
  rw [if_neg (by simp [onTensors, Inputs.operandCount]), operandDims_onTensors (t := t) rfl, hcount]
  change (_ >>= _) = _ ↔ _
  simp only [Fallible.bind_eq_ok_iff, Defect.lift, Fallible.mapError_eq_ok_iff,
    joinRest_eq_ok_iff hrest, pure, Except.pure, Except.ok.injEq, exists_eq_left']

/-! ## Joined shapes -/

/-- What comes out when shapes are joined along an axis. -/
structure Joined (axis : Nat) (shapes : List (List Dim)) (out : List Dim) : Prop where
  nonempty : shapes ≠ []
  axis_lt : axis < out.length
  /-- All shapes have one rank. -/
  rank : ∀ s ∈ shapes, s.length = out.length
  /-- The shapes agree on every other axis, and what is known there of one of them comes out. -/
  common : ∀ k ≠ axis, Common (column k shapes) (extentAt k out)
  /-- Along the axis the exact sum comes out, unless an extent is open. -/
  along : extentAt axis out =
    if .dynamic ∈ column axis shapes then .dynamic else .known (extentSum (column axis shapes))
  fits : SumsFit (column axis shapes)

theorem joined_cons_iff :
    Joined axis (s :: shapes) out ↔
      axis < s.length ∧ shapes.foldlM (merged? axis) s = some out := by
  rw [foldlM_merged?]
  constructor
  · rintro ⟨-, haxis, hrank, hcommon, halong, hfits⟩
    rw [List.forall_mem_cons] at hrank
    refine ⟨hrank.1 ▸ haxis, fun t ht => (hrank.2 t ht).trans hrank.1.symm, hrank.1.symm,
      fun k => ?_⟩
    by_cases hk : k = axis
    · subst hk
      rw [merge?_self]
      exact foldlM_join?.2 ⟨hfits, halong⟩
    · rw [merge?_of_ne hk]
      exact foldlM_unify?.2 (hcommon k hk)
  · rintro ⟨haxis, hlens, hlen, hk⟩
    have halong := hk axis
    rw [merge?_self, foldlM_join?] at halong
    refine ⟨by simp, hlen ▸ haxis, ?_, fun k hne => ?_, halong.2, halong.1⟩
    · rw [List.forall_mem_cons, hlen]
      exact ⟨rfl, hlens⟩
    · have hcommon := hk k
      rw [merge?_of_ne hne, foldlM_unify?] at hcommon
      exact hcommon

theorem rule?_concatenate :
    registry.rule? "relay.concatenate" = some (ShapeRule.ofInputs concatenate) :=
  rule?_of_mem (o := operator "concatenate" .injective (.ofInputs concatenate))
    (by simp [operators])

/-- The rule succeeds if all operands are tensors and can be joined along the axis that the
attributes name, and infers what comes out. -/
theorem concatenate_eq_ok_iff {r : List Component} :
    concatenate i = .ok r ↔
      ∃ ts number axis out, i = onTensors ts i.attributes ∧
        i.attrD Attr.toInt "axis" 0 = .ok number ∧ fromFront out.length number = (axis : Nat) ∧
          Joined axis (ts.map TensorTy.dims) out ∧ r = single out := by
  constructor
  · intro h
    obtain ⟨ts, hts⟩ : ∃ ts, i = onTensors ts i.attributes := by
      have hok := h
      unfold concatenate at hok
      split at hok
      · cases hok
      · next hcount =>
        obtain ⟨first, hfirst, hok⟩ := Fallible.bind_eq_ok_iff.1 hok
        obtain ⟨number, -, hok⟩ := Fallible.bind_eq_ok_iff.1 hok
        obtain ⟨axis, -, hok⟩ := Fallible.bind_eq_ok_iff.1 hok
        obtain ⟨out, hrest, -⟩ := Fallible.bind_eq_ok_iff.1 hok
        refine exists_onTensors fun k hk => ?_
        cases k with
        | zero => exact ⟨first, hfirst⟩
        | succ k =>
          rw [Nat.add_comm]
          exact operandDims_of_joinRest hrest k (by omega)
    cases ts with
    | nil =>
      rw [hts] at h
      cases h
    | cons t ts =>
      rw [hts, concatenate_cons_eq_ok_iff] at h
      obtain ⟨number, hnumber, axis, haxis, out, hout, rfl⟩ := h
      obtain ⟨hplace, hlt⟩ := normalizeAxis_eq_ok_iff.1 haxis
      have hjoined : Joined axis ((t :: ts).map TensorTy.dims) out := joined_cons_iff.2 ⟨hlt, hout⟩
      rw [hjoined.rank _ List.mem_cons_self] at hplace
      rw [← hts] at hnumber
      exact ⟨t :: ts, number, axis, out, hts, hnumber, hplace, hjoined, rfl⟩
  · rintro ⟨ts, number, axis, out, hts, hnumber, hplace, hjoined, rfl⟩
    cases ts with
    | nil => exact absurd rfl hjoined.nonempty
    | cons t ts =>
      rw [hts] at hnumber ⊢
      rw [← hjoined.rank _ List.mem_cons_self] at hplace
      obtain ⟨hlt, hout⟩ := joined_cons_iff.1 hjoined
      exact concatenate_cons_eq_ok_iff.2
        ⟨number, hnumber, axis, normalizeAxis_eq_ok_iff.2 ⟨hplace, hlt⟩, out, hout, rfl⟩

/-- **Concatenation can be done in parts.** The rule succeeds exactly if its operands are tensors
whose shapes can be joined along the axis that is asked for. If it succeeds on two lists of tensors
together and on the second list alone, it succeeds on the first list alone, and joining what comes
out of the two lists gives what comes out of both together. -/
theorem concatenate_in_parts :
    registry.rule? "relay.concatenate" = some (ShapeRule.ofInputs concatenate) ∧
    (∀ i r, concatenate i = .ok r ↔
      ∃ ts number axis out, i = onTensors ts i.attributes ∧
        i.attrD Attr.toInt "axis" 0 = .ok number ∧ fromFront out.length number = (axis : Nat) ∧
          Joined axis (ts.map TensorTy.dims) out ∧ r = single out) ∧
    ∀ attributes xs ys r e, xs ≠ [] → ys ≠ [] →
      concatenate (onTensors (xs ++ ys) attributes) = .ok r →
      concatenate (onTensors ys attributes) = .ok e →
      ∃ d d', concatenate (onTensors xs attributes) = .ok (single d) ∧ e = single d' ∧
        ∀ element element',
          concatenate (onTensors [⟨element, d⟩, ⟨element', d'⟩] attributes) = .ok r := by
  refine ⟨rule?_concatenate, fun i r => concatenate_eq_ok_iff, ?_⟩
  intro attributes xs ys r e hxs hys hr he
  obtain ⟨x, xs, rfl⟩ := List.exists_cons_of_ne_nil hxs
  obtain ⟨y, ys, rfl⟩ := List.exists_cons_of_ne_nil hys
  rw [List.cons_append, concatenate_cons_eq_ok_iff] at hr
  obtain ⟨number, hnumber, axis, haxis, out, hout, rfl⟩ := hr
  obtain ⟨number', hnumber', axis', haxis', d', hd', rfl⟩ := concatenate_cons_eq_ok_iff.1 he
  obtain rfl : number = number' := Except.ok.inj (hnumber.symm.trans hnumber')
  rw [List.map_append, List.map_cons, List.foldlM_append] at hout
  obtain ⟨d, hd, hout⟩ := Option.bind_eq_some_iff.1 hout
  rw [List.foldlM_cons] at hout
  obtain ⟨dy, hdy, hout⟩ := Option.bind_eq_some_iff.1 hout
  have hlen : d.length = x.dims.length := (foldlM_merged?.1 hd).2.1
  have hleny : y.dims.length = d.length := (merged?_eq_some_iff.1 hdy).1
  obtain rfl : axis = axis' := by
    rw [hleny, hlen] at haxis'
    exact Except.ok.inj (haxis.symm.trans haxis')
  have hboth : merged? axis d d' = some out := foldlM_regroup merged?_regroup hdy hout hd'
  refine ⟨d, d', ?_, rfl, fun element element' => ?_⟩
  · exact concatenate_cons_eq_ok_iff.2 ⟨number, hnumber, axis, haxis, d, hd, rfl⟩
  · refine concatenate_cons_eq_ok_iff.2 ⟨number, hnumber, axis, ?_, out, ?_, rfl⟩
    · rwa [hlen]
    · rw [List.map_singleton, List.foldlM_cons, hboth]
      rfl

/-- Two parts of two operands each, with extents that are open in one of them only, along the
first of two axes, counted from the back. -/
theorem concatenate_in_parts_open :
    let tensor (rows columns : Dim) : TensorTy := ⟨.f32, [rows, columns]⟩
    let attributes : Attributes := StringMap.ofList [("axis", .int (-2))]
    let xs := [tensor (.known 1) .dynamic, tensor (.known 2) (.known 5)]
    let ys := [tensor .dynamic .dynamic, tensor (.known 4) (.known 5)]
    let r := single [.dynamic, .known 5]
    concatenate (onTensors (xs ++ ys) attributes) = .ok r ∧
      concatenate (onTensors ys attributes) = .ok r ∧
      concatenate (onTensors xs attributes) = .ok (single [.known 3, .known 5]) ∧
      concatenate (onTensors [⟨.i64, [.known 3, .known 5]⟩, ⟨.f32, [.dynamic, .known 5]⟩]
        attributes) = .ok r := by
  intro tensor attributes xs ys r
  have hr : concatenate (onTensors (xs ++ ys) attributes) = .ok r := by decide +kernel
  have he : concatenate (onTensors ys attributes) = .ok r := by decide +kernel
  obtain ⟨-, -, hparts⟩ := concatenate_in_parts
  obtain ⟨d, d', hd, hd', hboth⟩ := hparts attributes xs ys r r (by simp [xs]) (by simp [ys]) hr he
  have hxs : concatenate (onTensors xs attributes) = .ok (single [.known 3, .known 5]) := by
    decide +kernel
  cases hxs.symm.trans hd
  obtain rfl : [.dynamic, .known 5] = d' := by simpa [r, single] using hd'
  exact ⟨hr, he, hxs, hboth _ _⟩

/-- The second part must not fail by itself: behind an open extent its sum is not formed. -/
example :
    let tensor (n : Dim) : TensorTy := ⟨.f32, [n]⟩
    let xs := [tensor .dynamic]
    let ys := [tensor (.known (extentLimit - 1)), tensor (.known 1)]
    concatenate (onTensors (xs ++ ys) ∅) = .ok (single [.dynamic]) ∧
      concatenate (onTensors ys ∅) = .error Defect.overflow.fault := by
  decide +kernel

end TensorIR.Relay
