import TensorIR.Proofs.Relay.Products
import TensorIR.Proofs.Relay.Rank

/-!
# What new shapes stand for

The entries of a new shape are read with an index into the operand. It is the number of entries
read so far, up to the first entry -2, and at the end of the operand or further from there on
(`Reading`). So what an entry stands for depends on the entries before it alone (`standsFor`), and
the entries are laid out exactly if they are legible (`layOut_eq_ok_iff`).

What is then accepted is decided by the exact numbers of elements, as long as the products fit in
64 bits. An extent is inferred if exactly one keeps the number of elements
(`reshapeDims_infer_iff`); beside an extent of 0 none does, or all do.
-/

namespace TensorIR.Relay

variable {input : List Dim} {done rest newshape : List Int}

/-! ## Entries -/

/-- What an entry stands for behind the entries `before`, `none` being the extent to infer. -/
def standsFor (input : List Dim) (before : List Int) (entry : Int) : List (Option Dim) :=
  if 0 < entry then [some (.known entry.toNat)]
  else if entry = 0 then input[before.length]?.toList.map some
  else if entry = -1 then [none]
  else if -2 ∈ before then []
  else (input.drop before.length).map some

/-- What the entries behind `done` stand for. -/
def spellOut (input : List Dim) (done : List Int) : List Int → List (Option Dim)
  | [] => []
  | entry :: rest => standsFor input done entry ++ spellOut input (done ++ [entry]) rest

/-- The entries `rest` can be read behind the entries `done`: no entry is less than -2, one at most
is to be inferred, and 0 stands before all -2 and where the operand has an extent. -/
structure Legible (input : List Dim) (done rest : List Int) : Prop where
  supported : ∀ entry ∈ rest, -2 ≤ entry
  once : (done ++ rest).count (-1) ≤ 1
  copied : ∀ k, rest[k]? = some 0 → done.length + k < input.length ∧ -2 ∉ done ++ rest.take k

theorem legible_cons_iff {entry : Int} :
    Legible input done (entry :: rest) ↔
      -2 ≤ entry ∧ (entry = 0 → done.length < input.length ∧ -2 ∉ done) ∧
        Legible input (done ++ [entry]) rest := by
  constructor
  · rintro ⟨hsupported, honce, hcopied⟩
    rw [List.forall_mem_cons] at hsupported
    refine ⟨hsupported.1, fun hzero => ?_, hsupported.2, by simpa using honce, fun k hk => ?_⟩
    · simpa using hcopied 0 (by simp [hzero])
    · simpa [Nat.add_assoc, Nat.add_comm 1] using hcopied (k + 1) (by simpa using hk)
  · rintro ⟨hentry, hzero, hsupported, honce, hcopied⟩
    refine ⟨List.forall_mem_cons.2 ⟨hentry, hsupported⟩, by simpa using honce, fun k hk => ?_⟩
    cases k with
    | zero => simpa using hzero (by simpa using hk)
    | succ k => simpa [Nat.add_assoc, Nat.add_comm 1] using hcopied k (by simpa using hk)

/-! ## Reading on -/

/-- Where reading has got to behind the entries `done`: the index into the operand, and whether an
extent may still be inferred. -/
structure Reading (input : List Dim) (done : List Int) (source : Nat) (vacant : Bool) : Prop where
  source_eq : -2 ∉ done → source = done.length
  used_up : -2 ∈ done → input.length ≤ source
  inferred : done.count (-1) = if vacant then 0 else 1

namespace Reading

variable {source : Nat} {vacant : Bool}

theorem start : Reading input [] 0 true where
  source_eq _ := rfl
  used_up h := by cases h
  inferred := rfl

theorem next (h : Reading input done source vacant) {entry : Int} (hentry : entry ≠ -1)
    (hentry' : entry ≠ -2) : Reading input (done ++ [entry]) (source + 1) vacant where
  source_eq hnot := by
    rw [h.source_eq fun hmem => hnot (List.mem_append_left _ hmem), List.length_append]
    rfl
  used_up hmem := by
    have hdone : -2 ∈ done := by simpa [hentry'.symm] using hmem
    exact Nat.le_succ_of_le (h.used_up hdone)
  inferred := by
    rw [List.count_append, List.count_singleton, if_neg (by simpa using hentry)]
    exact h.inferred

theorem infer (h : Reading input done source true) :
    Reading input (done ++ [-1]) (source + 1) false where
  source_eq hnot := by
    rw [h.source_eq fun hmem => hnot (List.mem_append_left _ hmem), List.length_append]
    rfl
  used_up hmem := by
    have hdone : -2 ∈ done := by simpa using hmem
    exact Nat.le_succ_of_le (h.used_up hdone)
  inferred := by
    rw [List.count_append, h.inferred]
    rfl

theorem copyAll (h : Reading input done source vacant) :
    Reading input (done ++ [-2]) input.length vacant where
  source_eq hnot := by simp at hnot
  used_up _ := Nat.le_refl _
  inferred := by
    rw [List.count_append, h.inferred]
    rfl

/-- An entry 0 finds an extent exactly if it may be there. -/
theorem getElem?_eq_some_iff (h : Reading input done source vacant) {d : Dim} :
    input[source]? = some d ↔ -2 ∉ done ∧ input[done.length]? = some d := by
  by_cases hdone : -2 ∈ done
  · simp [List.getElem?_eq_none (h.used_up hdone), hdone]
  · simp [h.source_eq hdone, hdone]

theorem drop_eq (h : Reading input done source vacant) :
    (input.drop source).map some = standsFor input done (-2) := by
  by_cases hdone : -2 ∈ done
  · simp [standsFor, hdone, List.drop_eq_nil_of_le (h.used_up hdone)]
  · simp [standsFor, hdone, h.source_eq hdone]

end Reading

/-- The entries are laid out exactly if they are legible, each as what it stands for. -/
theorem layOut_eq_ok_iff {source : Nat} {vacant : Bool} {slots : List (Option Dim)}
    (h : Reading input done source vacant) :
    layOut input source vacant rest = .ok slots ↔
      Legible input done rest ∧ slots = spellOut input done rest := by
  induction rest generalizing done source vacant slots with
  | nil =>
    have honce : done.count (-1) ≤ 1 := by
      rw [h.inferred]
      split <;> decide
    have hlegible : Legible input done [] := ⟨by simp, by simpa using honce, by simp⟩
    simp [layOut, spellOut, hlegible, eq_comm]
  | cons entry rest ih =>
    have hnext : ∀ {source vacant} (head : List (Option Dim)),
        Reading input (done ++ [entry]) source vacant → -2 ≤ entry →
        (entry = 0 → done.length < input.length ∧ -2 ∉ done) → head = standsFor input done entry →
        ((do return head ++ (← layOut input source vacant rest)) = Except.ok slots ↔
          Legible input done (entry :: rest) ∧ slots = spellOut input done (entry :: rest)) := by
      intro source vacant head hread hentry hzero hhead
      rw [Fallible.bind_eq_ok_iff, legible_cons_iff, spellOut, ← hhead]
      simp only [ih hread, hentry, true_and]
      constructor
      · rintro ⟨tail, ⟨hlegible, rfl⟩, heq⟩
        cases heq
        exact ⟨⟨hzero, hlegible⟩, rfl⟩
      · rintro ⟨⟨-, hlegible⟩, rfl⟩
        exact ⟨_, ⟨hlegible, rfl⟩, rfl⟩
    rw [layOut]
    split
    · next hpos =>
      refine hnext [_] (h.next (by omega) (by omega)) (by omega) (by omega) ?_
      rw [standsFor, if_pos hpos]
    split
    · next hzero =>
      subst hzero
      split
      · next hnone =>
        refine iff_of_false (by simp) ?_
        rintro ⟨hlegible, -⟩
        obtain ⟨hlt, hdone⟩ := (legible_cons_iff.1 hlegible).2.1 rfl
        have hsome := h.getElem?_eq_some_iff.2 ⟨hdone, List.getElem?_eq_getElem hlt⟩
        rw [hnone] at hsome
        cases hsome
      · next d hd =>
        obtain ⟨hdone, hd⟩ := h.getElem?_eq_some_iff.1 hd
        have hlt := (List.getElem?_eq_some_iff.1 hd).1
        refine hnext [_] (h.next (by decide) (by decide)) (by decide) (fun _ => ⟨hlt, hdone⟩) ?_
        simp [standsFor, hd]
    split
    · next hinfer =>
      subst hinfer
      split
      · next hvacant =>
        subst hvacant
        exact hnext [_] h.infer (by decide) (by omega) rfl
      · next hfilled =>
        refine iff_of_false (by simp) ?_
        rintro ⟨hlegible, -⟩
        have honce := hlegible.once
        rw [List.count_append, List.count_cons_self, h.inferred, if_neg hfilled] at honce
        omega
    split
    · next hrest =>
      subst hrest
      exact hnext _ h.copyAll (by decide) (by omega) h.drop_eq
    · refine iff_of_false (by simp) ?_
      rintro ⟨hlegible, -⟩
      have hentry := (legible_cons_iff.1 hlegible).1
      omega

/-! ## The extent to infer -/

theorem count_none_standsFor (input : List Dim) (before : List Int) (entry : Int) :
    (standsFor input before entry).count none = if entry = -1 then 1 else 0 := by
  have hcopied : ∀ ds : List Dim, (ds.map some).count none = 0 :=
    fun ds => List.count_eq_zero.2 (by simp)
  unfold standsFor
  split
  · next hpos =>
    rw [if_neg (by omega)]
    rfl
  split
  · next hzero => rw [hcopied, if_neg (by omega)]
  split
  · rfl
  split
  · rfl
  · exact hcopied _

theorem count_none_spellOut (input : List Dim) (done rest : List Int) :
    (spellOut input done rest).count none = rest.count (-1) := by
  induction rest generalizing done with
  | nil => rfl
  | cons entry rest ih =>
    rw [spellOut, List.count_append, ih, count_none_standsFor, List.count_cons, Nat.add_comm]
    simp

theorem none_mem_spellOut_iff {input : List Dim} {newshape : List Int} :
    none ∈ spellOut input [] newshape ↔ -1 ∈ newshape := by
  rw [← List.count_pos_iff, count_none_spellOut, List.count_pos_iff]

/-- The extents that a new shape stands for, beside the one to infer. -/
def beside (input : List Dim) (newshape : List Int) : List Dim :=
  (spellOut input [] newshape).filterMap id

theorem fill_of_full {slots : List (Option Dim)} (h : none ∉ slots) (n : Nat) :
    fill n slots = slots.filterMap id := by
  induction slots with
  | nil => rfl
  | cons slot slots ih =>
    rw [List.mem_cons, not_or] at h
    cases slot with
    | none => exact absurd rfl h.1
    | some d => exact congrArg (d :: ·) (ih h.2)

theorem elements_fill (n : Nat) (slots : List (Option Dim)) :
    elements (fill n slots) = n ^ slots.count none * elements (slots.filterMap id) := by
  induction slots with
  | nil => simp [fill]
  | cons slot slots ih =>
    change elements (slot.getD (.known n) :: fill n slots) = _
    cases slot with
    | none => simp [ih, pow_succ, Nat.mul_comm, Nat.mul_assoc]
    | some d =>
      cases d with
      | dynamic => simpa using ih
      | known m => simp [ih, Nat.mul_left_comm]

/-- The product beside the extent to infer is the product of the other extents, if all are known. -/
theorem knownProduct_eq_ok_iff {acc p : Nat} {slots : List (Option Dim)} :
    knownProduct acc slots = .ok p ↔ productFrom acc (slots.filterMap id) = .ok (.known p) := by
  induction slots generalizing acc with
  | nil => simp [knownProduct, productFrom]
  | cons slot slots ih =>
    cases slot with
    | none => simpa [knownProduct] using ih
    | some d =>
      cases d with
      | dynamic => simp [knownProduct, productFrom]
      | known n =>
        rw [knownProduct, List.filterMap_cons_some (f := id) rfl, productFrom]
        cases checkedMul acc n with
        | error e => simp
        | ok q => exact ih

/-- A single extent keeps the number of elements exactly if the product of the others is not 0 and
divides it. It is then the quotient. -/
theorem only_factor_iff {known total n : Nat} :
    (n * known = total ∧ ∀ m, m * known = total → m = n) ↔
      ¬(known = 0 ∨ total % known ≠ 0) ∧ n = total / known := by
  constructor
  · rintro ⟨rfl, honly⟩
    have hknown : known ≠ 0 := by
      intro hzero
      have hnext : n + 1 = n := honly (n + 1) (by simp [hzero])
      omega
    refine ⟨not_or.2 ⟨hknown, not_not.2 (Nat.mul_mod_left n known)⟩, ?_⟩
    exact (Nat.mul_div_cancel n (Nat.pos_of_ne_zero hknown)).symm
  · rintro ⟨h, rfl⟩
    obtain ⟨hknown, hrest⟩ := not_or.1 h
    have hdvd : known ∣ total := Nat.dvd_of_mod_eq_zero (not_not.1 hrest)
    exact ⟨Nat.div_mul_cancel hdvd, fun m hm => Nat.eq_div_of_mul_eq_left hknown hm⟩

/-! ## What is accepted -/

/-- What is laid out of a static operand is static. -/
theorem beside_static (hinput : DimsStatic input) (h : Legible input [] newshape) :
    DimsStatic (beside input newshape) := by
  intro d hd
  have hslots : layOut input 0 true newshape = .ok (spellOut input [] newshape) :=
    (layOut_eq_ok_iff .start).2 ⟨h, rfl⟩
  exact layOut_static hinput 0 true newshape _ hslots d (by simpa [beside] using hd)

/-- With an extent to infer, all others must be known, and a single one must keep the number of
elements. -/
theorem reshapeDims_infer_iff {out : List Dim} (hinfer : -1 ∈ newshape) :
    reshapeDims input newshape = .ok out ↔
      Legible input [] newshape ∧ DimsStatic input ∧ ¬Overflows input ∧
        ¬Overflows (beside input newshape) ∧
        ∃ n, (n * elements (beside input newshape) = elements input ∧
            ∀ m, m * elements (beside input newshape) = elements input → m = n) ∧
          out = fill n (spellOut input [] newshape) := by
  simp only [only_factor_iff]
  unfold reshapeDims
  rw [Fallible.bind_eq_ok_iff]
  simp only [layOut_eq_ok_iff .start]
  constructor
  · rintro ⟨_, ⟨hlegible, rfl⟩, h⟩
    obtain ⟨count, hcount, h⟩ := Fallible.bind_eq_ok_iff.1 h
    rw [if_pos (List.contains_iff_mem.2 (none_mem_spellOut_iff.2 hinfer))] at h
    cases count with
    | dynamic => cases h
    | known total =>
      obtain ⟨hfits, hstatic, rfl⟩ := product_eq_known_iff.1 hcount
      obtain ⟨known, hknown, h⟩ := Fallible.bind_eq_ok_iff.1 h
      obtain ⟨hfits', -, rfl⟩ := product_eq_known_iff.1 (knownProduct_eq_ok_iff.1 hknown)
      split at h
      · cases h
      · next hdivides =>
        cases h
        exact ⟨hlegible, hstatic, hfits, hfits', _, ⟨hdivides, rfl⟩, rfl⟩
  · rintro ⟨hlegible, hstatic, hfits, hfits', _, ⟨hdivides, rfl⟩, rfl⟩
    have hcount : product input = .ok (.known (elements input)) :=
      product_eq_known_iff.2 ⟨hfits, hstatic, rfl⟩
    have hknown : knownProduct 1 (spellOut input [] newshape) =
        .ok (elements (beside input newshape)) :=
      knownProduct_eq_ok_iff.2 (product_eq_known_iff.2
        ⟨hfits', beside_static hstatic hlegible, rfl⟩)
    refine ⟨_, ⟨hlegible, rfl⟩, Fallible.bind_eq_ok_iff.2 ⟨_, hcount, ?_⟩⟩
    rw [if_pos (List.contains_iff_mem.2 (none_mem_spellOut_iff.2 hinfer))]
    refine Fallible.bind_eq_ok_iff.2 ⟨_, hknown, ?_⟩
    rw [if_neg hdivides]
    rfl

/-- With no extent to infer, the numbers of elements are compared if both are known. -/
theorem reshapeDims_full_iff {out : List Dim} (hfull : -1 ∉ newshape) :
    reshapeDims input newshape = .ok out ↔
      Legible input [] newshape ∧ ¬Overflows input ∧ ¬Overflows out ∧
        (DimsStatic input → DimsStatic out → elements out = elements input) ∧
        out = beside input newshape := by
  have hcontains : ¬(spellOut input [] newshape).contains none = true :=
    mt List.contains_iff_mem.1 (mt none_mem_spellOut_iff.1 hfull)
  unfold reshapeDims
  rw [Fallible.bind_eq_ok_iff]
  simp only [layOut_eq_ok_iff .start]
  constructor
  · rintro ⟨_, ⟨hlegible, rfl⟩, h⟩
    obtain ⟨count, hcount, h⟩ := Fallible.bind_eq_ok_iff.1 h
    rw [if_neg hcontains] at h
    obtain ⟨after, hafter, h⟩ := Fallible.bind_eq_ok_iff.1 h
    have hfits := (product_eq_ok_iff.1 hcount).1
    have hfits' := (product_eq_ok_iff.1 hafter).1
    split at h
    · split at h
      · next heq =>
        cases h
        obtain ⟨-, -, rfl⟩ := product_eq_known_iff.1 hcount
        obtain ⟨-, -, rfl⟩ := product_eq_known_iff.1 hafter
        exact ⟨hlegible, hfits, hfits', fun _ _ => heq.symm, rfl⟩
      · cases h
    · next hopen =>
      cases h
      refine ⟨hlegible, hfits, hfits', fun hin hout => ?_, rfl⟩
      have hcount' := (product_eq_ok_iff.1 hcount).2
      have hafter' := (product_eq_ok_iff.1 hafter).2
      rw [if_neg (dimsStatic_iff.1 hin)] at hcount'
      rw [if_neg (dimsStatic_iff.1 hout)] at hafter'
      exact absurd hafter' (hopen _ _ hcount')
  · rintro ⟨hlegible, hfits, hfits', hsame, rfl⟩
    obtain ⟨count, hcount⟩ : ∃ count, product input = .ok count := ⟨_, product_of_fits hfits⟩
    obtain ⟨after, hafter⟩ : ∃ after, product (beside input newshape) = .ok after :=
      ⟨_, product_of_fits hfits'⟩
    refine ⟨_, ⟨hlegible, rfl⟩, Fallible.bind_eq_ok_iff.2 ⟨count, hcount, ?_⟩⟩
    rw [if_neg hcontains]
    refine Fallible.bind_eq_ok_iff.2 ⟨after, hafter, ?_⟩
    split
    · obtain ⟨-, hin, rfl⟩ := product_eq_known_iff.1 hcount
      obtain ⟨-, hout, rfl⟩ := product_eq_known_iff.1 hafter
      rw [if_pos (hsame hin hout).symm]
      rfl
    · rfl

/-- With an extent inferred, the number of elements is the product of it and the other extents. -/
theorem elements_inferred (hinfer : -1 ∈ newshape) (h : Legible input [] newshape) (n : Nat) :
    elements (fill n (spellOut input [] newshape)) = n * elements (beside input newshape) := by
  have hcount : newshape.count (-1) = 1 := by
    have honce := h.once
    have hpos := List.count_pos_iff.2 hinfer
    rw [List.nil_append] at honce
    omega
  rw [elements_fill, count_none_spellOut, hcount, pow_one, beside]

theorem exists_fill_of_reshapeDims {out : List Dim} (h : reshapeDims input newshape = .ok out) :
    Legible input [] newshape ∧ (-1 ∈ newshape → DimsStatic input) ∧
      ∃ n < extentLimit, out = fill n (spellOut input [] newshape) ∧
        (DimsStatic input → elements out = elements input) := by
  by_cases hinfer : -1 ∈ newshape
  · obtain ⟨hlegible, hstatic, hfits, -, n, honly, rfl⟩ := (reshapeDims_infer_iff hinfer).1 h
    have hle : n ≤ elements input := by
      rw [(only_factor_iff.1 honly).2]
      exact Nat.div_le_self _ _
    have hlt : n < extentLimit := Nat.lt_of_le_of_lt hle (elements_lt hstatic hfits)
    refine ⟨hlegible, fun _ => hstatic, n, hlt, rfl, fun _ => ?_⟩
    rw [elements_inferred hinfer hlegible, honly.1]
  · obtain ⟨hlegible, -, -, hsame, rfl⟩ := (reshapeDims_full_iff hinfer).1 h
    refine ⟨hlegible, fun h => absurd h hinfer, 0, by decide, ?_, fun hstatic => ?_⟩
    · rw [fill_of_full (mt none_mem_spellOut_iff.1 hinfer), beside]
    · exact hsame hstatic (beside_static hstatic hlegible)

/-! ## The rule -/

theorem reshape_eq_ok_iff {i : Inputs} {cs : List Component} (hinput : i.operandDims 0 = .ok input)
    (hnewshape : i.attr Attr.toInts "newshape" = .ok newshape) :
    reshape i = .ok cs ↔ ∃ out, reshapeDims input newshape = .ok out ∧ cs = single out := by
  unfold reshape
  rw [hinput, hnewshape]
  change (Defect.lift (reshapeDims input newshape) >>= fun out => .ok (single out)) = .ok cs ↔ _
  rw [Fallible.bind_eq_ok_iff]
  simp only [Defect.lift, Fallible.mapError_eq_ok_iff, Except.ok.injEq, eq_comm (b := cs)]

/-- **New shapes.** A new shape is accepted only if it is legible, and if an extent is to be
inferred, only for a static operand. The result is what the entries stand for, with a known extent
in the place of the one to infer; for a static operand it is static and has as many elements as the
operand. Conversely, a static operand takes every legible shape, if no product overflows, that
leaves exactly one extent to infer or, with none to infer, has as many elements. -/
theorem reshape_exact {i : Inputs} {input : List Dim} {newshape : List Int}
    (hinput : i.operandDims 0 = .ok input)
    (hnewshape : i.attr Attr.toInts "newshape" = .ok newshape) :
    registry.rule? "relay.reshape" = some (ShapeRule.ofInputs reshape) ∧
    (∀ cs, reshape i = .ok cs →
      Legible input [] newshape ∧ (-1 ∈ newshape → DimsStatic input) ∧
      ∃ n < extentLimit, ∃ out, cs = single out ∧ out = fill n (spellOut input [] newshape) ∧
        (DimsStatic input → DimsStatic out ∧ elements out = elements input)) ∧
    (DimsStatic input → Legible input [] newshape → ¬Overflows input →
      ¬Overflows (beside input newshape) →
      (-1 ∈ newshape → ((∃ cs, reshape i = .ok cs) ↔
        ∃! n, n * elements (beside input newshape) = elements input)) ∧
      (-1 ∉ newshape → ((∃ cs, reshape i = .ok cs) ↔
        elements (beside input newshape) = elements input))) := by
  refine ⟨rule?_reshape, fun cs hcs => ?_, fun hstatic hlegible hfits hfits' => ?_⟩
  · obtain ⟨out, hout, rfl⟩ := (reshape_eq_ok_iff hinput hnewshape).1 hcs
    obtain ⟨hlegible, hinfer, n, hn, hfill, hcount⟩ := exists_fill_of_reshapeDims hout
    refine ⟨hlegible, hinfer, n, hn, out, rfl, hfill, fun hstatic => ?_⟩
    exact ⟨reshapeDims_static hstatic newshape out hout, hcount hstatic⟩
  · simp only [reshape_eq_ok_iff hinput hnewshape]
    constructor
    · intro hinfer
      constructor
      · rintro ⟨cs, out, hout, -⟩
        obtain ⟨-, -, -, -, n, honly, -⟩ := (reshapeDims_infer_iff hinfer).1 hout
        exact ⟨n, honly⟩
      · rintro ⟨n, honly⟩
        exact ⟨_, _, (reshapeDims_infer_iff hinfer).2
          ⟨hlegible, hstatic, hfits, hfits', n, honly, rfl⟩, rfl⟩
    · intro hfull
      constructor
      · rintro ⟨cs, out, hout, -⟩
        obtain ⟨-, -, -, hsame, rfl⟩ := (reshapeDims_full_iff hfull).1 hout
        exact hsame hstatic (beside_static hstatic hlegible)
      · intro hsame
        exact ⟨_, _, (reshapeDims_full_iff hfull).2
          ⟨hlegible, hfits, hfits', fun _ _ => hsame, rfl⟩, rfl⟩

/-- All kinds of entries at once, and an extent to infer beside one of 0, which any number would
be. -/
theorem reshape_exact_zero :
    let request (ds : List Dim) (newshape : List Int) : Inputs :=
      ⟨[some (.tensor ⟨.f32, ds⟩)], StringMap.ofList [("newshape", .ints newshape)]⟩
    let input : List Dim := [.known 2, .known 3, .known 4]
    let newshape : List Int := [0, -1, -2, -2, 1]
    let out : List Dim := [.known 2, .known 3, .known 4, .known 1]
    let empty : List Dim := [.known 0, .known 3]
    reshape (request input newshape) = .ok (single out) ∧ Legible input [] newshape ∧
      (∃ n, out = fill n (spellOut input [] newshape)) ∧ elements out = elements input ∧
      Legible empty [] [0, -1] ∧ ¬∃ cs, reshape (request empty [0, -1]) = .ok cs := by
  intro request input newshape out empty
  have hnewshape : (request input newshape).attr Attr.toInts "newshape" = .ok newshape := by
    decide +kernel
  have hnewshape' : (request empty [0, -1]).attr Attr.toInts "newshape" = .ok [0, -1] := by
    decide +kernel
  have hout : reshape (request input newshape) = .ok (single out) := by decide +kernel
  obtain ⟨-, haccepted, -⟩ := reshape_exact rfl hnewshape
  obtain ⟨hlegible, -, n, -, _, heq, hfill, hstatic⟩ := haccepted _ hout
  cases heq
  have hcount := (hstatic (dimsStatic_iff.2 (by decide))).2
  have hlegible' : Legible empty [] [0, -1] := ((layOut_eq_ok_iff .start).1 rfl).1
  have hfits : product empty = .ok (.known 0) := by decide
  have hfits' : product (beside empty [0, -1]) = .ok (.known 0) := by decide
  refine ⟨hout, hlegible, ⟨n, hfill⟩, hcount, hlegible', fun hcs => ?_⟩
  have hrejected := (reshape_exact (i := request empty [0, -1]) rfl hnewshape').2.2
    (dimsStatic_iff.2 (by decide)) hlegible' (product_eq_ok_iff.1 hfits).1
    (product_eq_ok_iff.1 hfits').1
  obtain ⟨n, -, honly⟩ := (hrejected.1 (by decide)).1 hcs
  have hzero : 0 = n := honly 0 (by decide)
  have hone : 1 = n := honly 1 (by decide)
  omega

end TensorIR.Relay
