import TensorIR.Proofs.Machine.Rules
import TensorIR.Relay.Reshape

/-!
# Rules on machine words: new shapes

A machine lays out the new dimensions with a dynamic one in the place of the extent to infer, and
keeps that place apart (`hole`). There is at most one (`layOut_hole`), so what is written there in
the end is the one extent that was left open. It divides only by a product that is not zero.
-/

namespace TensorIR.Machine

open Fallible (Ensures)
open Relay (Defect single)

/-! ## The evaluation -/

/-- The new dimensions, with the place of the one to infer. `out` and `hole` are what has been laid
out so far. -/
def layOut (input out : List Dim) (hole : Option Nat) (source : Nat) :
    List Int → Eval Defect (List Dim × Option Nat)
  | [] => return (out, hole)
  | entry :: rest =>
    if 0 < entry then do
      let next ← add source 1
      layOut input (out ++ [.known (toUnsigned entry)]) hole next rest
    else if entry = 0 then
      match input[source]? with
      | none => throw (.copyBeyondRank source input.length)
      | some d => do
        let next ← add source 1
        layOut input (out ++ [d]) hole next rest
    else if entry = -1 then
      if hole.isSome then throw .secondInferredEntry
      else do
        let next ← add source 1
        layOut input (out ++ [.dynamic]) (some out.length) next rest
    else if entry = -2 then layOut input (out ++ input.drop source) hole input.length rest
    else throw (.unsupportedEntry entry)

/-- The product of `acc` and the dimensions from `position` on but the one at `hole`. -/
def knownBeside (hole acc : Nat) : (position : Nat) → List Dim → Except Defect Nat
  | _, [] => .ok acc
  | position, d :: rest =>
    if position = hole then knownBeside hole acc (position + 1) rest
    else
      match d.known? with
      | none => .error .inferBesideDynamic
      | some n =>
        match Relay.checkedMul acc n with
        | .error e => .error e
        | .ok p => knownBeside hole p (position + 1) rest

/-- Put the extent that keeps the number of elements into its place. -/
def inferHole (newshape : List Int) (out : List Dim) (hole : Nat) : Dim → Eval Defect (List Dim)
  | .dynamic => throw .inferFromDynamic
  | .known total => do
    let known ← attempt (knownBeside hole 1 0 out)
    if known = 0 then throw (.indivisible total newshape)
    else
      let rest ← rem total known
      if rest ≠ 0 then throw (.indivisible total newshape)
      else
        let extent ← div total known
        store out hole (.known extent)

/-- Nothing is to be inferred: the number of elements stays the same, as far as it is known. -/
def checkCount (out : List Dim) (count : Dim) : Except Defect (List Dim) := do
  match count, ← Relay.product out with
  | .known before, .known after =>
    if before = after then return out else .error (.elementCount before after)
  | _, _ => return out

def reshapeDims (input : List Dim) (newshape : List Int) : Eval Defect (List Dim) := do
  let (out, hole) ← layOut input [] none 0 newshape
  let count ← attempt (Relay.product input)
  match hole with
  | some hole => inferHole newshape out hole count
  | none => attempt (checkCount out count)

def reshape : Rule := fun i => do
  let input ← operandDims i 0
  let newshape ← attempt (i.attr Attr.toInts "newshape")
  return single (← lift (reshapeDims input newshape))

def batchFlatten : Rule := fun i => do
  let input ← operandDims i 0
  return single (← attempt (Defect.lift (Relay.flattenDims input)))

/-! ## Slots and what the machine keeps of them -/

/-- The dimensions laid out, a dynamic one where one is to be inferred. -/
def shown (slots : List (Option Dim)) : List Dim :=
  slots.map fun slot => slot.getD .dynamic

/-- The place of the dimension to infer. -/
def holeOf (slots : List (Option Dim)) : Option Nat :=
  slots.findIdx? Option.isNone

theorem shown_append (slots : List (Option Dim)) (ds : List Dim) :
    shown (slots ++ ds.map some) = shown slots ++ ds := by
  simp [shown, Function.comp_def]

theorem holeOf_append (slots : List (Option Dim)) (ds : List Dim) :
    holeOf (slots ++ ds.map some) = holeOf slots := by
  have hnone : (ds.map some).findIdx? Option.isNone = none := by simp
  simp [holeOf, List.findIdx?_append, hnone]

theorem holeOf_append_none {slots : List (Option Dim)} (h : holeOf slots = none) :
    holeOf (slots ++ [none]) = some slots.length := by
  unfold holeOf at h ⊢
  simp [List.findIdx?_append, h]

/-- The entries -2 apart, each entry takes the source one further. -/
theorem runs_layOut {input : List Dim} {newshape : List Int} {source : Nat}
    (hnewshape : ∀ entry ∈ newshape, IsSigned entry)
    (hsource : source + newshape.length < extentLimit)
    (hinput : input.length + newshape.length < extentLimit) (done : List (Option Dim)) :
    Runs (layOut input (shown done) (holeOf done) source newshape)
      (Relay.layOut input source (holeOf done).isNone newshape >>= fun slots =>
        .ok (shown (done ++ slots), holeOf (done ++ slots))) := by
  induction newshape generalizing source done with
  | nil =>
    rw [layOut, Relay.layOut]
    change Runs _ (.ok (shown (done ++ []), holeOf (done ++ [])))
    rw [List.append_nil]
    exact .pure _
  | cons entry rest ih =>
    rw [List.forall_mem_cons] at hnewshape
    rw [List.length_cons] at hsource hinput
    have hnext : ∀ slot, Runs
        (add source 1 >>= fun next =>
          layOut input (shown (done ++ [slot])) (holeOf (done ++ [slot])) next rest)
        ((Relay.layOut input (source + 1) (holeOf (done ++ [slot])).isNone rest >>= fun slots =>
          .ok (slot :: slots)) >>= fun slots =>
            .ok (shown (done ++ slots), holeOf (done ++ slots))) := by
      intro slot
      have hrest : Runs (layOut _ _ _ (source + 1) _) _ :=
        ih hnewshape.2 (by omega) (by omega) (done ++ [slot])
      simp only [List.append_assoc, List.singleton_append] at hrest
      rw [bind_assoc]
      exact .step (runs_add (by omega)) hrest
    have hknown : ∀ d, Runs
        (add source 1 >>= fun next => layOut input (shown done ++ [d]) (holeOf done) next rest)
        ((Relay.layOut input (source + 1) (holeOf done).isNone rest >>= fun slots =>
          .ok (some d :: slots)) >>= fun slots =>
            .ok (shown (done ++ slots), holeOf (done ++ slots))) := by
      intro d
      have hslot := hnext (some d)
      have hshown : shown (done ++ [some d]) = shown done ++ [d] := shown_append done [d]
      have hhole : holeOf (done ++ [some d]) = holeOf done := holeOf_append done [d]
      rwa [hshown, hhole] at hslot
    rw [layOut, Relay.layOut]
    by_cases hpos : 0 < entry
    · rw [if_pos hpos, if_pos hpos, toUnsigned_of_nonneg (by omega) hnewshape.1]
      exact hknown _
    rw [if_neg hpos, if_neg hpos]
    by_cases hzero : entry = 0
    · rw [if_pos hzero, if_pos hzero]
      cases input[source]? with
      | none => exact .throw _
      | some d => exact hknown d
    rw [if_neg hzero, if_neg hzero]
    by_cases hinfer : entry = -1
    · rw [if_pos hinfer, if_pos hinfer]
      cases hhole : holeOf done with
      | some k => exact .throw _
      | none =>
        have hslot := hnext none
        have hshown : shown (done ++ [none]) = shown done ++ [.dynamic] := List.map_append
        have hlength : (shown done).length = done.length := List.length_map _
        rw [holeOf_append_none hhole, hshown, ← hlength] at hslot
        exact hslot
    rw [if_neg hinfer, if_neg hinfer]
    by_cases hrest : entry = -2
    · rw [if_pos hrest, if_pos hrest]
      have hbound : input.length + rest.length < extentLimit := by omega
      have hslots := ih hnewshape.2 hbound hbound (done ++ (input.drop source).map some)
      rw [shown_append, holeOf_append] at hslots
      simp only [List.append_assoc] at hslots
      rw [bind_assoc]
      exact hslots
    · rw [if_neg hrest, if_neg hrest]
      exact .throw _

/-! ## One place at most -/

/-- One dimension is to be inferred, and no other. -/
def OneHole (slots : List (Option Dim)) : Prop :=
  ∃ pre post, slots = pre ++ none :: post ∧ none ∉ pre ∧ none ∉ post

theorem OneHole.append {slots : List (Option Dim)} (h : OneHole slots) (ds : List Dim) :
    OneHole (ds.map some ++ slots) := by
  obtain ⟨pre, post, rfl, hpre, hpost⟩ := h
  exact ⟨ds.map some ++ pre, post, by simp, by simpa using hpre, hpost⟩

/-- No dimension is to be inferred, or one, if none was before. -/
theorem layOut_hole (input : List Dim) (source : Nat) (vacant : Bool) (newshape : List Int) :
    Ensures (fun slots => none ∉ slots ∨ vacant ∧ OneHole slots)
      (Relay.layOut input source vacant newshape) := by
  induction newshape generalizing source vacant with
  | nil => exact .ok (.inl (by simp))
  | cons entry rest ih =>
    have hcopied : ∀ (ds : List Dim) source,
        Ensures (fun slots => none ∉ slots ∨ vacant ∧ OneHole slots)
          (do return ds.map some ++ (← Relay.layOut input source vacant rest)) := by
      intro ds source
      refine (ih source vacant).bind fun slots hslots => .ok ?_
      rcases hslots with hnone | ⟨hvacant, hone⟩
      · exact .inl (by simpa using hnone)
      · exact .inr ⟨hvacant, hone.append ds⟩
    rw [Relay.layOut]
    split
    · exact hcopied [_] _
    split
    · split
      · exact .error
      · exact hcopied [_] _
    split
    · split
      · next hvacant =>
        refine (ih (source + 1) false).bind fun slots hslots => .ok (.inr ⟨hvacant, ?_⟩)
        -- no second one is accepted
        have hnone : none ∉ slots := by simpa using hslots
        exact ⟨[], slots, rfl, by simp, hnone⟩
      · exact .error
    split
    · exact hcopied _ _
    · exact .error

theorem OneHole.exists_hole {slots : List (Option Dim)} (h : OneHole slots) :
    ∃ hole, holeOf slots = some hole ∧ ∀ k, slots[k]? = some none ↔ k = hole := by
  obtain ⟨pre, post, rfl, hpre, hpost⟩ := h
  refine ⟨pre.length, ?_, fun k => ⟨fun hk => ?_, fun hk => ?_⟩⟩
  · have hnone : pre.findIdx? Option.isNone = none := by
      refine List.findIdx?_eq_none_iff.2 fun slot hslot => ?_
      cases slot with
      | none => exact absurd hslot hpre
      | some d => rfl
    simp [holeOf, List.findIdx?_append, List.findIdx?_cons, hnone]
  · rcases Nat.lt_trichotomy k pre.length with hlt | heq | hgt
    · rw [List.getElem?_append_left hlt] at hk
      exact absurd (List.mem_of_getElem? hk) hpre
    · exact heq
    · obtain ⟨j, rfl⟩ := Nat.exists_eq_add_of_lt hgt
      have hplace : pre.length + j + 1 - pre.length = j + 1 := by omega
      rw [List.getElem?_append_right (by omega), hplace, List.getElem?_cons_succ] at hk
      exact absurd (List.mem_of_getElem? hk) hpost
  · rw [hk]
    simp

theorem holeOf_eq_none_iff {slots : List (Option Dim)} : holeOf slots = none ↔ none ∉ slots := by
  simp only [holeOf, List.findIdx?_eq_none_iff]
  constructor
  · intro h hnone
    cases h none hnone
  · intro h slot hslot
    cases slot with
    | none => exact absurd hslot h
    | some d => rfl

/-! ## The result -/

/-- Beside the hole, the product is that of the slots that are filled. -/
theorem knownBeside_shown {hole : Nat} (acc : Nat) {position : Nat} {slots : List (Option Dim)}
    (h : ∀ k, slots[k]? = some none ↔ position + k = hole) :
    knownBeside hole acc position (shown slots) = Relay.knownProduct acc slots := by
  induction slots generalizing acc position with
  | nil => rfl
  | cons slot slots ih =>
    have hhead : slot = none ↔ position = hole := by simpa using h 0
    have htail : ∀ k, slots[k]? = some none ↔ position + 1 + k = hole := by
      intro k
      rw [← List.getElem?_cons_succ, h (k + 1)]
      omega
    change knownBeside hole acc position (slot.getD .dynamic :: shown slots) = _
    rw [knownBeside]
    cases slot with
    | none =>
      rw [if_pos (hhead.1 rfl), Relay.knownProduct]
      exact ih acc htail
    | some d =>
      rw [if_neg fun heq => by simpa using hhead.2 heq]
      cases d with
      | dynamic => rfl
      | known n =>
        rw [Relay.knownProduct]
        dsimp only [Option.getD, Dim.known?]
        cases Relay.checkedMul acc n with
        | error e => rfl
        | ok p => exact ih p htail

/-- Writing an extent into the hole fills it. -/
theorem set_shown {hole : Nat} {slots : List (Option Dim)}
    (h : ∀ k, slots[k]? = some none ↔ k = hole) (extent : Nat) :
    (shown slots).set hole (.known extent) = Relay.fill extent slots := by
  refine List.ext_getElem? fun k => ?_
  simp only [shown, Relay.fill, List.getElem?_set, List.getElem?_map, List.length_map]
  by_cases hk : hole = k
  · have hslot := (h k).2 hk.symm
    have hlt := (List.getElem?_eq_some_iff.1 hslot).1
    rw [hslot, if_pos hk, if_pos (hk ▸ hlt)]
    rfl
  · rw [if_neg hk]
    cases hslot : slots[k]? with
    | none => rfl
    | some slot =>
      cases slot with
      | none => exact absurd ((h k).1 hslot).symm hk
      | some d => rfl

theorem runs_inferHole {newshape : List Int} {hole : Nat} {slots : List (Option Dim)}
    (h : ∀ k, slots[k]? = some none ↔ k = hole) (count : Dim) :
    Runs (inferHole newshape (shown slots) hole count)
      (match count with
        | .dynamic => .error .inferFromDynamic
        | .known total => do
          let known ← Relay.knownProduct 1 slots
          if known = 0 ∨ total % known ≠ 0 then .error (.indivisible total newshape)
          else return Relay.fill (total / known) slots) := by
  cases count with
  | dynamic => exact .throw _
  | known total =>
    have hplace : ∀ k, slots[k]? = some none ↔ 0 + k = hole := by simpa using h
    rw [← knownBeside_shown 1 hplace]
    refine (Runs.attempt _).bind fun known _ => ?_
    by_cases hzero : known = 0
    · rw [if_pos hzero, if_pos (.inl hzero)]
      exact .throw _
    rw [if_neg hzero]
    refine .step (runs_rem hzero) ?_
    by_cases hrest : total % known = 0
    · rw [if_neg (by simp [hrest]), if_neg (by simp [hzero, hrest])]
      refine .step (runs_div hzero) ?_
      rw [← set_shown h]
      refine runs_store ?_ _
      have hlt := (List.getElem?_eq_some_iff.1 ((h hole).2 rfl)).1
      simpa [shown] using hlt
    · rw [if_pos hrest, if_pos (.inr hrest)]
      exact .throw _

theorem shown_of_full {slots : List (Option Dim)} (h : none ∉ slots) :
    shown slots = slots.filterMap id := by
  induction slots with
  | nil => rfl
  | cons slot slots ih =>
    rw [List.mem_cons, not_or] at h
    cases slot with
    | none => exact absurd rfl h.1
    | some d => exact congrArg (d :: ·) (ih h.2)

theorem runs_reshapeDims {input : List Dim} {newshape : List Int}
    (hrank : input.length < rankLimit) (hnewshape : ListFits newshape) :
    Runs (reshapeDims input newshape) (Relay.reshapeDims input newshape) := by
  obtain ⟨hlength, hsigned⟩ := hnewshape
  have hbound : input.length + newshape.length < extentLimit := by
    simp only [rankLimit, extentLimit, UInt64.size] at hrank ⊢
    omega
  have hlayOut : Runs (layOut input [] none 0 newshape)
      (Relay.layOut input 0 true newshape >>= fun slots => .ok (shown slots, holeOf slots)) :=
    runs_layOut hsigned (by omega) hbound []
  refine hlayOut.bind_map fun slots hslots => ?_
  refine (Runs.attempt _).bind fun count _ => ?_
  rcases layOut_hole input 0 true newshape slots hslots with hfull | ⟨-, hone⟩
  · rw [holeOf_eq_none_iff.2 hfull, if_neg (by simpa using hfull), shown_of_full hfull]
    exact .attempt _
  · obtain ⟨hole, hhole, hplace⟩ := hone.exists_hole
    have hmem : none ∈ slots := List.mem_of_getElem? ((hplace hole).2 rfl)
    rw [hhole, if_pos (by simpa using hmem)]
    exact runs_inferHole hplace count

theorem reshape_follows : reshape.Follows Relay.reshape := by
  intro i h
  refine (runs_first i).bind fun input hinput => ?_
  refine (Runs.attempt _).bind fun newshape hnewshape => ?_
  exact (runs_reshapeDims (h.rank_lt hinput) (h.ints hnewshape)).lift_single

theorem batchFlatten_follows : batchFlatten.Follows Relay.batchFlatten := by
  intro i _
  refine (runs_first i).bind fun input _ => ?_
  refine (Runs.attempt _).bind fun dims _ => ?_
  exact .pure _

end TensorIR.Machine
