import Mathlib.Data.List.Basic
import TensorIR.Func.Printer

/-!
# Types by their texts

The text of a type or of a signature can be read in one way only (`type_texts_unambiguous`). The
parts of such a text are held apart by characters that the parts do not contain: an `x` behind each
dimension of a tensor, a comma between types, a closing parenthesis behind each half of a signature.
So a text can be cut at these characters (`Text.intercalate_inj`), and what is left to tell apart
are numbers, a question mark and the names of element kinds.

The same holds of the types on the line of an operation, where a value without a type prints as a
placeholder that is the text of no type (`Ty.entryText_inj`).
-/

namespace TensorIR

/-! ## Cuts -/

namespace Text

/-- A text ends in front of the first stop. -/
theorem append_cons_inj {c : Char} {s t r r' : List Char} (hs : c ∉ s) (ht : c ∉ t) :
    s ++ c :: r = t ++ c :: r' ↔ s = t ∧ r = r' := by
  constructor
  · intro h
    have hcut : ∀ {u v : List Char}, c ∉ u → (u ++ c :: v).takeWhile (· != c) = u := by
      intro u v hu
      rw [List.takeWhile_append_of_pos]
      · simp
      · intro d hd
        have hne : d ≠ c := fun hdc => hu (hdc ▸ hd)
        simpa using hne
    obtain rfl : s = t := by rw [← hcut hs, h, hcut ht]
    simpa using h
  · rintro ⟨rfl, rfl⟩
    rfl

/-- Texts without a stop, with separators between them that start with the stop, are told apart by
what they are joined to. -/
theorem intercalate_inj {c : Char} {sep : List Char} {l l' : List (List Char)}
    (hl : ∀ s ∈ l, c ∉ s) (hl' : ∀ s ∈ l', c ∉ s) (hne : l ≠ []) (hne' : l' ≠ []) :
    (c :: sep).intercalate l = (c :: sep).intercalate l' ↔ l = l' := by
  refine ⟨fun h => ?_, fun h => h ▸ rfl⟩
  induction l generalizing l' with
  | nil => exact absurd rfl hne
  | cons s l ih =>
    cases l' with
    | nil => exact absurd rfl hne'
    | cons t l' =>
      have hs : c ∉ s := hl s List.mem_cons_self
      have ht : c ∉ t := hl' t List.mem_cons_self
      cases l with
      | nil =>
        cases l' with
        | nil => simpa using h
        | cons t' l' =>
          rw [List.intercalate_singleton, List.intercalate_cons_cons] at h
          exact absurd (by simp [h]) hs
      | cons s' l =>
        cases l' with
        | nil =>
          rw [List.intercalate_singleton, List.intercalate_cons_cons] at h
          exact absurd (by simp [← h]) ht
        | cons t' l' =>
          rw [List.intercalate_cons_cons, List.intercalate_cons_cons, List.append_assoc,
            List.append_assoc, List.cons_append, List.cons_append, append_cons_inj hs ht] at h
          obtain ⟨rfl, hrest⟩ := h
          have htail : s' :: l = t' :: l' :=
            ih (fun u hu => hl u (.tail _ hu)) (fun u hu => hl' u (.tail _ hu)) (by simp) (by simp)
              (List.append_cancel_left hrest)
          rw [htail]

/-- The same with empty lists, if no text is empty. -/
theorem intercalate_inj_of_ne_nil {c : Char} {sep : List Char} {l l' : List (List Char)}
    (hl : ∀ s ∈ l, c ∉ s ∧ s ≠ []) (hl' : ∀ s ∈ l', c ∉ s ∧ s ≠ []) :
    (c :: sep).intercalate l = (c :: sep).intercalate l' ↔ l = l' := by
  have hempty : ∀ {l : List (List Char)}, (∀ s ∈ l, c ∉ s ∧ s ≠ []) →
      ((c :: sep).intercalate l = [] ↔ l = []) := by
    intro l hl
    cases l with
    | nil => simp
    | cons s l =>
      have hs : s ≠ [] := (hl s List.mem_cons_self).2
      cases l <;> simp [hs]
  by_cases hne : l = []
  · subst hne
    rw [List.intercalate_nil, eq_comm, hempty hl', eq_comm]
  · by_cases hne' : l' = []
    · subst hne'
      rw [List.intercalate_nil, hempty hl]
    · exact intercalate_inj (fun s hs => (hl s hs).1) (fun s hs => (hl' s hs).1) hne hne'

theorem mem_of_mem_intercalate {c : Char} {sep : List Char} {l : List (List Char)}
    (h : c ∈ sep.intercalate l) : c ∈ sep ∨ ∃ s ∈ l, c ∈ s := by
  induction l with
  | nil => simp at h
  | cons s l ih =>
    cases l with
    | nil => exact .inr ⟨s, List.mem_cons_self, by simpa using h⟩
    | cons t l =>
      rw [List.intercalate_cons_cons, List.mem_append, List.mem_append] at h
      rcases h with (h | h) | h
      · exact .inr ⟨s, List.mem_cons_self, h⟩
      · exact .inl h
      · exact (ih h).imp_right fun ⟨u, hu, hc⟩ => ⟨u, .tail _ hu, hc⟩

/-! ## Numbers -/

theorem isDigit_of_mem_toString {n : Nat} {c : Char} (h : c ∈ (toString n).toList) : c.isDigit := by
  rw [Nat.toString_eq_ofList_toDigits, String.toList_ofList] at h
  exact Nat.isDigit_of_mem_toDigits (by decide) (by decide) h

theorem toString_inj {m n : Nat} : toString m = toString n ↔ m = n := by
  refine ⟨fun h => ?_, fun h => h ▸ rfl⟩
  rw [Nat.toString_eq_ofList_toDigits, Nat.toString_eq_ofList_toDigits, String.ofList_inj] at h
  calc
    m = Nat.ofDigitChars 10 (Nat.toDigits 10 m) 0 := Nat.ofDigitChars_ten_toDigits.symm
    _ = Nat.ofDigitChars 10 (Nat.toDigits 10 n) 0 := by rw [h]
    _ = n := Nat.ofDigitChars_ten_toDigits

theorem isDigit_or_eq_of_mem_toString_int {n : Int} {c : Char} (h : c ∈ (toString n).toList) :
    c.isDigit ∨ c = '-' := by
  cases n with
  | ofNat m => exact .inl (isDigit_of_mem_toString h)
  | negSucc m =>
    change c ∈ ("-" ++ toString (m + 1)).toList at h
    rw [String.toList_append, List.mem_append] at h
    rcases h with h | h
    · exact .inr (by simpa using h)
    · exact .inl (isDigit_of_mem_toString h)

theorem toString_int_inj {m n : Int} : toString m = toString n ↔ m = n := by
  refine ⟨fun h => ?_, fun h => h ▸ rfl⟩
  -- a number without a sign is not one with a sign
  have hne : ∀ a b : Nat, toString a ≠ "-" ++ toString (b + 1) := by
    intro a b hab
    have hmem : '-' ∈ (toString a).toList := by simp [hab]
    exact absurd (isDigit_of_mem_toString hmem) (by decide)
  cases m with
  | ofNat a =>
    cases n with
    | ofNat b => exact congrArg Int.ofNat (toString_inj.1 h)
    | negSucc b => exact absurd h (hne a b)
  | negSucc a =>
    cases n with
    | ofNat b => exact absurd h.symm (hne b a)
    | negSucc b =>
      have hab : toString (a + 1) = toString (b + 1) := (String.append_right_inj "-").1 h
      exact congrArg Int.negSucc (Nat.succ.inj (toString_inj.1 hab))

end Text

/-! ## Dimensions and element kinds -/

namespace Dim

theorem isDigit_or_eq_of_mem_text {d : Dim} {c : Char} (h : c ∈ d.text.toList) :
    c.isDigit ∨ c = '?' := by
  cases d with
  | known n => exact .inl (Text.isDigit_of_mem_toString h)
  | dynamic => exact .inr (by simpa [text] using h)

theorem x_notMem_text (d : Dim) : 'x' ∉ d.text.toList := by
  intro h
  rcases isDigit_or_eq_of_mem_text h with h | h
  · exact absurd h (by decide)
  · exact absurd h (by decide)

/-- No number prints as a question mark. -/
theorem text_known_ne_dynamic (n : Nat) : (known n).text ≠ dynamic.text := by
  intro h
  have hmem : '?' ∈ (known n).text.toList := by
    rw [h]
    decide
  exact absurd (Text.isDigit_of_mem_toString hmem) (by decide)

theorem text_inj {d e : Dim} : d.text = e.text ↔ d = e := by
  cases d with
  | known m =>
    cases e with
    | known n => exact Text.toString_inj.trans (by simp)
    | dynamic => simp [text_known_ne_dynamic]
  | dynamic =>
    cases e with
    | known n => simp [(text_known_ne_dynamic n).symm]
    | dynamic => simp

end Dim

namespace Element

theorem all_isAlphanum_text (e : Element) : e.text.toList.all Char.isAlphanum := by
  cases e <;> decide

theorem x_notMem_text (e : Element) : 'x' ∉ e.text.toList := by
  cases e <;> decide

theorem toList_text_ne_nil (e : Element) : e.text.toList ≠ [] := by
  cases e <;> decide

/-- Every kind can be read back. -/
theorem text_inj {e e' : Element} : e.text = e'.text ↔ e = e' := by
  refine ⟨fun h => ?_, fun h => h ▸ rfl⟩
  have hread := parse?_text e
  rw [h, parse?_text] at hread
  exact (Option.some.inj hread).symm

end Element

/-! ## Types -/

namespace TensorTy

/-- Between the brackets stand the dimensions and the element kind, with an `x` between any two. -/
theorem toList_text (t : TensorTy) :
    t.text.toList = "tensor<".toList ++
      ['x'].intercalate (t.dims.map (·.text.toList) ++ [t.element.text.toList]) ++ ['>'] := by
  obtain ⟨element, dims⟩ := t
  have hcells : ['x'].intercalate (dims.map (·.text.toList) ++ [element.text.toList]) =
      (String.join (dims.map fun d => d.text ++ "x")).toList ++ element.text.toList := by
    induction dims with
    | nil => simp
    | cons d dims ih =>
      rw [List.map_cons, List.cons_append, List.intercalate_cons_of_ne_nil (by simp), ih]
      simp
  rw [hcells]
  simp [text]

theorem text_inj {s t : TensorTy} : s.text = t.text ↔ s = t := by
  refine ⟨fun h => ?_, fun h => h ▸ rfl⟩
  have hfree : ∀ u : TensorTy,
      ∀ cell ∈ u.dims.map (·.text.toList) ++ [u.element.text.toList], 'x' ∉ cell := by
    intro u cell hcell
    rcases List.mem_append.1 hcell with hcell | hcell
    · obtain ⟨d, -, rfl⟩ := List.mem_map.1 hcell
      exact d.x_notMem_text
    · obtain rfl := List.mem_singleton.1 hcell
      exact u.element.x_notMem_text
  rw [← String.toList_inj, toList_text, toList_text, List.append_left_inj, List.append_right_inj,
    Text.intercalate_inj (hfree s) (hfree t) (by simp) (by simp)] at h
  obtain ⟨hdims, helement⟩ := List.append_inj' h rfl
  rw [List.map_inj_right fun d e hde => Dim.text_inj.1 (String.toList_inj.1 hde)] at hdims
  rw [List.singleton_inj, String.toList_inj, Element.text_inj] at helement
  cases s
  cases t
  cases hdims
  cases helement
  rfl

end TensorTy

namespace Ty

/-- The characters that occur in the texts of types. -/
def isLetter (c : Char) : Bool :=
  c.isAlphanum || c == '?' || c == '<' || c == '>'

theorem isLetter_of_isAlphanum {c : Char} (h : c.isAlphanum) : isLetter c := by
  simp [isLetter, h]

theorem all_isLetter_dim (d : Dim) : d.text.toList.all isLetter := by
  rw [List.all_eq_true]
  intro c hc
  rcases Dim.isDigit_or_eq_of_mem_text hc with h | rfl
  · exact isLetter_of_isAlphanum (by simp [Char.isAlphanum, h])
  · decide

theorem all_isLetter_element (e : Element) : e.text.toList.all isLetter := by
  rw [List.all_eq_true]
  exact fun c hc => isLetter_of_isAlphanum (List.all_eq_true.1 e.all_isAlphanum_text c hc)

theorem all_isLetter_text (ty : Ty) : ty.text.toList.all isLetter := by
  cases ty with
  | scalar e => exact all_isLetter_element e
  | tensor t =>
    have hopening : "tensor<".toList.all isLetter := by decide
    have hclosing : ">".toList.all isLetter := by decide
    have hcell : ∀ d : Dim, (d.text ++ "x").toList.all isLetter := by
      intro d
      rw [String.toList_append, List.all_append, all_isLetter_dim d]
      decide
    have hdims : (String.join (t.dims.map fun d => d.text ++ "x")).toList.all isLetter := by
      rw [String.toList_join, List.all_flatMap, List.all_map, List.all_eq_true]
      exact fun d _ => hcell d
    simp only [text, TensorTy.text, String.toList_append, List.all_append, hopening, hdims,
      all_isLetter_element, hclosing, Bool.and_self]

theorem text_inj {s t : Ty} : s.text = t.text ↔ s = t := by
  have hne : ∀ (e : Element) (u : TensorTy), e.text ≠ u.text := by
    intro e u h
    have hmem : '<' ∈ e.text.toList := by simp [h, TensorTy.text]
    exact absurd (List.all_eq_true.1 e.all_isAlphanum_text _ hmem) (by decide)
  cases s with
  | scalar e =>
    cases t with
    | scalar e' => exact Element.text_inj.trans (by simp)
    | tensor u => simpa [text] using hne e u
  | tensor u =>
    cases t with
    | scalar e => simpa [text] using (hne e u).symm
    | tensor u' => exact TensorTy.text_inj.trans (by simp)

/-- What is printed where a type belongs: its text, or a placeholder if there is none. -/
def entryText : Option Ty → String
  | some ty => ty.text
  | none => "<invalid>"

theorem entryText_ne_empty (o : Option Ty) : (entryText o).toList ≠ [] := by
  cases o with
  | none => decide
  | some ty =>
    cases ty with
    | scalar e => exact e.toList_text_ne_nil
    | tensor t => simp [entryText, text, TensorTy.text]

theorem isLetter_of_mem_entryText {o : Option Ty} {c : Char} (h : c ∈ (entryText o).toList) :
    isLetter c := by
  have hall : (entryText o).toList.all isLetter := by
    cases o with
    | none => decide
    | some ty => exact all_isLetter_text ty
  exact List.all_eq_true.1 hall c h

/-- The placeholder is the text of no type. -/
theorem text_ne_invalid (ty : Ty) : ty.text ≠ "<invalid>" := by
  cases ty with
  | scalar e => cases e <;> decide
  | tensor t =>
    intro h
    have hhead := congrArg (·.toList.head?) h
    simp [text, TensorTy.text] at hhead

theorem entryText_inj {o o' : Option Ty} : entryText o = entryText o' ↔ o = o' := by
  cases o with
  | none =>
    cases o' with
    | none => simp
    | some ty => simpa [entryText] using (text_ne_invalid ty).symm
  | some ty =>
    cases o' with
    | none => simpa [entryText] using text_ne_invalid ty
    | some ty' => exact text_inj.trans (by simp)

theorem entries_inj {l l' : List (Option Ty)} :
    ", ".intercalate (l.map entryText) = ", ".intercalate (l'.map entryText) ↔ l = l' := by
  have hcells : ∀ {l : List (Option Ty)},
      ∀ cell ∈ (l.map entryText).map String.toList, ',' ∉ cell ∧ cell ≠ [] := by
    intro l cell hcell
    simp only [List.mem_map, exists_exists_and_eq_and] at hcell
    obtain ⟨o, -, rfl⟩ := hcell
    exact ⟨fun h => absurd (isLetter_of_mem_entryText h) (by decide), entryText_ne_empty o⟩
  rw [← String.toList_inj, String.toList_intercalate, String.toList_intercalate]
  change [',', ' '].intercalate _ = [',', ' '].intercalate _ ↔ _
  rw [Text.intercalate_inj_of_ne_nil hcells hcells,
    List.map_inj_right fun _ _ => String.toList_inj.1,
    List.map_inj_right fun _ _ => entryText_inj.1]

theorem paren_notMem_entries (l : List (Option Ty)) :
    ')' ∉ (", ".intercalate (l.map entryText)).toList := by
  intro h
  rw [String.toList_intercalate] at h
  rcases Text.mem_of_mem_intercalate h with h | ⟨cell, hcell, h⟩
  · exact absurd h (by decide)
  · simp only [List.mem_map, exists_exists_and_eq_and] at hcell
    obtain ⟨o, -, rfl⟩ := hcell
    exact absurd (isLetter_of_mem_entryText h) (by decide)

theorem listText_eq (tys : List Ty) :
    listText tys = ", ".intercalate ((tys.map some).map entryText) := by
  rw [List.map_map]
  rfl

theorem listText_inj {tys tys' : List Ty} : listText tys = listText tys' ↔ tys = tys' := by
  rw [listText_eq, listText_eq, entries_inj, List.map_inj_right fun _ _ => Option.some.inj]

theorem paren_notMem_listText (tys : List Ty) : ')' ∉ (listText tys).toList := by
  rw [listText_eq]
  exact paren_notMem_entries _

end Ty

/-! ## Signatures -/

namespace Signature

/-- A signature can be read off the front of a longer text. -/
theorem text_append_inj {s t : Signature} {r r' : String} :
    s.text ++ r = t.text ++ r' ↔ s = t ∧ r = r' := by
  have hlist : ∀ (u : Signature) (r : String), (u.text ++ r).toList =
      '(' :: ((Ty.listText u.inputs).toList ++
        ')' :: (" -> (".toList ++ ((Ty.listText u.outputs).toList ++ ')' :: r.toList))) := by
    intro u r
    simp [text]
  rw [← String.toList_inj, hlist, hlist, List.cons.injEq,
    Text.append_cons_inj (Ty.paren_notMem_listText _) (Ty.paren_notMem_listText _),
    List.append_right_inj,
    Text.append_cons_inj (Ty.paren_notMem_listText _) (Ty.paren_notMem_listText _),
    String.toList_inj, String.toList_inj, String.toList_inj, Ty.listText_inj, Ty.listText_inj]
  obtain ⟨inputs, outputs⟩ := s
  obtain ⟨inputs', outputs'⟩ := t
  simp [and_assoc]

theorem text_inj {s t : Signature} : s.text = t.text ↔ s = t := by
  have h := @text_append_inj s t "" ""
  simpa using h

end Signature

/-! ## Types on the line of an operation -/

namespace Func

variable {f g : Func} {vs ws : List ValueId}

theorem tyText_eq (f : Func) (v : ValueId) : f.tyText v = Ty.entryText (f.valueTy? v) := rfl

theorem tyList_eq (f : Func) (vs : List ValueId) :
    f.tyList vs = ", ".intercalate ((vs.map f.valueTy?).map Ty.entryText) := by
  rw [List.map_map]
  rfl

theorem tyList_inj : f.tyList vs = g.tyList ws ↔ vs.map f.valueTy? = ws.map g.valueTy? := by
  rw [tyList_eq, tyList_eq, Ty.entries_inj]

theorem resultTyList_of_ne_singleton (f : Func) (h : ∀ v, vs ≠ [v]) :
    f.resultTyList vs = "(" ++ f.tyList vs ++ ")" := by
  cases vs with
  | nil => rfl
  | cons v vs =>
    cases vs with
    | nil => exact absurd rfl (h v)
    | cons u vs => rfl

/-- No type starts with a parenthesis, so a single result is not taken for several. -/
theorem tyText_ne_resultTyList {v : ValueId} (h : ∀ w, ws ≠ [w]) :
    f.tyText v ≠ g.resultTyList ws := by
  intro heq
  have hmem : '(' ∈ (f.tyText v).toList := by
    rw [heq, resultTyList_of_ne_singleton g h]
    simp
  rw [tyText_eq] at hmem
  exact absurd (Ty.isLetter_of_mem_entryText hmem) (by decide)

theorem resultTyList_inj :
    f.resultTyList vs = g.resultTyList ws ↔ vs.map f.valueTy? = ws.map g.valueTy? := by
  by_cases hvs : ∃ v, vs = [v]
  · obtain ⟨v, rfl⟩ := hvs
    by_cases hws : ∃ w, ws = [w]
    · obtain ⟨w, rfl⟩ := hws
      change f.tyText v = g.tyText w ↔ _
      rw [tyText_eq, tyText_eq, Ty.entryText_inj]
      simp
    · have hws' : ∀ w, ws ≠ [w] := fun w h => hws ⟨w, h⟩
      refine iff_of_false (tyText_ne_resultTyList hws') fun h => ?_
      obtain ⟨w, rfl⟩ := List.length_eq_one_iff.1 (by simpa using (congrArg List.length h).symm)
      exact hws ⟨w, rfl⟩
  · have hvs' : ∀ v, vs ≠ [v] := fun v h => hvs ⟨v, h⟩
    by_cases hws : ∃ w, ws = [w]
    · obtain ⟨w, rfl⟩ := hws
      refine iff_of_false (tyText_ne_resultTyList hvs').symm fun h => ?_
      obtain ⟨v, rfl⟩ := List.length_eq_one_iff.1 (by simpa using congrArg List.length h)
      exact hvs ⟨v, rfl⟩
    · rw [resultTyList_of_ne_singleton f hvs',
        resultTyList_of_ne_singleton g fun w h => hws ⟨w, h⟩, String.append_left_inj,
        String.append_right_inj, tyList_inj]

end Func

/-- **Types that differ print differently.** Signatures with equal texts are equal, and so are types
with equal texts; nor can the types on the line of an operation be mistaken, those of its operands
as little as those of its results. -/
theorem type_texts_unambiguous :
    (∀ s t : Signature, s.text = t.text ↔ s = t) ∧
    (∀ s t : Ty, s.text = t.text ↔ s = t) ∧
    ∀ (f g : Func) (vs ws : List ValueId),
      (f.tyList vs = g.tyList ws ↔ vs.map f.valueTy? = ws.map g.valueTy?) ∧
      (f.resultTyList vs = g.resultTyList ws ↔ vs.map f.valueTy? = ws.map g.valueTy?) :=
  ⟨fun _ _ => Signature.text_inj, fun _ _ => Ty.text_inj,
    fun _ _ _ _ => ⟨Func.tyList_inj, Func.resultTyList_inj⟩⟩

/-- Types whose texts are closest. -/
example :
    [Ty.scalar .f32, .tensor ⟨.f32, []⟩, .tensor ⟨.f32, [.known 1, .known 2]⟩,
        .tensor ⟨.f32, [.known 12]⟩, .tensor ⟨.f32, [.dynamic]⟩].map Ty.text =
      ["f32", "tensor<f32>", "tensor<1x2xf32>", "tensor<12xf32>", "tensor<?xf32>"] := by
  decide

end TensorIR
