import TensorIR.Decimal.Layout
import TensorIR.Element
import TensorIR.StringMap
import TensorIR.Text.Quoted

/-!
# Attributes

Static values attached to an operation under a name, the readings that an operator may ask for, and
their text. A reading is generous where no meaning is lost: a number is also a truth value and a
list of one number, and a text is also an element kind.
-/

namespace TensorIR

/-- A static value attached to an operation. Floating-point numbers are kept as bit patterns, so
that equal attributes are the same attribute. -/
inductive Attr where
  | int (value : Int)
  | float (bits : UInt64)
  | bool (value : Bool)
  | string (value : String)
  | ints (values : List Int)
  | floats (bits : List UInt64)
  | element (value : Element)
  deriving DecidableEq, Repr, Inhabited

/-- The attributes of an operation. -/
abbrev Attributes := StringMap Attr

namespace Attr

/-- The word for the kind of an attribute in messages. -/
def kind : Attr → String
  | int _ => "int"
  | float _ => "float"
  | bool _ => "bool"
  | string _ => "string"
  | ints _ => "ints"
  | floats _ => "floats"
  | element _ => "type"

/-- Why an attribute cannot be read in the way that was asked for. -/
inductive Mismatch where
  /-- The attribute has another kind. -/
  | kind (expected found : String)
  /-- The attribute is a text, but not one of an element kind. -/
  | unknownElement (text : String)
  deriving DecidableEq, Repr, Inhabited

/-- Read a number. -/
def toInt : Attr → Except Mismatch Int
  | int v => .ok v
  | a => .error (.kind "int" a.kind)

/-- Read a truth value; every number but zero is true. -/
def toBool : Attr → Except Mismatch Bool
  | bool v => .ok v
  | int v => .ok (v != 0)
  | a => .error (.kind "bool" a.kind)

/-- Read a list of numbers; a number is a list of one. -/
def toInts : Attr → Except Mismatch (List Int)
  | ints vs => .ok vs
  | int v => .ok [v]
  | a => .error (.kind "ints" a.kind)

/-- Read an element kind, or the text of one. -/
def toElement : Attr → Except Mismatch Element
  | element e => .ok e
  | string s =>
    match Element.parse? s with
    | some e => .ok e
    | none => .error (.unknownElement s)
  | a => .error (.kind "type" a.kind)

/-- Floating-point attributes are written positionally from one ten-thousandth up to sixteen digits
before the point. -/
def floatLayout : Decimal.Layout := ⟨-4, 15, true⟩

/-- Texts in brackets, separated by commas. -/
def bracketed (items : List String) : String :=
  "[" ++ ", ".intercalate items ++ "]"

def text : Attr → String
  | int v => toString v ++ " : i64"
  | float bits => floatLayout.text bits ++ " : f64"
  | bool v => if v then "true" else "false"
  | string s => Text.quote s
  | ints vs => bracketed (vs.map toString)
  | floats bits => bracketed (bits.map floatLayout.text)
  | element e => e.text

end Attr

end TensorIR
