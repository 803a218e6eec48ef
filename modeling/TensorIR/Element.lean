/-!
# Element kinds

The scalar kinds that a value, or the elements of a tensor, can have, with their texts.
-/

namespace TensorIR

/-- The kind of a scalar, or of a tensor's elements. -/
inductive Element where
  | f16
  | f32
  | f64
  | i8
  | i16
  | i32
  | i64
  | u8
  | bool
  deriving DecidableEq, Repr, Inhabited

namespace Element

/-- The text of an element kind in printed programs. -/
def text : Element → String
  | f16 => "f16"
  | f32 => "f32"
  | f64 => "f64"
  | i8 => "i8"
  | i16 => "i16"
  | i32 => "i32"
  | i64 => "i64"
  | u8 => "ui8"
  | bool => "i1"

/-- A second text under which each kind is read. -/
def longName : Element → String
  | f16 => "float16"
  | f32 => "float32"
  | f64 => "float64"
  | i8 => "int8"
  | i16 => "int16"
  | i32 => "int32"
  | i64 => "int64"
  | u8 => "uint8"
  | bool => "bool"

/-- Every kind, once. -/
def all : List Element :=
  [f16, f32, f64, i8, i16, i32, i64, u8, bool]

/-- Read an element kind from either of its texts. -/
def parse? (s : String) : Option Element :=
  all.find? fun e => s == e.text || s == e.longName

theorem parse?_text (e : Element) : parse? e.text = some e := by
  cases e <;> decide

end Element

end TensorIR
