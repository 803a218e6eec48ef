import Mathlib.Data.List.Perm.Basic
import TensorIR.Proofs.Broadcast.Axes
import TensorIR.Proofs.Relay.Operators
import TensorIR.Proofs.Relay.Static

/-!
# Broadcasting in any order

Of extents, 1 gives way to everything, an open one to every known one, and two different known ones
have nothing above them. So the broadcast of two extents is a least upper bound, as far as there is
one, and the order in which more than two are put together does not matter. Axis by axis the same
holds of shapes (`dims_assoc`), and so it holds of operations that broadcast their operands: the
shape that is inferred for a chain of them is the broadcast of all values in it
(`Chain.dims?_eq_foldr`). Failures count as one value throughout.
-/

namespace TensorIR

/-! ## Extents -/

namespace Dim

variable {a b d : Dim}

theorem broadcast?_comm (a b : Dim) : a.broadcast? b = b.broadcast? a := by
  cases a <;> cases b <;> grind [broadcast?]

theorem broadcast?_self (a : Dim) : a.broadcast? a = some a := by
  cases a <;> simp [broadcast?]

theorem broadcast?_one (a : Dim) : a.broadcast? (known 1) = some a := by
  cases a <;> grind [broadcast?]

theorem one_broadcast? (a : Dim) : (known 1).broadcast? a = some a := by
  rw [broadcast?_comm, broadcast?_one]

theorem broadcast?_dynamic (h : a ≠ known 1) : a.broadcast? dynamic = some a := by
  cases a <;> grind [broadcast?]

theorem dynamic_broadcast? (h : a ≠ known 1) : dynamic.broadcast? a = some a := by
  rw [broadcast?_comm, broadcast?_dynamic h]

theorem broadcast?_known {m n : Nat} (hm : m ≠ 1) (hn : n ≠ 1) :
    (known m).broadcast? (known n) = if m = n then some (known m) else none := by
  simp [broadcast?, hm, hn]

/-- Broadcasting does not lead back to 1. -/
theorem ne_one_of_broadcast? (h : a.broadcast? b = some d) (hb : b ≠ known 1) : d ≠ known 1 := by
  cases a <;> cases b <;> grind [broadcast?]

theorem broadcast?_assoc (a b c : Dim) :
    ((a.broadcast? b).bind fun d => d.broadcast? c) =
      (b.broadcast? c).bind fun d => a.broadcast? d := by
  -- an extent of 1 drops out at every place
  by_cases ha : a = known 1
  · simp only [ha, one_broadcast?, Option.bind_some, Option.bind_fun_some]
  by_cases hb : b = known 1
  · simp only [hb, one_broadcast?, broadcast?_one, Option.bind_some]
  by_cases hc : c = known 1
  · simp only [hc, broadcast?_one, Option.bind_some, Option.bind_fun_some]
  -- next to any other extent, so does an open one
  cases a with
  | dynamic =>
    rw [dynamic_broadcast? hb, Option.bind_some]
    cases hd : b.broadcast? c with
    | none => rfl
    | some d => exact (dynamic_broadcast? (ne_one_of_broadcast? hd hc)).symm
  | known m =>
    cases b with
    | dynamic =>
      rw [broadcast?_dynamic ha, dynamic_broadcast? hc, Option.bind_some, Option.bind_some]
    | known n =>
      cases c with
      | dynamic =>
        rw [broadcast?_dynamic hb, Option.bind_some]
        cases hd : (known m).broadcast? (known n) with
        | none => rfl
        | some d => exact broadcast?_dynamic (ne_one_of_broadcast? hd hb)
      | known k =>
        rw [known.injEq] at ha hb hc
        rw [broadcast?_known ha hb, broadcast?_known hb hc]
        by_cases hmn : m = n
        · subst hmn
          by_cases hmk : m = k
          · simp [hmk]
          · simp [hmk, broadcast?_known ha hc]
        · by_cases hnk : n = k
          · rw [if_neg hmn, if_pos hnk]
            simp [hmn, broadcast?_known ha hb]
          · simp [hmn, hnk]

end Dim

/-! ## Shapes -/

namespace Broadcast

variable {a b c d e : List Dim}

theorem dims_comm (a b : List Dim) : (dims a b).toOption = (dims b a).toOption := by
  apply Option.ext
  intro d
  simp only [Fallible.toOption_eq_some_iff, dims_eq_ok_iff, Nat.max_comm a.length,
    Dim.broadcast?_comm (axis a _)]

theorem dims_eq_ok_comm : dims a b = .ok d ↔ dims b a = .ok d := by
  rw [← Fallible.toOption_eq_some_iff, dims_comm, Fallible.toOption_eq_some_iff]

theorem dims_self (a : List Dim) : dims a a = .ok a :=
  dims_eq_ok_iff.2 ⟨by omega, fun _ => Dim.broadcast?_self _⟩

theorem dims_nil (a : List Dim) : dims a [] = .ok a :=
  dims_eq_ok_iff.2 ⟨by simp, fun _ => Dim.broadcast?_one _⟩

/-- Three shapes, two of them first. -/
theorem exists_dims_dims_iff :
    (∃ d, dims a b = .ok d ∧ dims d c = .ok e) ↔
      e.length = max (max a.length b.length) c.length ∧
        ∀ k, (((axis a k).broadcast? (axis b k)).bind fun d => d.broadcast? (axis c k)) =
          some (axis e k) := by
  constructor
  · rintro ⟨d, hd, he⟩
    obtain ⟨hdlen, hd⟩ := dims_eq_ok_iff.1 hd
    obtain ⟨helen, he⟩ := dims_eq_ok_iff.1 he
    refine ⟨by omega, fun k => ?_⟩
    rw [hd k, Option.bind_some, he k]
  · rintro ⟨helen, he⟩
    have hdims : ∀ k, ∃ d, (axis a k).broadcast? (axis b k) = some d := by
      intro k
      obtain ⟨d, hd, -⟩ := Option.bind_eq_some_iff.1 (he k)
      exact ⟨d, hd⟩
    obtain ⟨d, hd⟩ := exists_dims_iff.2 hdims
    refine ⟨d, hd, dims_eq_ok_iff.2 ⟨?_, fun k => ?_⟩⟩
    · rw [helen, (dims_eq_ok_iff.1 hd).1]
    · have hk := he k
      rwa [(dims_eq_ok_iff.1 hd).2 k, Option.bind_some] at hk

theorem dims_assoc (a b c : List Dim) :
    ((dims a b).toOption.bind fun d => (dims d c).toOption) =
      (dims b c).toOption.bind fun d => (dims a d).toOption := by
  apply Option.ext
  intro e
  have hleft : ((dims a b).toOption.bind fun d => (dims d c).toOption) = some e ↔
      ∃ d, dims a b = .ok d ∧ dims d c = .ok e := by
    simp only [Option.bind_eq_some_iff, Fallible.toOption_eq_some_iff]
  have hright : ((dims b c).toOption.bind fun d => (dims a d).toOption) = some e ↔
      ∃ d, dims b c = .ok d ∧ dims d a = .ok e := by
    simp only [Option.bind_eq_some_iff, Fallible.toOption_eq_some_iff, dims_eq_ok_comm (a := a)]
  rw [hleft, hright, exists_dims_dims_iff, exists_dims_dims_iff]
  apply and_congr
  · rw [Nat.max_assoc, Nat.max_comm]
  · apply forall_congr'
    intro k
    simp only [Dim.broadcast?_assoc, Dim.broadcast?_comm _ (axis a k)]

/-- The broadcast of shapes, either of which may be missing. -/
def join (x y : Option (List Dim)) : Option (List Dim) :=
  x.bind fun a => y.bind fun b => (dims a b).toOption

@[simp] theorem join_some (a b : List Dim) : join (some a) (some b) = (dims a b).toOption := rfl

@[simp] theorem join_none_left (x : Option (List Dim)) : join none x = none := rfl

@[simp] theorem join_none_right (x : Option (List Dim)) : join x none = none := by
  cases x <;> rfl

theorem join_nil (x : Option (List Dim)) : join x (some []) = x := by
  cases x with
  | none => rfl
  | some a => rw [join_some, dims_nil, Except.toOption]

theorem nil_join (x : Option (List Dim)) : join (some []) x = x := by
  cases x with
  | none => rfl
  | some a => rw [join_some, dims_comm, dims_nil, Except.toOption]

instance : Std.Commutative join where
  comm x y := by
    cases x with
    | none => simp
    | some a =>
      cases y with
      | none => simp
      | some b => exact dims_comm a b

instance : Std.Associative join where
  assoc x y z := by
    cases x with
    | none => simp
    | some a =>
      cases y with
      | none => simp
      | some b =>
        cases z with
        | none => simp
        | some c => exact dims_assoc a b c

theorem foldr_join (xs : List (Option (List Dim))) (x : Option (List Dim)) :
    xs.foldr join x = join (xs.foldr join (some [])) x := by
  calc xs.foldr join x = xs.foldr join (join (some []) x) := by rw [nil_join]
    _ = join (xs.foldr join (some [])) x := List.foldr_assoc

end Broadcast

/-! ## Chains of operations -/

namespace Relay

/-- Values put together by operations on two operands each. An operation has attributes, and a type
is declared for its result. -/
inductive Chain where
  | value (ty : Ty)
  | operation (attributes : Attributes) (declared : Ty) (left right : Chain)
  deriving DecidableEq, Inhabited

namespace Chain

/-- The types of the values that are put together, from left to right. -/
def values : Chain → List Ty
  | value ty => [ty]
  | operation _ _ left right => left.values ++ right.values

/-- Infer the type of what comes out, operation by operation. -/
def infer : Chain → Except Fault Ty
  | value ty => .ok ty
  | operation attributes declared left right => do
    let l ← left.infer
    let r ← right.infer
    match ← binary ⟨[some l, some r], attributes⟩ with
    | [c] => return c.resolve declared
    | cs => .error (.shape ("one component is needed, not " ++ toString cs.length))

/-- The dimensions of what comes out, if they can be inferred. -/
def dims? (t : Chain) : Option (List Dim) :=
  t.infer.toOption.map Ty.dims

end Chain

open Broadcast (dims join)

theorem binary_eq (l r : Ty) (attributes : Attributes) :
    binary ⟨[some l, some r], attributes⟩ =
      ((dims l.dims r.dims).mapError fun e => Fault.shape e.message).map single := rfl

namespace Chain

/-- One operation infers the broadcast of its two sides. -/
theorem dims?_operation (attributes : Attributes) (declared : Ty) (left right : Chain) :
    (operation attributes declared left right).dims? = join left.dims? right.dims? := by
  unfold dims?
  rw [infer]
  cases left.infer with
  | error e => rfl
  | ok l =>
    cases right.infer with
    | error e => rfl
    | ok r =>
      simp only [bind, Except.bind, binary_eq]
      change _ = (dims l.dims r.dims).toOption
      cases dims l.dims r.dims with
      | error e => rfl
      | ok d => exact congrArg some (Component.dims_resolve ⟨d, none⟩ declared)

/-- A chain infers the broadcast of all values in it. -/
theorem dims?_eq_foldr (t : Chain) :
    t.dims? = ((t.values.map Ty.dims).map some).foldr join (some []) := by
  induction t with
  | value ty => exact (Broadcast.join_nil _).symm
  | operation attributes declared left right hleft hright =>
    rw [dims?_operation, hleft, hright, values, List.map_append, List.map_append,
      List.foldr_append]
    exact (Broadcast.foldr_join _ _).symm

end Chain

/-- **Broadcasting is a partial semilattice** whose least element is the shape without axes. The
operators that work on two tensors element by element infer the broadcast of their operands, so the
shape of a chain of them, or that there is none, does not depend on how the chain is bracketed, nor
on the order of the values in it. -/
theorem broadcast_semilattice :
    (∀ a b, (dims a b).toOption = (dims b a).toOption) ∧
    (∀ a, dims a a = .ok a) ∧
    (∀ a, dims a [] = .ok a) ∧
    (∀ a b c, ((dims a b).toOption.bind fun d => (dims d c).toOption) =
      (dims b c).toOption.bind fun d => (dims a d).toOption) ∧
    (∀ base ∈ ["add", "subtract", "multiply", "divide", "maximum", "minimum"],
      registry.rule? (dialectName ++ "." ++ base) = some (ShapeRule.ofInputs binary)) ∧
    ∀ t t' : Chain, (t.values.map Ty.dims).Perm (t'.values.map Ty.dims) → t.dims? = t'.dims? := by
  refine ⟨Broadcast.dims_comm, Broadcast.dims_self, Broadcast.dims_nil, Broadcast.dims_assoc, ?_,
    fun t t' h => ?_⟩
  · intro base hbase
    have hmem : operator base .broadcast (.ofInputs binary) ∈ operators := by
      simp only [List.mem_cons, List.not_mem_nil, or_false] at hbase
      rcases hbase with rfl | rfl | rfl | rfl | rfl | rfl <;> simp [operators]
    exact rule?_of_mem hmem
  · rw [t.dims?_eq_foldr, t'.dims?_eq_foldr]
    exact (h.map some).foldr_op_eq

/-- Three tensors and a scalar in two orders, with an open extent that is settled late in one of
them and early in the other. -/
theorem broadcast_semilattice_chain :
    let column : Ty := .tensor ⟨.f32, [.known 2, .known 1]⟩
    let rows : Ty := .tensor ⟨.f32, [.dynamic]⟩
    let row : Ty := .tensor ⟨.f32, [.known 3]⟩
    let number : Ty := .scalar .f32
    let both (left right : Chain) : Chain := .operation ∅ number left right
    let t := both (both (both (.value column) (.value rows)) (.value number)) (.value row)
    let t' := both (both (.value row) (.value rows)) (both (.value number) (.value column))
    (t.values.map Ty.dims).Perm (t'.values.map Ty.dims) ∧ t.dims? = t'.dims? ∧
      t.dims? = some [.known 2, .known 3] := by
  intro column rows row number both t t'
  have hperm : (t.values.map Ty.dims).Perm (t'.values.map Ty.dims) := by decide
  obtain ⟨-, -, -, -, -, hchain⟩ := broadcast_semilattice
  exact ⟨hperm, hchain t t' hperm, by decide⟩

end Relay

end TensorIR
