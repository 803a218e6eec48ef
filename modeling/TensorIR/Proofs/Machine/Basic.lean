import Mathlib.Algebra.Group.Int.Defs
import Mathlib.Algebra.Group.Nat.Defs
import TensorIR.Proofs.Fallible
import TensorIR.Relay.Extent

/-!
# Computing with machine words

A machine computes with words of 64 bits: a read can miss its list, a division can be one by zero,
and a sum or a difference can leave the range of its word. Each of these ends the evaluation in a
`Trap`, which is not an error that anyone could report. A cast between signed and unsigned words
drops what does not fit, and never traps.

An evaluation `Runs` to a result or an error of a computation on numbers of any size if it comes to
the same without a trap. To show it, follow the steps of both (`Runs.bind`, `Runs.step`).
-/

namespace TensorIR.Machine

open Relay (signedWord)

/-- What ends an evaluation without a result. -/
inductive Trap where
  | outOfBounds
  | divisionByZero
  /-- A sum or a difference does not fit in its word. -/
  | overflow
  deriving DecidableEq, Repr, Inhabited

/-- An evaluation ends in a trap, or with a result or an error. -/
abbrev Eval (ε α : Type) := ExceptT ε (Except Trap) α

variable {ε α β : Type}

/-- The evaluation ends here, whatever it was to come to. -/
def trap (t : Trap) : Eval ε α :=
  ExceptT.mk (.error t)

/-- A computation without a step that could trap. -/
def attempt (r : Except ε α) : Eval ε α :=
  ExceptT.mk (.ok r)

/-! ## Evaluations that run to a result -/

/-- The evaluation comes to the same result or error, without a trap. -/
def Runs (x : Eval ε α) (r : Except ε α) : Prop :=
  x.run = .ok r

namespace Runs

variable {x y : Eval ε α} {r s : Except ε α}

theorem pure (a : α) : Runs (Pure.pure a : Eval ε α) (.ok a) :=
  rfl

theorem throw (e : ε) : Runs (MonadExcept.throw e : Eval ε α) (.error e) :=
  rfl

theorem attempt (r : Except ε α) : Runs (attempt r) r :=
  rfl

theorem bind {k : α → Eval ε β} {l : α → Except ε β} (hx : Runs x r)
    (hk : ∀ a, r = .ok a → Runs (k a) (l a)) : Runs (x >>= k) (r >>= l) := by
  have hx : x = ExceptT.mk (.ok r) := hx
  subst hx
  cases r with
  | error e => rfl
  | ok a => exact hk a rfl

/-- After a step that has a result, the evaluation goes on with it. -/
theorem step {a : α} {k : α → Eval ε β} {l : Except ε β} (hx : Runs x (.ok a))
    (hk : Runs (k a) l) : Runs (x >>= k) l := by
  have hx : x = ExceptT.mk (.ok (.ok a)) := hx
  subst hx
  exact hk

/-- Nothing is evaluated after an error. -/
theorem halt {e : ε} {k : α → Eval ε β} (hx : Runs x (.error e)) :
    Runs (x >>= k) (.error e) := by
  have hx : x = ExceptT.mk (.ok (.error e)) := hx
  subst hx
  rfl

/-- The evaluation goes on with the result in another form. -/
theorem bind_map {γ : Type} {f : α → β} {x : Eval ε β} {k : β → Eval ε γ} {l : α → Except ε γ}
    (hx : Runs x (r >>= fun a => .ok (f a))) (hk : ∀ a, r = .ok a → Runs (k (f a)) (l a)) :
    Runs (x >>= k) (r >>= l) := by
  cases r with
  | error e => exact halt hx
  | ok a => exact step hx (hk a rfl)

theorem ite {p : Prop} [Decidable p] (hx : p → Runs x r) (hy : ¬p → Runs y s) :
    Runs (if p then x else y) (if p then r else s) := by
  by_cases hp : p
  · rw [if_pos hp, if_pos hp]
    exact hx hp
  · rw [if_neg hp, if_neg hp]
    exact hy hp

theorem map {f : α → β} (hx : Runs x r) : Runs (f <$> x) (f <$> r) := by
  have hx : x = ExceptT.mk (.ok r) := hx
  subst hx
  cases r <;> rfl

theorem mapM {k : α → Eval ε β} {l : α → Except ε β} {as : List α}
    (h : ∀ a ∈ as, Runs (k a) (l a)) : Runs (as.mapM k) (as.mapM l) := by
  induction as with
  | nil => exact pure []
  | cons a as ih =>
    rw [List.forall_mem_cons] at h
    rw [List.mapM_cons, List.mapM_cons]
    refine h.1.bind fun b _ => (ih h.2).bind fun bs _ => ?_
    exact pure (b :: bs)

/-- The same computation, with errors of another kind. -/
theorem adapt {δ : Type} {f : ε → δ} (hx : Runs x r) :
    Runs (ExceptT.adapt f x) (r.mapError f) := by
  have hx : x = ExceptT.mk (.ok r) := hx
  subst hx
  rfl

end Runs

/-! ## Lists -/

def index (xs : List α) (k : Nat) : Eval ε α :=
  match xs[k]? with
  | some x => pure x
  | none => trap .outOfBounds

def store (xs : List α) (k : Nat) (x : α) : Eval ε (List α) :=
  if k < xs.length then pure (xs.set k x) else trap .outOfBounds

/-- Put a list in front of the member at a place, or behind all members. -/
def splice (xs : List α) (k : Nat) (new : List α) : Eval ε (List α) :=
  if k ≤ xs.length then pure (xs.take k ++ new ++ xs.drop k) else trap .outOfBounds

theorem runs_index {xs : List α} {k : Nat} {x : α} (h : xs[k]? = some x) :
    Runs (index xs k : Eval ε α) (.ok x) := by
  rw [index, h]
  exact .pure x

theorem runs_store {xs : List α} {k : Nat} (h : k < xs.length) (x : α) :
    Runs (store xs k x : Eval ε (List α)) (.ok (xs.set k x)) := by
  rw [store, if_pos h]
  exact .pure _

theorem runs_splice {xs : List α} {k : Nat} (h : k ≤ xs.length) (new : List α) :
    Runs (splice xs k new : Eval ε (List α)) (.ok (xs.take k ++ new ++ xs.drop k)) := by
  rw [splice, if_pos h]
  exact .pure _

/-! ## Words -/

def add (a b : Nat) : Eval ε Nat :=
  if a + b < extentLimit then pure (a + b) else trap .overflow

def sub (a b : Nat) : Eval ε Nat :=
  if b ≤ a then pure (a - b) else trap .overflow

def div (a b : Nat) : Eval ε Nat :=
  if b ≠ 0 then pure (a / b) else trap .divisionByZero

def rem (a b : Nat) : Eval ε Nat :=
  if b ≠ 0 then pure (a % b) else trap .divisionByZero

/-- The quotient, rounded up. -/
def divCeil (a b : Nat) : Eval ε Nat := do
  let quotient ← div a b
  let rest ← rem a b
  if 0 < rest then add quotient 1 else return quotient

/-- The sum, or the greatest word if it does not fit. -/
def saturatingAdd (a b : Nat) : Nat :=
  min (a + b) (extentLimit - 1)

/-- The number fits in a signed word. -/
def IsSigned (v : Int) : Prop :=
  -2 ^ 63 ≤ v ∧ v < 2 ^ 63

instance (v : Int) : Decidable (IsSigned v) :=
  inferInstanceAs (Decidable (_ ∧ _))

def addSigned (a b : Int) : Eval ε Int :=
  if IsSigned (a + b) then pure (a + b) else trap .overflow

/-- The unsigned word of the same bits as a signed one. -/
def toUnsigned (v : Int) : Nat :=
  (v % extentLimit).toNat

theorem runs_add {a b : Nat} (h : a + b < extentLimit) :
    Runs (add a b : Eval ε Nat) (.ok (a + b)) := by
  rw [add, if_pos h]
  exact .pure _

theorem runs_sub {a b : Nat} (h : b ≤ a) : Runs (sub a b : Eval ε Nat) (.ok (a - b)) := by
  rw [sub, if_pos h]
  exact .pure _

theorem runs_div {a b : Nat} (h : b ≠ 0) : Runs (div a b : Eval ε Nat) (.ok (a / b)) := by
  rw [div, if_pos h]
  exact .pure _

theorem runs_rem {a b : Nat} (h : b ≠ 0) : Runs (rem a b : Eval ε Nat) (.ok (a % b)) := by
  rw [rem, if_pos h]
  exact .pure _

/-- Rounded up, a quotient is one more if there is a rest. -/
theorem ceilDiv_eq (a : Nat) {b : Nat} (hb : b ≠ 0) :
    (a + b - 1) / b = a / b + if 0 < a % b then 1 else 0 := by
  have hpos : 0 < b := Nat.pos_of_ne_zero hb
  have hsplit : b * (a / b) + a % b = a := Nat.div_add_mod a b
  have hrest : a % b < b := Nat.mod_lt a hpos
  split
  · have hceil : a + b - 1 = b * (a / b + 1) + (a % b - 1) := by
      rw [Nat.mul_add]
      omega
    have hlast : (a % b - 1) / b = 0 := Nat.div_eq_of_lt (by omega)
    rw [hceil, Nat.mul_add_div hpos, hlast]
  · have hceil : a + b - 1 = b * (a / b) + (b - 1) := by omega
    have hlast : (b - 1) / b = 0 := Nat.div_eq_of_lt (by omega)
    rw [hceil, Nat.mul_add_div hpos, hlast]

/-- The quotient is no more than the dividend, rounded up or not. -/
theorem runs_divCeil {a b : Nat} (hb : b ≠ 0) (ha : a < extentLimit) :
    Runs (divCeil a b : Eval ε Nat) (.ok ((a + b - 1) / b)) := by
  have hsplit : b * (a / b) + a % b = a := Nat.div_add_mod a b
  have hle : a / b ≤ b * (a / b) := Nat.le_mul_of_pos_left _ (Nat.pos_of_ne_zero hb)
  rw [ceilDiv_eq a hb]
  refine .step (runs_div hb) (.step (runs_rem hb) ?_)
  split
  · exact runs_add (by omega)
  · exact .pure _

theorem runs_addSigned {a b : Int} (h : IsSigned (a + b)) :
    Runs (addSigned a b : Eval ε Int) (.ok (a + b)) := by
  rw [addSigned, if_pos h]
  exact .pure _

theorem saturatingAdd_of_lt {a b : Nat} (h : a + b < extentLimit) : saturatingAdd a b = a + b := by
  unfold saturatingAdd
  omega

theorem toUnsigned_of_nonneg {v : Int} (h : 0 ≤ v) (hv : IsSigned v) : toUnsigned v = v.toNat := by
  obtain ⟨-, hlt⟩ := hv
  unfold toUnsigned
  rw [Int.emod_eq_of_lt h (by simp only [extentLimit, UInt64.size]; omega)]

theorem signedWord_of_lt {n : Nat} (h : n < 2 ^ 63) : signedWord n = n := by
  unfold signedWord
  rw [Int.bmod_eq_of_le] <;> simp only [extentLimit, UInt64.size] <;> omega

end TensorIR.Machine
