import Mathlib.Algebra.Order.Floor.Ring
import Mathlib.Data.Rat.Floor
import Mathlib.Tactic.NormNum

/-!
# Doubles as exact rationals

A C `double` is a rational number, an infinity or a NaN.  Arithmetic on the rationals is exact
(rounding is not part of the model) and the two zeros are one; the rest follows IEEE 754: a NaN
operand gives a NaN and makes every comparison false.
-/

namespace RackmonIoc.CLib

inductive Double where
  | nan
  | inf (neg : Bool)
  | fin (q : ℚ)
  deriving DecidableEq, Inhabited

namespace Double

instance (n : ℕ) : OfNat Double n := ⟨fin n⟩

def isnan : Double → Bool
  | nan => true
  | _ => false

def isinf : Double → Bool
  | inf _ => true
  | _ => false

def finite : Double → Bool
  | fin _ => true
  | _ => false

def neg : Double → Double
  | nan => nan
  | inf s => inf !s
  | fin q => fin (-q)

def add : Double → Double → Double
  | nan, _ | _, nan => nan
  | inf s, inf t => if s = t then inf s else nan
  | inf s, fin _ | fin _, inf s => inf s
  | fin p, fin q => fin (p + q)

def mul : Double → Double → Double
  | nan, _ | _, nan => nan
  | inf s, inf t => inf (s != t)
  | inf s, fin q | fin q, inf s => if q = 0 then nan else inf (s != decide (q < 0))
  | fin p, fin q => fin (p * q)

/-- A quotient by zero is an infinity of the sign of the dividend. -/
def div : Double → Double → Double
  | nan, _ | _, nan | inf _, inf _ => nan
  | inf s, fin q => inf (s != decide (q < 0))
  | fin _, inf _ => fin 0
  | fin p, fin q => if q = 0 then if p = 0 then nan else inf (decide (p < 0)) else fin (p / q)

instance : Neg Double := ⟨neg⟩
instance : Add Double := ⟨add⟩
instance : Sub Double := ⟨fun a b => add a (neg b)⟩
instance : Mul Double := ⟨mul⟩
instance : Div Double := ⟨div⟩

/-- The C comparison `a < b`. -/
def lt : Double → Double → Bool
  | nan, _ | _, nan => false
  | inf s, inf t => s && !t
  | inf s, fin _ => s
  | fin _, inf t => !t
  | fin p, fin q => decide (p < q)

/-- The C comparison `a <= b`. -/
def le : Double → Double → Bool
  | nan, _ | _, nan => false
  | inf s, inf t => s || !t
  | inf s, fin _ => s
  | fin _, inf t => !t
  | fin p, fin q => decide (p ≤ q)

/-- The C comparison `a == b`: no NaN equals itself. -/
def eq (a b : Double) : Bool := !a.isnan && decide (a = b)

instance : LT Double := ⟨fun a b => lt a b = true⟩
instance : LE Double := ⟨fun a b => le a b = true⟩
instance (a b : Double) : Decidable (a < b) := inferInstanceAs (Decidable (lt a b = true))
instance (a b : Double) : Decidable (a ≤ b) := inferInstanceAs (Decidable (le a b = true))

@[simp] theorem ofNat_eq (n : ℕ) : (OfNat.ofNat n : Double) = fin n := rfl
@[simp] theorem fin_add (p q : ℚ) : fin p + fin q = fin (p + q) := rfl

@[simp] theorem fin_lt (p q : ℚ) : fin p < fin q ↔ p < q := by
  show decide (p < q) = true ↔ _
  simp
@[simp] theorem fin_le (p q : ℚ) : fin p ≤ fin q ↔ p ≤ q := by
  show decide (p ≤ q) = true ↔ _
  simp

/-! ### The cast to an integer -/

/-- Truncation toward zero. -/
def trunc (q : ℚ) : ℤ := if 0 ≤ q then ⌊q⌋ else ⌈q⌉

/-- The C function `floor`. -/
def floor : Double → Double
  | fin q => fin ⌊q⌋
  | d => d

theorem trunc_of_nonneg {q : ℚ} (h : 0 ≤ q) : trunc q = ⌊q⌋ := if_pos h

/-- The result of the cast fits the 32-bit `int`. -/
def FitsInt (i : ℤ) : Prop := -2147483648 ≤ i ∧ i ≤ 2147483647

instance (i : ℤ) : Decidable (FitsInt i) := by unfold FitsInt; infer_instance

/-- The C cast `(int)d`: truncation toward zero; where the result is no `int` the behaviour is
undefined, and `undefined` says what comes out. -/
def toInt (undefined : Double → ℤ) : Double → ℤ
  | fin q => if FitsInt (trunc q) then trunc q else undefined (fin q)
  | d => undefined d

theorem toInt_fin {undefined : Double → ℤ} {q : ℚ} (h : FitsInt (trunc q)) :
    toInt undefined (fin q) = trunc q := if_pos h

end Double

end RackmonIoc.CLib
