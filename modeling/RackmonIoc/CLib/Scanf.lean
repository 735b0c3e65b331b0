import Mathlib.Data.Nat.Notation
import Mathlib.Data.Int.Notation

/-!
# `sscanf`

The conversions `%d` and `%c` of the C standard on a NUL-terminated string, given as the list of its
characters before the NUL; a character is one byte.  A numeral that is no `int` makes `%d` undefined,
and `undefined` says what is stored then.
-/

namespace RackmonIoc.CLib

def isspace (c : Char) : Bool := c = ' ' || (9 ≤ c.toNat && c.toNat ≤ 13)

/-- A white-space directive of a format: skip any white space. -/
def skip_space (s : List Char) : List Char := s.dropWhile isspace

/-- The value of a string of decimal digits. -/
def digits_value (ds : List Char) : ℕ := ds.foldl (fun n d => 10 * n + (d.toNat - 48)) 0

/-- What one conversion comes to: the end of the input, a matching failure, or a value and the rest
of the input. -/
inductive Scan (α : Type) where
  | eof
  | fail
  | ok (v : α) (rest : List Char)
  deriving DecidableEq

/-- The value that `%d` stores for the numeral of value `n`. -/
def int_value (undefined : ℤ → ℤ) (n : ℤ) : ℤ :=
  if -2147483648 ≤ n ∧ n ≤ 2147483647 then n else undefined n

/-- The sign of a numeral, and what follows it. -/
def scan_sign : List Char → Bool × List Char
  | '-' :: s => (true, s)
  | '+' :: s => (false, s)
  | s => (false, s)

/-- The conversion `%d`. -/
def scan_d (undefined : ℤ → ℤ) (s : List Char) : Scan ℤ :=
  match skip_space s with
  | [] => .eof
  | c :: cs =>
    let (neg, ds) := scan_sign (c :: cs)
    let digits := ds.takeWhile Char.isDigit
    if digits = [] then .fail
    else
      let n : ℤ := digits_value digits
      .ok (int_value undefined (if neg then -n else n)) (ds.dropWhile Char.isDigit)

/-- The conversion `%c`. -/
def scan_c : List Char → Scan Char
  | [] => .eof
  | c :: cs => .ok c cs

/-- `sscanf(s, "%d %c", &v, &c)`: the result, and `v` and `c` after the call. -/
def sscanf_d_c (undefined : ℤ → ℤ) (s : List Char) (v : ℤ) (c : Char) : ℤ × ℤ × Char :=
  match scan_d undefined s with
  | .eof => (-1, v, c)
  | .fail => (0, v, c)
  | .ok v' rest =>
    match scan_c (skip_space rest) with
    | .ok c' _ => (2, v', c')
    | _ => (1, v', c)

/-- `sscanf(s, "f%d=%d", &v, &w)`: the result, and `v` and `w` after the call. -/
def sscanf_f_d_d (undefined : ℤ → ℤ) (s : List Char) (v w : ℤ) : ℤ × ℤ × ℤ :=
  match s with
  | [] => (-1, v, w)
  | 'f' :: s =>
    match scan_d undefined s with
    | .eof => (-1, v, w)
    | .fail => (0, v, w)
    | .ok v' ('=' :: rest) =>
      match scan_d undefined rest with
      | .ok w' _ => (2, v', w')
      | _ => (1, v', w)
    | .ok v' _ => (1, v', w)
  | _ => (0, v, w)

example : sscanf_d_c id " 12 H".toList (-1) ' ' = (2, 12, 'H') := by decide

end RackmonIoc.CLib
