import RackmonIoc.Driver.Ops

/-!
# `dev_gpio.c`

The two functions behind the operations `gpio_read` and `gpio_write`, over the files of the gpio
directory.  A call works on one file at a time, so the stream is left out of the operations on it.

`pinFile` is the file of a pin as a read finds it, and `Reading` the three things a read can come to.
-/

namespace RackmonIoc.Driver.Gpio

open Program Prog

/-! ### Files -/

/-- The calls on a file; a character is an `int`, and the end of the file or an error is `EOF`. -/
inductive FileOp where
  | fopen (fn : List Char) (mode : Char)
  | fgetc
  | fputc (c : ℤ)
  | fclose

abbrev FileOp.Reply : FileOp → Type
  | fopen _ _ => Bool
  | fgetc | fputc _ | fclose => ℤ

abbrev FileSig : Sig := ⟨FileOp, FileOp.Reply⟩

/-- `false` for the null pointer -/
def fopen (fn : List Char) (mode : Char) : Prog FileSig Bool := .vis (.fopen fn mode) .ret
def fgetc : Prog FileSig ℤ := .vis .fgetc .ret
def fputc (c : ℤ) : Prog FileSig ℤ := .vis (.fputc c) .ret
def fclose : Prog FileSig ℤ := .vis .fclose .ret

/-! ### The functions -/

def EOF : ℤ := -1
def FILENAME_MAX : ℕ := 4096
def GPIO_FILENAME_PREFIX : List Char := "/sys/class/gpio/gpio".toList

/-- The terminating NUL counts. -/
def GPIO_PREFIX_LEN : ℕ := GPIO_FILENAME_PREFIX.length + 1

/-- `'0' + i` -/
def digit (i : ℤ) : Char := Char.ofNat (48 + i.toNat)

/-- The file name, or `none` for the status -1. -/
def gpio_get_path (gpio : ℤ) (value : List Char) (buffsize : ℕ) : Option (List Char) :=
  if gpio < 0 ∨ gpio > 999 then none
  else if buffsize < GPIO_PREFIX_LEN + value.length + 5 then none
  else
    let digits :=
      if gpio < 10 then [digit gpio]
      else if gpio < 100 then [digit (gpio / 10), digit (gpio % 10)]
      else [digit (gpio / 100), digit (gpio / 10 % 10), digit (gpio % 10)]
    some (GPIO_FILENAME_PREFIX ++ digits ++ '/' :: value)

def gpio_read (gpio : ℤ) : Prog FileSig ℤ :=
  match gpio_get_path gpio "value".toList FILENAME_MAX with
  | none => return -1
  | some fn => do
    let f ← fopen fn 'r'
    if !f then return -1 else
    let istat ← fgetc
    let _ ← fclose
    if istat = 48 then return 0
    else if istat = 49 then return 1
    else return -1

def gpio_write (gpio state : ℤ) : Prog FileSig ℤ :=
  match gpio_get_path gpio "value".toList FILENAME_MAX with
  | none => return -1
  | some fn => do
    let f ← fopen fn 'w'
    if !f then return -1 else
    let _ ← fputc (if state ≠ 0 then 49 else 48)
    let istat ← fputc 10
    let _ ← fclose
    if istat ≠ 10 then return -1 else return 0

/-! ### Reading a pin -/

/-- What a read of a pin comes to. -/
inductive Reading where
  | low
  | high
  | error
  deriving DecidableEq

/-- The value that `gpio_read` returns for it. -/
def Reading.status : Reading → ℤ
  | low => 0
  | high => 1
  | error => -1

/-- The file of a pin: it cannot be opened, or its first character is `c`. -/
def pinFile (file : Option ℤ) : Env FileSig Unit := fun _ o r _ =>
  match o, r with
  | .fopen _ _, r => r = file.isSome
  | .fgetc, r => file = some r
  | _, _ => True

/-- What there is to read in the file. -/
def reading (file : Option ℤ) : Reading :=
  if file = some 48 then .low else if file = some 49 then .high else .error

/-- A gpio id between 0 and 999 has a file name. -/
theorem gpio_get_path_some {gpio : ℤ} (h : 0 ≤ gpio) (h' : gpio ≤ 999) :
    ∃ fn, gpio_get_path gpio "value".toList FILENAME_MAX = some fn := by
  unfold gpio_get_path
  rw [if_neg (by omega), if_neg (by decide)]
  exact ⟨_, rfl⟩

/-- **A read of a pin** returns what there is to read in its file. -/
theorem gpio_read_pinFile {gpio : ℤ} (h : 0 ≤ gpio) (h' : gpio ≤ 999) {file : Option ℤ} {r : ℤ} :
    Returns (pinFile file) (gpio_read gpio) () r () ↔ r = (reading file).status := by
  obtain ⟨fn, hfn⟩ := gpio_get_path_some h h'
  have hprog : gpio_read gpio = .vis (S := FileSig) (.fopen fn 'r') fun f =>
      if !f then ret (-1) else .vis (S := FileSig) .fgetc fun istat =>
        .vis (S := FileSig) .fclose fun _ =>
          if istat = (48 : ℤ) then ret 0 else if istat = (49 : ℤ) then ret 1 else ret (-1) := by
    unfold gpio_read
    rw [hfn]
    rfl
  rw [hprog]
  cases file with
  | none =>
    constructor
    · intro hr
      obtain ⟨f, u, hf, hr⟩ := returns_vis.mp hr
      obtain rfl : f = false := hf
      exact (returns_ret.mp hr).1
    · rintro rfl
      exact returns_vis.mpr ⟨false, (), rfl, .refl _ _⟩
  | some c =>
    have hend : reading (some c) = if c = 48 then .low else if c = 49 then .high else .error := by
      simp only [reading, Option.some.injEq]
    constructor
    · intro hr
      obtain ⟨f, u, hf, hr⟩ := returns_vis.mp hr
      obtain rfl : f = true := hf
      obtain ⟨istat, u', hc, hr⟩ := returns_vis.mp hr
      obtain rfl : c = istat := Option.some.inj hc
      obtain ⟨-, u'', -, hr⟩ := returns_vis.mp hr
      rw [hend]
      split_ifs at hr ⊢ <;> exact (returns_ret.mp hr).1
    · rintro rfl
      refine returns_vis.mpr ⟨true, (), rfl, returns_vis.mpr ⟨c, (), rfl, ?_⟩⟩
      refine returns_vis.mpr ⟨(0 : ℤ), (), trivial, ?_⟩
      rw [hend]
      split_ifs <;> exact .refl _ _

end RackmonIoc.Driver.Gpio
