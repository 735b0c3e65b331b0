import RackmonIoc.CLib.Buffer
import RackmonIoc.Driver.DevGpio

/-!
# The path of a pin

`gpio_get_path` as it works on the buffer of its caller, store by store.

* `gpio_get_path_buffer`: it never stores outside the buffer, and the file name in it is the one of
  `Driver/DevGpio.lean`;
* `path_exact`: which name that is, and that different pins have different names.

The sum of sizes is a natural number, since no string in memory is long enough for it to wrap around.
-/

namespace RackmonIoc.Driver.Gpio

open CLib

/-! ### The function -/

/-- The buffer, and the place where the next character goes. -/
structure Cursor where
  fnout : List Char
  cp : ℕ

/-- `*(cp++) = c` -/
def Cursor.put (k : Cursor) (c : Char) : Option Cursor := do
  let fnout ← store k.fnout k.cp c
  return ⟨fnout, k.cp + 1⟩

/-- The digits of a number below 1000. -/
def Cursor.put_number (k : Cursor) (gpio : ℤ) : Option Cursor :=
  if gpio < 10 then k.put (digit gpio)
  else if gpio < 100 then do
    let k ← k.put (digit (gpio / 10))
    k.put (digit (gpio % 10))
  else do
    let k ← k.put (digit (gpio / 100))
    let k ← k.put (digit (gpio / 10 % 10))
    k.put (digit (gpio % 10))

namespace Buffer

/-- The status and the buffer after the call, for a pointer that may be null; no result if there is a
store outside the buffer. -/
def gpio_get_path (gpio : ℤ) (value : List Char) (fnout : Option (List Char)) (buffsize : ℕ) :
    Option (ℤ × Option (List Char)) :=
  match fnout with
  | none => some (-1, none)
  | some fnout => do
    let fnout ← store fnout 0 NUL
    if gpio < 0 ∨ gpio > 999 then return (-1, some fnout) else
    if buffsize < GPIO_PREFIX_LEN + value.length + 5 then return (-1, some fnout) else
    let fnout ← strcpy fnout 0 GPIO_FILENAME_PREFIX
    let k : Cursor := ⟨fnout, GPIO_PREFIX_LEN - 1⟩
    let k ← k.put_number gpio
    let k ← k.put '/'
    let fnout ← strcpy k.fnout k.cp value
    return (0, some fnout)

end Buffer

/-! ### The name -/

/-- **The path of a value of a pin**, with the number in decimal. -/
def path (gpio : ℤ) (value : List Char) : List Char :=
  "/sys/class/gpio/gpio".toList ++ (Nat.toDigits 10 gpio.toNat ++ '/' :: value)

/-- What a path needs: a number of three digits at most, and a buffer of 26 places more than the value
has. -/
def Fits (gpio : ℤ) (value : List Char) (buffsize : ℕ) : Prop :=
  0 ≤ gpio ∧ gpio ≤ 999 ∧ value.length + 26 ≤ buffsize

/-- The digits that the function stores. -/
def digits (gpio : ℤ) : List Char :=
  if gpio < 10 then [digit gpio]
  else if gpio < 100 then [digit (gpio / 10), digit (gpio % 10)]
  else [digit (gpio / 100), digit (gpio / 10 % 10), digit (gpio % 10)]

section Name

variable {gpio : ℤ} {value : List Char} {buffsize : ℕ}

theorem digit_eq {n : ℕ} (h : n < 10) : digit (n : ℤ) = n.digitChar := by
  have hall : ∀ k : Fin 10, digit ((k : ℕ) : ℤ) = (k : ℕ).digitChar := by decide
  exact hall ⟨n, h⟩

/-- **The digits are the decimal number**, without leading zeros. -/
theorem digits_eq (h0 : 0 ≤ gpio) (h999 : gpio ≤ 999) : digits gpio = Nat.toDigits 10 gpio.toNat := by
  obtain ⟨n, rfl⟩ := Int.eq_ofNat_of_zero_le h0
  rw [Int.toNat_natCast]
  have hlast : digit ((n : ℤ) % 10) = (n % 10).digitChar := by
    rw [← digit_eq (by omega)]
    norm_cast
  unfold digits
  split_ifs with h10 h100
  · rw [Nat.toDigits_of_lt_base (by omega), digit_eq (by omega)]
  · have hfirst : digit ((n : ℤ) / 10) = (n / 10).digitChar := by
      rw [← digit_eq (by omega)]
      norm_cast
    rw [Nat.toDigits_of_base_le (by omega) (by omega), Nat.toDigits_of_lt_base (by omega), hfirst,
      hlast]
    rfl
  · have hfirst : digit ((n : ℤ) / 100) = (n / 10 / 10).digitChar := by
      rw [← digit_eq (by omega)]
      congr 1
      omega
    have hmiddle : digit ((n : ℤ) / 10 % 10) = (n / 10 % 10).digitChar := by
      rw [← digit_eq (by omega)]
      norm_cast
    rw [Nat.toDigits_of_base_le (by omega) (by omega),
      Nat.toDigits_of_base_le (by omega) (by omega), Nat.toDigits_of_lt_base (by omega), hfirst,
      hmiddle, hlast]
    rfl

/-- The parts of a path, as they are stored. -/
theorem path_eq (h0 : 0 ≤ gpio) (h999 : gpio ≤ 999) :
    path gpio value = GPIO_FILENAME_PREFIX ++ digits gpio ++ ['/'] ++ value := by
  have hparts : path gpio value =
      GPIO_FILENAME_PREFIX ++ (Nat.toDigits 10 gpio.toNat ++ '/' :: value) := rfl
  rw [hparts, digits_eq h0 h999]
  simp

theorem digits_length (gpio : ℤ) : (digits gpio).length ≤ 3 := by
  unfold digits
  split_ifs <;> simp

/-- The file name, as `gpio_get_path` puts it together. -/
theorem gpio_get_path_of_fits (h : Fits gpio value buffsize) :
    gpio_get_path gpio value buffsize = some (path gpio value) := by
  obtain ⟨h0, h999, hsize⟩ := h
  have hsizeof : GPIO_PREFIX_LEN = 21 := rfl
  unfold gpio_get_path
  rw [if_neg (by omega), if_neg (by omega)]
  rw [path_eq h0 h999]
  unfold digits
  simp

theorem gpio_get_path_of_not_fits (h : ¬ Fits gpio value buffsize) :
    gpio_get_path gpio value buffsize = none := by
  have hsizeof : GPIO_PREFIX_LEN = 21 := rfl
  unfold Fits at h
  unfold gpio_get_path
  by_cases hrange : gpio < 0 ∨ gpio > 999
  · rw [if_pos hrange]
  · rw [if_neg hrange, if_pos (by omega)]

/-- No digit is a slash. -/
theorem slash_not_mem (n : ℕ) : '/' ∉ Nat.toDigits 10 n := by
  intro h
  have hdigit := Nat.isDigit_of_mem_toDigits (by omega) (by omega) h
  exact absurd hdigit (by decide)

theorem nul_not_mem_path (h : NUL ∉ value) : NUL ∉ path gpio value := by
  have hdigits : NUL ∉ Nat.toDigits 10 gpio.toNat := by
    intro hmem
    have hdigit := Nat.isDigit_of_mem_toDigits (by omega) (by omega) hmem
    exact absurd hdigit (by decide)
  have hstart : NUL ∉ "/sys/class/gpio/gpio".toList := by simp [NUL]
  have hslash : NUL ≠ '/' := by simp [NUL]
  unfold path
  simp only [List.mem_append, List.mem_cons, not_or]
  exact ⟨hstart, hdigits, hslash, h⟩

/-- **Different pins or values have different paths.** -/
theorem path_injective {gpio' : ℤ} {value' : List Char} (h0 : 0 ≤ gpio) (h0' : 0 ≤ gpio')
    (h : path gpio value = path gpio' value') : gpio = gpio' ∧ value = value' := by
  have htail := List.append_cancel_left h
  have htake : ∀ (n : ℕ) (s : List Char),
      (Nat.toDigits 10 n ++ '/' :: s).takeWhile (· ≠ '/') = Nat.toDigits 10 n := by
    intro n s
    rw [List.takeWhile_append_of_pos, List.takeWhile_cons_of_neg (by simp), List.append_nil]
    intro c hc
    simpa using ne_of_mem_of_not_mem hc (slash_not_mem n)
  have hdigits : Nat.toDigits 10 gpio.toNat = Nat.toDigits 10 gpio'.toNat := by
    rw [← htake _ value, htail, htake]
  have hnumber : gpio.toNat = gpio'.toNat := by
    rw [← Nat.ofDigitChars_ten_toDigits (n := gpio.toNat), hdigits, Nat.ofDigitChars_ten_toDigits]
  rw [hdigits] at htail
  have hvalue := List.append_cancel_left htail
  exact ⟨by omega, (List.cons.inj hvalue).2⟩

end Name

/-! ### The buffer -/

/-- The status and the buffer when the file name is `fn`, or there is none. -/
def outcome (buf : List Char) : Option (List Char) → ℤ × Option (List Char)
  | none => (-1, some (overwrite buf 0 [NUL]))
  | some fn => (0, some (overwrite buf 0 (fn ++ [NUL])))

/-- The cursor after `xs`, with what an earlier store has left behind it. -/
def cursor (buf xs junk : List Char) : Cursor := ⟨overwrite buf 0 (xs ++ junk), xs.length⟩

section Stores

variable {gpio : ℤ} {value buf xs junk : List Char}

theorem put_cursor {c : Char} (h : xs.length < buf.length) (hjunk : junk.length ≤ 1)
    (hin : (xs ++ junk).length ≤ buf.length) :
    (cursor buf xs junk).put c = some (cursor buf (xs ++ [c]) []) := by
  have hlen : (overwrite buf 0 (xs ++ junk)).length = buf.length := overwrite_length (by omega)
  have hover : overwrite (overwrite buf 0 (xs ++ junk)) (0 + xs.length) [c] =
      overwrite buf 0 (xs ++ [c]) := overwrite_overwrite (by omega) hjunk
  rw [Nat.zero_add] at hover
  have hstore : store (overwrite buf 0 (xs ++ junk)) xs.length c =
      some (overwrite buf 0 (xs ++ [c])) := by
    rw [store_eq (by omega), hover]
  simp [Cursor.put, cursor, hstore]

/-- The string after the cursor, with its NUL. -/
theorem strcpy_cursor {s : List Char} (h : (xs ++ (s ++ [NUL])).length ≤ buf.length)
    (hjunk : junk.length ≤ 1) :
    strcpy (cursor buf xs junk).fnout (cursor buf xs junk).cp s =
      some (overwrite buf 0 (xs ++ (s ++ [NUL]))) := by
  have hin : (xs ++ junk).length ≤ buf.length := by
    simp only [List.length_append, List.length_singleton] at h ⊢
    omega
  have hlen : (overwrite buf 0 (xs ++ junk)).length = buf.length := overwrite_length (by omega)
  have hover : overwrite (overwrite buf 0 (xs ++ junk)) (0 + xs.length) (s ++ [NUL]) =
      overwrite buf 0 (xs ++ (s ++ [NUL])) := by
    apply overwrite_overwrite
    · simp only [List.length_append] at hin
      omega
    · simp only [List.length_append, List.length_singleton]
      omega
  rw [Nat.zero_add] at hover
  unfold strcpy cursor
  rw [stores_eq, hover]
  simp only [hlen, List.length_append, List.length_singleton] at h ⊢
  omega

/-- The digits after the prefix. -/
theorem put_number_cursor (gpio : ℤ) (h : xs.length + 3 ≤ buf.length) (hjunk : junk.length ≤ 1) :
    (cursor buf xs junk).put_number gpio = some (cursor buf (xs ++ digits gpio) []) := by
  have hfirst : ∀ c, (cursor buf xs junk).put c = some (cursor buf (xs ++ [c]) []) := by
    intro c
    apply put_cursor (by omega) hjunk
    rw [List.length_append]
    omega
  have hnext : ∀ ys : List Char, ys.length ≤ 2 → ∀ c,
      (cursor buf (xs ++ ys) []).put c = some (cursor buf (xs ++ ys ++ [c]) []) := by
    intro ys hys c
    apply put_cursor <;> simp <;> omega
  unfold Cursor.put_number digits
  simp only [Option.bind_eq_bind]
  split_ifs with h10 h100
  · exact hfirst _
  · rw [hfirst, Option.bind_some, hnext _ (by simp)]
    simp
  · rw [hfirst, Option.bind_some, hnext _ (by simp), Option.bind_some, List.append_assoc,
      hnext _ (by simp)]
    simp

/-- **The function on its buffer**: it makes no store outside, and leaves the file name there. -/
theorem gpio_get_path_buffer (gpio : ℤ) (value : List Char) (hbuf : 1 ≤ buf.length) :
    Buffer.gpio_get_path gpio value (some buf) buf.length =
      some (outcome buf (gpio_get_path gpio value buf.length)) := by
  have hsizeof : GPIO_PREFIX_LEN = 21 := rfl
  have hlen : GPIO_FILENAME_PREFIX.length = 20 := rfl
  have hstore : store buf 0 NUL = some (overwrite buf 0 [NUL]) := store_eq (by omega)
  by_cases hfits : Fits gpio value buf.length
  · obtain ⟨h0, h999, hsize⟩ := id hfits
    have hdigits := digits_length gpio
    have hroom : ([] ++ (GPIO_FILENAME_PREFIX ++ [NUL])).length ≤ buf.length := by
      simp only [List.nil_append, List.length_append, List.length_singleton]
      omega
    have hcopy : strcpy (overwrite buf 0 [NUL]) 0 GPIO_FILENAME_PREFIX =
        some (overwrite buf 0 (GPIO_FILENAME_PREFIX ++ [NUL])) :=
      strcpy_cursor hroom (le_refl [NUL].length)
    have hput : (cursor buf GPIO_FILENAME_PREFIX [NUL]).put_number gpio =
        some (cursor buf (GPIO_FILENAME_PREFIX ++ digits gpio) []) :=
      put_number_cursor gpio (by omega) (by simp)
    have hslash : (cursor buf (GPIO_FILENAME_PREFIX ++ digits gpio) []).put '/' =
        some (cursor buf (GPIO_FILENAME_PREFIX ++ digits gpio ++ ['/']) []) := by
      apply put_cursor <;> simp only [List.append_nil, List.length_append, List.length_nil] <;> omega
    have hvalue : strcpy (cursor buf (GPIO_FILENAME_PREFIX ++ digits gpio ++ ['/']) []).fnout
        (cursor buf (GPIO_FILENAME_PREFIX ++ digits gpio ++ ['/']) []).cp value =
        some (overwrite buf 0 (GPIO_FILENAME_PREFIX ++ digits gpio ++ ['/'] ++ (value ++ [NUL]))) := by
      apply strcpy_cursor
      · simp only [List.length_append, List.length_singleton]
        omega
      · simp
    have hname : GPIO_FILENAME_PREFIX ++ digits gpio ++ ['/'] ++ (value ++ [NUL]) =
        path gpio value ++ [NUL] := by
      simp only [path_eq h0 h999, List.append_assoc]
    rw [hname] at hvalue
    rw [gpio_get_path_of_fits hfits]
    have hcursor : (⟨overwrite buf 0 (GPIO_FILENAME_PREFIX ++ [NUL]), GPIO_PREFIX_LEN - 1⟩ : Cursor) =
        cursor buf GPIO_FILENAME_PREFIX [NUL] := rfl
    unfold Buffer.gpio_get_path
    simp only [hstore, Option.bind_eq_bind, Option.bind_some]
    rw [if_neg (by omega), if_neg (by omega), hcopy, Option.bind_some, hcursor]
    rw [hput, Option.bind_some, hslash, Option.bind_some, hvalue]
    rfl
  · rw [gpio_get_path_of_not_fits hfits]
    unfold Fits at hfits
    unfold Buffer.gpio_get_path
    simp only [hstore, Option.bind_eq_bind, Option.bind_some]
    split_ifs with hrange hsize
    · rfl
    · rfl
    · omega

/-- **A call of `gpio_get_path` is exact**: it makes no store outside the buffer, returns 0 when the path
fits, with the path in the buffer, and else -1, with the empty string there. -/
def Exact (gpio : ℤ) (value buf : List Char) : Prop :=
  ∃ status buf', Buffer.gpio_get_path gpio value (some buf) buf.length = some (status, some buf') ∧
    buf'.length = buf.length ∧ (status = 0 ↔ Fits gpio value buf.length) ∧
    (Fits gpio value buf.length → Holds buf' (path gpio value)) ∧
    (¬ Fits gpio value buf.length → status = -1 ∧ Holds buf' [])

theorem path_length_le (h0 : 0 ≤ gpio) (h999 : gpio ≤ 999) :
    (path gpio value).length ≤ value.length + 24 := by
  have hlen : GPIO_FILENAME_PREFIX.length = 20 := rfl
  have hdigits := digits_length gpio
  rw [path_eq h0 h999]
  simp only [List.length_append, List.length_singleton]
  omega

/-- **The paths of the pins.**  Every call is exact, and two calls that return 0 leave the same path only
for the same pin and value. -/
theorem path_exact :
    (∀ gpio value buf, NUL ∉ value → 1 ≤ buf.length → Exact gpio value buf) ∧
    ∀ gpio gpio' value value' buf buf' out out', NUL ∉ value → NUL ∉ value' → 1 ≤ buf.length →
      1 ≤ buf'.length → Buffer.gpio_get_path gpio value (some buf) buf.length = some (0, some out) →
      Buffer.gpio_get_path gpio' value' (some buf') buf'.length = some (0, some out') →
      ∀ s, Holds out s → Holds out' s → gpio = gpio' ∧ value = value' := by
  have hexact : ∀ gpio value buf, NUL ∉ value → 1 ≤ buf.length → Exact gpio value buf := by
    intro gpio value buf hnul hbuf
    have hcall := gpio_get_path_buffer gpio value hbuf
    by_cases hfits : Fits gpio value buf.length
    · have hlen : (path gpio value).length ≤ value.length + 24 := path_length_le hfits.1 hfits.2.1
      rw [gpio_get_path_of_fits hfits] at hcall
      refine ⟨_, _, hcall, overwrite_length ?_, by simp [hfits],
        fun _ => holds_overwrite (nul_not_mem_path hnul), fun h => absurd hfits h⟩
      have hsize := hfits.2.2
      simp only [List.length_append, List.length_singleton]
      omega
    · rw [gpio_get_path_of_not_fits hfits] at hcall
      exact ⟨_, _, hcall, overwrite_length hbuf, by simp [hfits], fun h => absurd h hfits,
        fun _ => ⟨rfl, holds_overwrite (s := []) (by simp)⟩⟩
  refine ⟨hexact, ?_⟩
  intro gpio gpio' value value' buf buf' out out' hnul hnul' hbuf hbuf' hcall hcall' s hs hs'
  have hholds : ∀ gpio value buf out, NUL ∉ value → 1 ≤ buf.length →
      Buffer.gpio_get_path gpio value (some buf) buf.length = some (0, some out) → Holds out s →
      0 ≤ gpio ∧ s = path gpio value := by
    intro gpio value buf out hnul hbuf hcall hs
    obtain ⟨status, out', hrun, -, hzero, hpath, -⟩ := hexact gpio value buf hnul hbuf
    rw [hcall] at hrun
    simp only [Option.some.injEq, Prod.mk.injEq] at hrun
    obtain ⟨rfl, rfl⟩ := hrun
    have hfits := hzero.mp rfl
    exact ⟨hfits.1, hs.unique (hpath hfits)⟩
  obtain ⟨h0, hpath⟩ := hholds gpio value buf out hnul hbuf hcall hs
  obtain ⟨h0', hpath'⟩ := hholds gpio' value' buf' out' hnul' hbuf' hcall' hs'
  exact path_injective h0 h0' (hpath.symm.trans hpath')

/-- The value of pin 46 in a buffer of 31 places: there is just room for it. -/
theorem path_exact_value :
    Exact 46 "value".toList (List.replicate 31 'x') ∧ Fits 46 "value".toList 31 :=
  ⟨path_exact.1 46 "value".toList (List.replicate 31 'x') (by simp [NUL]) (by simp),
    by unfold Fits; decide⟩

end Stores

end RackmonIoc.Driver.Gpio
