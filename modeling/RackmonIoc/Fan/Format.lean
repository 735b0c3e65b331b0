import RackmonIoc.CLib.Numeral
import RackmonIoc.Fan.Merge

/-!
# The format of a fan reply

The documented reply of the tachometer is "fnn=ssss".  The check of the source looks at two bytes and
leaves the rest to `sscanf`, whose `%d` also takes white space and a sign, and any number of digits.

* `valid_iff` spells out the replies that the check accepts;
* `format_exact_iff` says for which replies that makes no difference.
-/

namespace RackmonIoc.Fan

open Program CLib Driver Prog

/-! ### Bytes -/

def Digit (b : UInt8) : Prop := 48 ≤ b.toNat ∧ b.toNat ≤ 57

def Blank (b : UInt8) : Prop := b.toNat = 32 ∨ 9 ≤ b.toNat ∧ b.toNat ≤ 13

def digit_value (b : UInt8) : ℕ := b.toNat - 48

instance (b : UInt8) : Decidable (Digit b) := by unfold Digit; infer_instance
instance (b : UInt8) : Decidable (Blank b) := by unfold Blank; infer_instance

/-- **The documented reply** of channel `ich` for the speed `v`: 'f', two digits of value `ich + 1`, '='
and four digits of value `v`. -/
def Documented (ich : ℕ) (reply : List UInt8) (v : ℕ) : Prop :=
  ∃ x y e₁ e₂ e₃ e₄, reply = [102, x, y, 61, e₁, e₂, e₃, e₄] ∧ (Digit x ∧ Digit y) ∧
    10 * digit_value x + digit_value y = ich + 1 ∧
    (Digit e₁ ∧ Digit e₂ ∧ Digit e₃ ∧ Digit e₄) ∧
    v = 1000 * digit_value e₁ + 100 * digit_value e₂ + 10 * digit_value e₃ + digit_value e₄

/-- The bytes start with white space, an optional sign and a digit. -/
def StartsNumber (bytes : List UInt8) : Prop :=
  ∃ ws sign d junk, bytes = ws ++ (sign ++ d :: junk) ∧ (∀ b ∈ ws, Blank b) ∧
    (sign = [] ∨ sign = [43] ∨ sign = [45]) ∧ Digit d

/-- **What the check lets pass**: the first digit may be white space or a plus sign, and any start of a
number will do for the speed. -/
def Tolerated (ich : ℕ) (reply : List UInt8) : Prop :=
  ∃ x y rest, reply = 102 :: x :: y :: 61 :: rest ∧ Digit y ∧
    (Digit x ∧ 10 * digit_value x + digit_value y = ich + 1 ∨
      (Blank x ∨ x = 43) ∧ digit_value y = ich + 1) ∧ StartsNumber rest

/-! ### Bytes as characters -/

/-- The character of a byte. -/
def char (b : UInt8) : Char := Char.ofNat b.toNat

theorem char_toNat (b : UInt8) : (char b).toNat = b.toNat := by
  have hlt := b.toNat_lt
  have hvalid : b.toNat.isValidChar := Or.inl (by omega)
  unfold char Char.ofNat
  rw [dif_pos hvalid]
  rfl

theorem char_inj {b c : UInt8} (h : char b = char c) : b = c := by
  apply UInt8.toNat_inj.mp
  rw [← char_toNat b, ← char_toNat c, h]

theorem isDigit_char (b : UInt8) : (char b).isDigit = true ↔ Digit b := by
  rw [isDigit_iff, char_toNat]
  rfl

theorem isspace_char (b : UInt8) : isspace (char b) = true ↔ Blank b := by
  have hblank : char b = ' ' ↔ b.toNat = 32 := by
    constructor
    · intro h
      rw [← char_toNat b, h]
      rfl
    · intro h
      exact congrArg char (UInt8.toNat_inj.mp (show b.toNat = (32 : UInt8).toNat from h))
  rw [isspace_iff, char_toNat, hblank]
  rfl

theorem c_string_cons {b : UInt8} (hb : b ≠ 0) (buf : List UInt8) :
    c_string (b :: buf) = char b :: c_string buf := by
  unfold c_string
  rw [List.takeWhile_cons_of_pos (by simpa using hb)]
  rfl

theorem c_string_zero (buf : List UInt8) : c_string (0 :: buf) = [] := rfl

/-- A C string is the start of the buffer. -/
theorem c_string_split (buf : List UInt8) :
    ∃ text rest, buf = text ++ rest ∧ c_string buf = text.map char :=
  ⟨buf.takeWhile (· ≠ 0), buf.dropWhile (· ≠ 0), (List.takeWhile_append_dropWhile).symm, rfl⟩

theorem Digit.ne_zero {b : UInt8} (h : Digit b) : b ≠ 0 := by
  rintro rfl
  exact absurd h (by decide)

theorem Blank.ne_zero {b : UInt8} (h : Blank b) : b ≠ 0 := by
  rintro rfl
  exact absurd h (by decide)

/-- The bytes before the first NUL are the start of the string. -/
theorem c_string_append {text : List UInt8} (h : ∀ b ∈ text, b ≠ 0) (buf : List UInt8) :
    c_string (text ++ buf) = text.map char ++ c_string buf := by
  induction text with
  | nil => rfl
  | cons b text ih =>
    rw [List.cons_append, c_string_cons (h b List.mem_cons_self),
      ih fun c hc => h c (List.mem_cons_of_mem _ hc)]
    rfl

/-! ### The speed -/

/-- **A number can be read** from the bytes if they start one. -/
theorem startsNumber_iff (bytes : List UInt8) :
    StartsNumber bytes ↔ ∃ n rest, Numeral (c_string bytes) n rest := by
  constructor
  · rintro ⟨ws, sign, d, junk, rfl, hws, hsign, hd⟩
    have hne : ∀ b ∈ ws ++ (sign ++ [d]), b ≠ 0 := by
      intro b hb
      rcases List.mem_append.mp hb with hb | hb
      · exact (hws b hb).ne_zero
      rcases List.mem_append.mp hb with hb | hb
      · rcases hsign with rfl | rfl | rfl
        · exact nomatch hb
        · rw [List.mem_singleton.mp hb]
          decide
        · rw [List.mem_singleton.mp hb]
          decide
      · rw [List.mem_singleton.mp hb]
        exact hd.ne_zero
    have hstring : c_string (ws ++ (sign ++ d :: junk)) =
        ws.map char ++ (sign.map char ++ char d :: c_string junk) := by
      have happend := c_string_append hne junk
      simpa using happend
    rw [hstring]
    apply exists_numeral
    · intro c hc
      obtain ⟨b, hb, rfl⟩ := List.mem_map.mp hc
      exact (isspace_char b).mpr (hws b hb)
    · rcases hsign with rfl | rfl | rfl
      · exact .inl rfl
      · exact .inr (.inl rfl)
      · exact .inr (.inr rfl)
    · exact (isDigit_char d).mpr hd
  · rintro ⟨n, rest, ws, sign, ds, hws, hsign, hne, hds, -, hs, -⟩
    obtain ⟨text, tail, rfl, htext⟩ := c_string_split bytes
    obtain ⟨d, ds, rfl⟩ := List.exists_cons_of_ne_nil hne
    rw [htext] at hs
    obtain ⟨ws', rest₁, rfl, hws', hs⟩ := List.map_eq_append_iff.mp hs
    obtain ⟨sign', rest₂, rfl, hsign', hs⟩ := List.map_eq_append_iff.mp hs
    obtain ⟨d', rest₃, rfl, hd', -⟩ := List.map_eq_cons_iff.mp hs
    refine ⟨ws', sign', d', rest₃ ++ tail, by simp, fun b hb => ?_, ?_, ?_⟩
    · apply (isspace_char b).mp
      apply hws
      rw [← hws']
      exact List.mem_map_of_mem hb
    · have hplus : char 43 = '+' := rfl
      have hminus : char 45 = '-' := rfl
      rcases hsign with rfl | rfl | rfl
      · exact .inl (List.map_eq_nil_iff.mp hsign')
      · obtain ⟨b, r, rfl, hb, hr⟩ := List.map_eq_cons_iff.mp hsign'
        rw [List.map_eq_nil_iff.mp hr, char_inj (hb.trans hplus.symm)]
        exact .inr (.inl rfl)
      · obtain ⟨b, r, rfl, hb, hr⟩ := List.map_eq_cons_iff.mp hsign'
        rw [List.map_eq_nil_iff.mp hr, char_inj (hb.trans hminus.symm)]
        exact .inr (.inr rfl)
    · apply (isDigit_char d').mp
      rw [hd']
      exact hds d List.mem_cons_self

/-! ### The channel number -/

/-- Digits that are followed by '=' on both sides. -/
theorem digits_before_eq {c : Char} {t ds r : List Char} (h : Digits (c :: '=' :: t) ds ('=' :: r))
    (hne : ds ≠ []) : c.isDigit = true ∧ ds = [c] ∧ r = t := by
  obtain ⟨hds, hs⟩ := h
  obtain ⟨d, ds, rfl⟩ := List.exists_cons_of_ne_nil hne
  obtain ⟨rfl, htail⟩ := List.cons.inj hs
  cases ds with
  | nil => exact ⟨hds _ List.mem_cons_self, rfl, (List.cons.inj htail).2.symm⟩
  | cons e ds =>
    obtain ⟨rfl, -⟩ := List.cons.inj htail
    exact absurd (hds '=' (by simp)) (by decide)

theorem not_digits_eq {t ds rest : List Char} (h : Digits ('=' :: t) ds rest) : ds = [] := by
  cases ds with
  | nil => rfl
  | cons d ds =>
    obtain ⟨rfl, -⟩ := List.cons.inj h.2
    exact absurd (h.1 '=' (by simp)) (by decide)

/-- No numeral starts with '='. -/
theorem not_numeral_eq {t rest : List Char} {n : ℤ} : ¬ Numeral ('=' :: t) n rest := by
  intro h
  rcases h.cons_inv with ⟨hspace, -⟩ | ⟨hsign, -⟩ | ⟨hdigit, -⟩
  · exact absurd hspace (by decide)
  · rcases hsign with hsign | hsign <;> exact absurd hsign (by decide)
  · exact absurd hdigit (by decide)

/-- **Two characters before '='** that are read as a number, where another number follows. -/
theorem numeral_two {x y : Char} {t r rest : List Char} {n m : ℤ}
    (h : Numeral (x :: y :: '=' :: t) n ('=' :: r)) (hr : Numeral r m rest) :
    r = t ∧ y.isDigit = true ∧ (x.isDigit = true ∧ n = digits_value [x, y] ∨
      (isspace x = true ∨ x = '+') ∧ n = digits_value [y] ∨ n = -(digits_value [y] : ℤ)) := by
  rcases h.cons_inv with ⟨hspace, h⟩ | ⟨hsign, ds, hne, hds, rfl⟩ | ⟨hx, ds, hds, rfl⟩
  · rcases h.cons_inv with ⟨-, h⟩ | ⟨-, ds, hne, hds, -⟩ | ⟨hy, ds, hds, rfl⟩
    · exact absurd h not_numeral_eq
    · exact absurd (not_digits_eq hds) hne
    · obtain rfl := not_digits_eq hds
      exact ⟨(List.cons.inj hds.2).2.symm, hy, .inr (.inl ⟨.inl hspace, rfl⟩)⟩
  · obtain ⟨hy, rfl, rfl⟩ := digits_before_eq hds hne
    rcases hsign with rfl | rfl
    · exact ⟨rfl, hy, .inr (.inl ⟨.inr rfl, rfl⟩)⟩
    · exact ⟨rfl, hy, .inr (.inr rfl)⟩
  · cases ds with
    | nil =>
      -- then '=' stands in the place of the second digit, and no number follows it
      obtain ⟨rfl, rfl⟩ := List.cons.inj hds.2
      exact absurd hr not_numeral_eq
    | cons d ds =>
      obtain ⟨hy, hd, rfl⟩ := digits_before_eq hds (List.cons_ne_nil d ds)
      rw [hd]
      exact ⟨rfl, hy, .inl ⟨hx, rfl⟩⟩

/-! ### The check -/

section Check

variable {T : Target} {ich : ℕ} {x y : UInt8} {reply rest : List UInt8} {n m : ℤ}

theorem digits_value_one (y : UInt8) : digits_value [char y] = digit_value y := by
  simp [digits_value, digit_value, char_toNat]

theorem digits_value_two (x y : UInt8) :
    digits_value [char x, char y] = 10 * digit_value x + digit_value y := by
  simp [digits_value, digit_value, char_toNat]

/-- A number of four digits or fewer is an `int`. -/
theorem int_value_small {undefined : ℤ → ℤ} (h : -10000 ≤ n) (h' : n ≤ 10000) :
    int_value undefined n = n :=
  if_pos ⟨by omega, by omega⟩

theorem Digit.value_le {b : UInt8} (h : Digit b) : digit_value b ≤ 9 := by
  unfold Digit at h
  unfold digit_value
  omega

/-- The reply as a string, once the channel number has been read. -/
theorem c_string_reply (hx : x ≠ 0) (hy : y ≠ 0) (rest : List UInt8) :
    c_string (102 :: x :: y :: 61 :: rest) = 'f' :: char x :: char y :: '=' :: c_string rest := by
  rw [c_string_cons (by decide), c_string_cons hx, c_string_cons hy, c_string_cons (by decide)]
  rfl

/-- A reply with a NUL in its channel number is not read. -/
theorem ne_zero_of_numeral {r : List Char}
    (h : Numeral (c_string (x :: y :: 61 :: rest)) n ('=' :: r)) : x ≠ 0 ∧ y ≠ 0 := by
  have hend : ∀ {ds : List Char}, ¬ Digits [] ds ('=' :: r) := by
    rintro ds ⟨-, hs⟩
    cases ds <;> exact nomatch hs
  have hnil : ∀ {n : ℤ}, ¬ Numeral [] n ('=' :: r) := by
    rintro n ⟨ws, sign, ds, -, -, -, -, -, hs, -⟩
    have hlen := congrArg List.length hs
    simp at hlen
  constructor
  · rintro rfl
    exact hnil h
  · rintro rfl
    by_cases hx : x = 0
    · subst hx
      exact hnil h
    rw [c_string_cons hx, c_string_zero] at h
    rcases h.cons_inv with ⟨-, h⟩ | ⟨-, ds, -, hds, -⟩ | ⟨-, ds, hds, -⟩
    · exact hnil h
    · exact hend hds
    · exact hend hds

/-- The channel number that the check lets pass. -/
theorem numeral_channel (hy : Digit y)
    (hxy : Digit x ∧ 10 * digit_value x + digit_value y = ich + 1 ∨
      (Blank x ∨ x = 43) ∧ digit_value y = ich + 1) (t : List Char) :
    Numeral (char x :: char y :: '=' :: t) (ich + 1) ('=' :: t) := by
  have hnext : NoDigitNext ('=' :: t) := by
    intro c r hc
    rw [← (List.cons.inj hc).1]
    rfl
  have hychar : ∀ c ∈ [char y], c.isDigit = true := by
    intro c hc
    rw [List.mem_singleton.mp hc]
    exact (isDigit_char y).mpr hy
  rcases hxy with ⟨hx, hvalue⟩ | ⟨hx | rfl, hvalue⟩
  · refine ⟨[], [], [char x, char y], nofun, .inl rfl, List.cons_ne_nil _ _, fun c hc => ?_, hnext, rfl,
      ?_⟩
    · rcases List.mem_cons.mp hc with rfl | hc
      · exact (isDigit_char x).mpr hx
      · exact hychar c hc
    · show (ich : ℤ) + 1 = digits_value [char x, char y]
      rw [digits_value_two, hvalue]
      push_cast
      rfl
  · refine ⟨[char x], [], [char y], fun c hc => ?_, .inl rfl, List.cons_ne_nil _ _, hychar, hnext, rfl,
      ?_⟩
    · rw [List.mem_singleton.mp hc]
      exact (isspace_char x).mpr hx
    · show (ich : ℤ) + 1 = digits_value [char y]
      rw [digits_value_one, hvalue]
      push_cast
      rfl
  · refine ⟨[], ['+'], [char y], nofun, .inr (.inl rfl), List.cons_ne_nil _ _, hychar, hnext, rfl, ?_⟩
    show (ich : ℤ) + 1 = digits_value [char y]
    rw [digits_value_one, hvalue]
    push_cast
    rfl

/-- **The replies that the check accepts.** -/
theorem valid_iff : Valid T ich reply ↔ Tolerated ich reply := by
  constructor
  · rintro ⟨h0, h3, htwo, hich⟩
    rcases reply with _ | ⟨b₀, _ | ⟨x, _ | ⟨y, _ | ⟨b₃, rest⟩⟩⟩⟩
    · exact absurd h0 (by decide)
    · exact absurd h3 (show ¬ (0 : UInt8) = 61 by decide)
    · exact absurd h3 (show ¬ (0 : UInt8) = 61 by decide)
    · exact absurd h3 (show ¬ (0 : UInt8) = 61 by decide)
    obtain rfl : b₀ = 102 := h0
    obtain rfl : b₃ = 61 := h3
    have hscan : sscanf_f_d_d T.undefined_scan (c_string (102 :: x :: y :: 61 :: rest)) 0 0 =
        (2, (ich : ℤ) + 1, (scanned T (102 :: x :: y :: 61 :: rest)).2.2) :=
      Prod.ext htwo (Prod.ext hich rfl)
    obtain ⟨u, r, tail, hu, hfirst, hsecond⟩ := sscanf_f_d_d_two.mp hscan
    obtain ⟨n, hn, hvalue⟩ := numeral_of_scan_d hfirst
    obtain ⟨m, hm, -⟩ := numeral_of_scan_d hsecond
    obtain rfl : c_string (x :: y :: 61 :: rest) = u := by
      rw [c_string_cons (by decide)] at hu
      exact (List.cons.inj hu).2
    obtain ⟨hx, hy⟩ := ne_zero_of_numeral hn
    have hstring := c_string_reply hx hy rest
    rw [hu] at hstring
    rw [(List.cons.inj hstring).2] at hn
    obtain ⟨rfl, hydigit, hnumber⟩ := numeral_two hn hm
    have hy' := (isDigit_char y).mp hydigit
    have hyle := hy'.value_le
    refine ⟨x, y, rest, rfl, hy', ?_, (startsNumber_iff rest).mpr ⟨m, tail, hm⟩⟩
    rcases hnumber with ⟨hxdigit, rfl⟩ | ⟨hxother, rfl⟩ | rfl
    · have hx' := (isDigit_char x).mp hxdigit
      have hxle := hx'.value_le
      rw [digits_value_two, int_value_small (by omega) (by push_cast; omega)] at hvalue
      exact .inl ⟨hx', by exact_mod_cast hvalue.symm⟩
    · rw [digits_value_one, int_value_small (by omega) (by omega)] at hvalue
      refine .inr ⟨hxother.imp (isspace_char x).mp fun hplus => ?_, by exact_mod_cast hvalue.symm⟩
      exact char_inj (hplus.trans (show '+' = char 43 from rfl))
    · rw [digits_value_one, int_value_small (by omega) (by omega)] at hvalue
      omega
  · rintro ⟨x, y, rest, rfl, hy, hxy, hrest⟩
    have hx : x ≠ 0 := by
      rcases hxy with ⟨hx, -⟩ | ⟨hx | rfl, -⟩
      · exact hx.ne_zero
      · exact hx.ne_zero
      · decide
    have hle : (ich : ℤ) + 1 ≤ 10000 := by
      have hyle := hy.value_le
      rcases hxy with ⟨hx, hvalue⟩ | ⟨-, hvalue⟩
      · have hxle := hx.value_le
        omega
      · omega
    obtain ⟨m, tail, hm⟩ := (startsNumber_iff rest).mp hrest
    have hfirst : scan_d T.undefined_scan _ = _ :=
      scan_d_of_numeral (numeral_channel hy hxy (c_string rest))
    rw [int_value_small (by omega) hle] at hfirst
    have hscan : sscanf_f_d_d T.undefined_scan _ 0 0 = (2, _, _) := sscanf_f_d_d_two.mpr
      ⟨_, _, _, c_string_reply hx hy.ne_zero rest, hfirst, scan_d_of_numeral hm⟩
    refine ⟨rfl, rfl, ?_, ?_⟩
    · unfold scanned
      rw [hscan]
    · unfold scanned
      rw [hscan]

end Check

/-! ### The documented replies -/

section Format

variable {T : Target} {ich : ℕ} {reply : List UInt8} {v : ℕ}

theorem Documented.tolerated (h : Documented ich reply v) : Tolerated ich reply := by
  obtain ⟨x, y, e₁, e₂, e₃, e₄, rfl, ⟨hx, hy⟩, hxy, ⟨he₁, -⟩, -⟩ := h
  refine ⟨x, y, [e₁, e₂, e₃, e₄], rfl, hy, .inl ⟨hx, hxy⟩, [], [], e₁, [e₂, e₃, e₄], rfl, ?_, .inl rfl,
    he₁⟩
  exact fun b hb => nomatch hb

/-- Four digits are a numeral. -/
theorem numeral_speed {e₁ e₂ e₃ e₄ : UInt8} (h₁ : Digit e₁) (h₂ : Digit e₂) (h₃ : Digit e₃)
    (h₄ : Digit e₄) :
    Numeral (c_string [e₁, e₂, e₃, e₄]) ((1000 * digit_value e₁ + 100 * digit_value e₂ +
      10 * digit_value e₃ + digit_value e₄ : ℕ) : ℤ) [] := by
  have hstring : c_string [e₁, e₂, e₃, e₄] = [char e₁, char e₂, char e₃, char e₄] := by
    rw [c_string_cons h₁.ne_zero, c_string_cons h₂.ne_zero, c_string_cons h₃.ne_zero,
      c_string_cons h₄.ne_zero]
    rfl
  rw [hstring]
  refine ⟨[], [], [char e₁, char e₂, char e₃, char e₄], nofun, .inl rfl, List.cons_ne_nil _ _, ?_, nofun,
    rfl, ?_⟩
  · simp [isDigit_char, h₁, h₂, h₃, h₄]
  · simp [signed, digits_value, char_toNat, digit_value]
    omega

/-- The speed of a documented reply is read. -/
theorem Documented.speed (h : Documented ich reply v) : speed T reply = .fin v := by
  obtain ⟨x, y, e₁, e₂, e₃, e₄, rfl, ⟨hx, hy⟩, hxy, ⟨he₁, he₂, he₃, he₄⟩, hv⟩ := h
  have hfirst : scan_d T.undefined_scan _ = _ :=
    scan_d_of_numeral (numeral_channel hy (.inl ⟨hx, hxy⟩) (c_string [e₁, e₂, e₃, e₄]))
  have hsecond : scan_d T.undefined_scan _ = _ := scan_d_of_numeral (numeral_speed he₁ he₂ he₃ he₄)
  have h₁ := he₁.value_le
  have h₂ := he₂.value_le
  have h₃ := he₃.value_le
  have h₄ := he₄.value_le
  rw [← hv, int_value_small (by omega) (by omega)] at hsecond
  have hscan : sscanf_f_d_d T.undefined_scan _ 0 0 = (2, _, _) := sscanf_f_d_d_two.mpr
    ⟨_, _, _, c_string_reply hx.ne_zero hy.ne_zero _, hfirst, hsecond⟩
  unfold Fan.speed scanned
  rw [hscan]
  rfl

/-- **The format is the documented one** for a reply of channel `ich`: whenever it is received, the
speed it documents is stored, or else the old speed stays. -/
def FormatExact (T : Target) (ich : ℕ) (reply : List UInt8) : Prop :=
  ∀ (O : Outcomes) (fd : ℤ) (n_fan : ℕ) (rpm : ℕ → Double) (r : FanReply) (w : ℕ × ℕ),
    ich < n_fan → 0 ≤ O.ioctl → (∀ j ≤ ich, (O.channel j).Complete) →
    (O.channel ich).reply = reply →
    exec (answers O) (read_fan_speeds T fd rpm n_fan) (0, 0) = some (r, w) →
    (∀ v, Documented ich reply v → r.rpm ich = .fin v) ∧
    ((∀ v, ¬ Documented ich reply v) → r.rpm ich = rpm ich)

/-- What is stored for a reply that has been received. -/
theorem stored_speed {O : Outcomes} {fd : ℤ} {n_fan : ℕ} {rpm : ℕ → Double} {r : FanReply}
    {w : ℕ × ℕ} (hn : ich < n_fan) (hioctl : 0 ≤ O.ioctl)
    (hcomplete : ∀ j ≤ ich, (O.channel j).Complete)
    (hrun : exec (answers O) (read_fan_speeds T fd rpm n_fan) (0, 0) = some (r, w)) :
    r.rpm ich = if Valid T ich (O.channel ich).reply then Fan.speed T (O.channel ich).reply
      else rpm ich := by
  rw [exec_fan_speeds, if_neg (not_lt.mpr hioctl)] at hrun
  obtain ⟨r', w', k, hrun', hfirst, hrpm, -⟩ := exec_channels T O fd n_fan n_fan 0 0 0 rpm
  obtain ⟨rfl, rfl⟩ := Prod.mk.inj (Option.some.inj (hrun.symm.trans hrun'))
  have hk : ich < k := by
    by_contra hle
    exact hfirst.bad (by omega) (hcomplete k (by omega))
  rw [hrpm]
  simp [merged, hk]

/-- A call in which every channel gets this reply. -/
def replies (reply : List UInt8) : Outcomes := ⟨0, fun _ => ⟨2, fun i => ⟨1, [byte reply i]⟩⟩⟩

theorem replies_reply (h : reply.length = 8) (j : ℕ) :
    ((replies reply).channel j).reply = reply := by
  apply List.ext_getElem
  · simp [Channel.reply, h]
  · intro i hi hi'
    simp [Channel.reply, replies, byte, hi']

/-- **When the format is the documented one**: unless the reply is no documented one and yet starts like
one. -/
theorem format_exact_iff (T : Target) (ich : ℕ) {reply : List UInt8} (h : reply.length = 8) :
    FormatExact T ich reply ↔ ((∃ v, Documented ich reply v) ∨ ¬ Tolerated ich reply) := by
  constructor
  · intro hexact
    by_contra hno
    rw [not_or, not_not, not_exists] at hno
    obtain ⟨hundocumented, htolerated⟩ := hno
    -- the old speed can be any other one
    obtain ⟨rpm, hrpm⟩ : ∃ rpm : ℕ → Double, rpm ich ≠ Fan.speed T reply := by
      refine ⟨fun _ => .nan, ?_⟩
      unfold Fan.speed
      exact nofun
    obtain ⟨r, w, k, hrun, -⟩ := exec_channels T (replies reply) 3 (ich + 1 : ℕ) (ich + 1) 0 0 0
      rpm
    have hcall : exec (answers (replies reply)) (read_fan_speeds T 3 rpm (ich + 1 : ℕ)) (0, 0) =
        some (r, w) := by
      rw [exec_fan_speeds]
      exact hrun
    have hcomplete : ∀ j ≤ ich, ((replies reply).channel j).Complete :=
      fun _ _ => ⟨rfl, fun _ _ => rfl⟩
    have hstored := stored_speed (Nat.lt_succ_self ich) (le_refl 0) hcomplete hcall
    rw [replies_reply h, if_pos (valid_iff.mpr htolerated)] at hstored
    have hkept := (hexact (replies reply) 3 (ich + 1) rpm r w (Nat.lt_succ_self ich) (le_refl 0)
      hcomplete (replies_reply h ich) hcall).2 hundocumented
    exact hrpm (hkept.symm.trans hstored)
  · intro hcond O fd n_fan rpm r w hn hioctl hcomplete hreply hrun
    have hstored := stored_speed hn hioctl hcomplete hrun
    rw [hreply] at hstored
    constructor
    · intro v hv
      rw [hstored, if_pos (valid_iff.mpr hv.tolerated), hv.speed]
    · intro hundocumented
      have hrejected : ¬ Tolerated ich reply := by
        rcases hcond with ⟨v, hv⟩ | hno
        · exact absurd hv (hundocumented v)
        · exact hno
      rw [hstored, if_neg fun hvalid => hrejected (valid_iff.mp hvalid)]

/-- "f08=2994" for channel 7. -/
theorem format_exact_eight :
    FormatExact ⟨false, fun _ => 0, id⟩ 7 [102, 48, 56, 61, 50, 57, 57, 52] := by
  refine (format_exact_iff _ 7 rfl).mpr (.inl ⟨2994, ?_⟩)
  exact ⟨48, 56, 50, 57, 57, 52, rfl, by decide, by decide, by decide, by decide⟩

/-- "f08=2" and three NULs: a reply that has been cut is stored as the speed 2. -/
theorem not_format_exact_cut :
    ¬ FormatExact ⟨false, fun _ => 0, id⟩ 7 [102, 48, 56, 61, 50, 0, 0, 0] := by
  intro hexact
  let reply : List UInt8 := [102, 48, 56, 61, 50, 0, 0, 0]
  have hundocumented : ∀ v, ¬ Documented 7 reply v := by
    rintro v ⟨x, y, e₁, e₂, e₃, e₄, hreply, -, -, ⟨-, he₂, -⟩, -⟩
    simp only [reply, List.cons.injEq] at hreply
    obtain ⟨-, -, -, -, -, rfl, -⟩ := hreply
    exact he₂.ne_zero rfl
  have hvalid : Valid ⟨false, fun _ => 0, id⟩ 7 reply := by decide
  obtain ⟨r, w, k, hrun, -⟩ := exec_channels ⟨false, fun _ => 0, id⟩ (replies reply) 3 (8 : ℕ)
    8 0 0 0 fun _ => .nan
  have hcall : exec (answers (replies reply))
      (read_fan_speeds ⟨false, fun _ => 0, id⟩ 3 (fun _ => .nan) (8 : ℕ)) (0, 0) = some (r, w) := by
    rw [exec_fan_speeds]
    exact hrun
  have hcomplete : ∀ j ≤ 7, ((replies reply).channel j).Complete :=
    fun _ _ => ⟨rfl, fun _ _ => rfl⟩
  have hkept := (hexact (replies reply) 3 8 _ r w (by decide) (le_refl 0) hcomplete
    (replies_reply rfl 7) hcall).2 hundocumented
  have hstored := stored_speed (by decide : 7 < 8) (le_refl 0) hcomplete hcall
  rw [replies_reply rfl, if_pos hvalid, hkept] at hstored
  exact nomatch hstored

end Format

end RackmonIoc.Fan
