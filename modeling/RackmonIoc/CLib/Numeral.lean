import Mathlib.Data.List.TakeWhile
import RackmonIoc.CLib.Scanf

/-!
# Numerals

What `%d` reads, as a language: `Numeral s n rest` says that `s` is white space, an optional sign and
digits of value `n`, followed by `rest`, which does not start with a digit.

* `scan_d_of_numeral`, `numeral_of_scan_d`: the conversion succeeds on the strings that start with a
  numeral;
* `Numeral.unique`: a string starts with one numeral at most.
-/

namespace RackmonIoc.CLib

/-- The next character is no digit. -/
def NoDigitNext (rest : List Char) : Prop := ∀ c r, rest = c :: r → c.isDigit = false

/-- A sign, or none. -/
def IsSign (sign : List Char) : Prop := sign = [] ∨ sign = ['+'] ∨ sign = ['-']

/-- The value of the digits, with the sign. -/
def signed (sign ds : List Char) : ℤ :=
  if sign = ['-'] then -(digits_value ds : ℤ) else digits_value ds

/-- The string starts with a numeral of value `n`, and goes on with `rest`. -/
def Numeral (s : List Char) (n : ℤ) (rest : List Char) : Prop :=
  ∃ ws sign ds, (∀ c ∈ ws, isspace c = true) ∧ IsSign sign ∧ ds ≠ [] ∧
    (∀ c ∈ ds, c.isDigit = true) ∧ NoDigitNext rest ∧ s = ws ++ (sign ++ (ds ++ rest)) ∧
    n = signed sign ds

/-! ### Characters -/

theorem isDigit_iff (c : Char) : c.isDigit = true ↔ 48 ≤ c.toNat ∧ c.toNat ≤ 57 := by
  simp only [Char.isDigit, Bool.and_eq_true, decide_eq_true_eq, ge_iff_le, UInt32.le_iff_toNat_le]
  rfl

theorem isspace_iff (c : Char) : isspace c = true ↔ c = ' ' ∨ 9 ≤ c.toNat ∧ c.toNat ≤ 13 := by
  simp [isspace]

theorem not_isspace_of_isDigit {c : Char} (h : c.isDigit = true) : isspace c = false := by
  rw [isDigit_iff] at h
  rw [← Bool.not_eq_true, isspace_iff]
  rintro (rfl | hrange)
  · have hblank : ' '.toNat = 32 := rfl
    omega
  · omega

theorem ne_of_isDigit {c d : Char} (h : c.isDigit = true) (hd : d.isDigit = false) : c ≠ d := by
  rintro rfl
  rw [h] at hd
  exact nomatch hd

/-! ### The parts of the conversion -/

theorem noDigitNext_dropWhile (s : List Char) : NoDigitNext (s.dropWhile Char.isDigit) := by
  intro c r hr
  have hhead := List.head?_dropWhile_not Char.isDigit s
  rw [hr] at hhead
  simpa using hhead

theorem takeWhile_isDigit {ds rest : List Char} (hds : ∀ c ∈ ds, c.isDigit = true)
    (hrest : NoDigitNext rest) :
    (ds ++ rest).takeWhile Char.isDigit = ds ∧ (ds ++ rest).dropWhile Char.isDigit = rest := by
  induction ds with
  | nil =>
    cases rest with
    | nil => exact ⟨rfl, rfl⟩
    | cons c r => simp [hrest c r rfl]
  | cons d ds ih =>
    have hd : d.isDigit = true := hds d List.mem_cons_self
    obtain ⟨htake, hdrop⟩ := ih fun c hc => hds c (List.mem_cons_of_mem _ hc)
    simp [hd, htake, hdrop]

theorem skip_space_append {ws s : List Char} (hws : ∀ c ∈ ws, isspace c = true)
    (hs : ∀ c r, s = c :: r → isspace c = false) : skip_space (ws ++ s) = s := by
  unfold skip_space
  induction ws with
  | nil =>
    cases s with
    | nil => rfl
    | cons c r => simp [hs c r rfl]
  | cons w ws ih =>
    have hw : isspace w = true := hws w List.mem_cons_self
    rw [List.cons_append, List.dropWhile_cons_of_pos hw]
    exact ih fun c hc => hws c (List.mem_cons_of_mem _ hc)

/-- What is skipped, and what follows it. -/
theorem skip_space_split (s : List Char) :
    ∃ ws, (∀ c ∈ ws, isspace c = true) ∧ s = ws ++ skip_space s ∧
      ∀ c r, skip_space s = c :: r → isspace c = false := by
  refine ⟨s.takeWhile isspace, fun c hc => List.mem_takeWhile_imp hc, ?_, fun c r h => ?_⟩
  · exact (List.takeWhile_append_dropWhile).symm
  · have hhead := List.head?_dropWhile_not isspace s
    unfold skip_space at h
    rw [h] at hhead
    simpa using hhead

theorem scan_sign_append {sign ds rest : List Char} (hsign : IsSign sign) (hne : ds ≠ [])
    (hds : ∀ c ∈ ds, c.isDigit = true) :
    scan_sign (sign ++ (ds ++ rest)) = (decide (sign = ['-']), ds ++ rest) := by
  obtain ⟨d, ds, rfl⟩ := List.exists_cons_of_ne_nil hne
  have hd : d.isDigit = true := hds d List.mem_cons_self
  rcases hsign with rfl | rfl | rfl
  · -- the first digit is no sign
    have hminus : d ≠ '-' := ne_of_isDigit hd (by decide)
    have hplus : d ≠ '+' := ne_of_isDigit hd (by decide)
    simp [scan_sign, hminus, hplus]
  · rfl
  · rfl

/-- What a sign is, and what follows it. -/
theorem scan_sign_split (s : List Char) :
    ∃ sign, IsSign sign ∧ s = sign ++ (scan_sign s).2 ∧
      (scan_sign s).1 = decide (sign = ['-']) := by
  unfold scan_sign
  split
  · exact ⟨['-'], .inr (.inr rfl), rfl, rfl⟩
  · exact ⟨['+'], .inr (.inl rfl), rfl, rfl⟩
  · exact ⟨[], .inl rfl, rfl, rfl⟩

/-! ### The conversion -/

section Scan

variable {undefined : ℤ → ℤ} {s rest : List Char} {n v : ℤ}

/-- A numeral starts with a sign or a digit, after the white space. -/
theorem not_isspace_start {sign ds : List Char} (hsign : IsSign sign) (hne : ds ≠ [])
    (hds : ∀ c ∈ ds, c.isDigit = true) (c : Char) (r : List Char)
    (h : sign ++ (ds ++ rest) = c :: r) : isspace c = false := by
  obtain ⟨d, ds, rfl⟩ := List.exists_cons_of_ne_nil hne
  rcases hsign with rfl | rfl | rfl
  · obtain ⟨rfl, -⟩ := List.cons.inj h
    exact not_isspace_of_isDigit (hds _ List.mem_cons_self)
  · obtain ⟨rfl, -⟩ := List.cons.inj h
    rfl
  · obtain ⟨rfl, -⟩ := List.cons.inj h
    rfl

/-- The conversion after the white space. -/
theorem scan_d_eq (undefined : ℤ → ℤ) (s : List Char) :
    scan_d undefined s = if skip_space s = [] then .eof
      else if (scan_sign (skip_space s)).2.takeWhile Char.isDigit = [] then .fail
      else .ok (int_value undefined (if (scan_sign (skip_space s)).1
          then -(digits_value ((scan_sign (skip_space s)).2.takeWhile Char.isDigit) : ℤ)
          else digits_value ((scan_sign (skip_space s)).2.takeWhile Char.isDigit)))
        ((scan_sign (skip_space s)).2.dropWhile Char.isDigit) := by
  unfold scan_d
  cases skip_space s with
  | nil => rfl
  | cons c cs => rfl

theorem scan_d_of_numeral (h : Numeral s n rest) :
    scan_d undefined s = .ok (int_value undefined n) rest := by
  obtain ⟨ws, sign, ds, hws, hsign, hne, hds, hrest, rfl, rfl⟩ := h
  have hstart : ∀ c r, sign ++ (ds ++ rest) = c :: r → isspace c = false :=
    not_isspace_start hsign hne hds
  have hskip := skip_space_append hws hstart
  have hsome : sign ++ (ds ++ rest) ≠ [] := by simp [hne]
  obtain ⟨htake, hdrop⟩ := takeWhile_isDigit hds hrest
  rw [scan_d_eq, hskip, if_neg hsome, scan_sign_append hsign hne hds]
  simp only [htake, hdrop, if_neg hne, decide_eq_true_eq]
  rfl

theorem numeral_of_scan_d (h : scan_d undefined s = .ok v rest) :
    ∃ n, Numeral s n rest ∧ v = int_value undefined n := by
  by_cases hnil : skip_space s = []
  · rw [scan_d_eq, if_pos hnil] at h
    exact nomatch h
  by_cases hdigits : (scan_sign (skip_space s)).2.takeWhile Char.isDigit = []
  · rw [scan_d_eq, if_neg hnil, if_pos hdigits] at h
    exact nomatch h
  rw [scan_d_eq, if_neg hnil, if_neg hdigits] at h
  obtain ⟨rfl, rfl⟩ := Scan.ok.inj h
  obtain ⟨ws, hws, hs, -⟩ := skip_space_split s
  obtain ⟨sign, hsign, hrest, hneg⟩ := scan_sign_split (skip_space s)
  refine ⟨_, ⟨ws, sign, _, hws, hsign, hdigits, fun c hc => List.mem_takeWhile_imp hc,
    noDigitNext_dropWhile _, ?_, rfl⟩, ?_⟩
  · rw [List.takeWhile_append_dropWhile, ← hrest]
    exact hs
  · rw [hneg]
    simp [signed]

/-- A string starts with one numeral at most. -/
theorem Numeral.unique {m : ℤ} {rest' : List Char} (h : Numeral s n rest)
    (h' : Numeral s m rest') : n = m ∧ rest = rest' := by
  have hscan : scan_d id s = .ok (int_value id n) rest := scan_d_of_numeral h
  have hscan' : scan_d id s = .ok (int_value id m) rest' := scan_d_of_numeral h'
  obtain ⟨hn, hrest⟩ := Scan.ok.inj (hscan.symm.trans hscan')
  refine ⟨?_, hrest⟩
  have hid : ∀ k : ℤ, int_value id k = k := by
    intro k
    unfold int_value
    split <;> rfl
  rwa [hid, hid] at hn

/-- Digits and nothing before them: the string goes on with `rest`. -/
def Digits (s ds rest : List Char) : Prop := (∀ c ∈ ds, c.isDigit = true) ∧ s = ds ++ rest

/-- **How a numeral starts**: with white space, a sign or a digit. -/
theorem Numeral.cons_inv {c : Char} (h : Numeral (c :: s) n rest) :
    isspace c = true ∧ Numeral s n rest ∨
    (c = '+' ∨ c = '-') ∧ (∃ ds, ds ≠ [] ∧ Digits s ds rest ∧ n = signed [c] ds) ∨
    c.isDigit = true ∧ ∃ ds, Digits s ds rest ∧ n = digits_value (c :: ds) := by
  obtain ⟨ws, sign, ds, hws, hsign, hne, hds, hrest, hs, rfl⟩ := h
  cases ws with
  | cons w ws =>
    obtain ⟨rfl, rfl⟩ := List.cons.inj hs
    refine .inl ⟨hws _ List.mem_cons_self, ws, sign, ds, fun d hd => ?_, hsign, hne, hds, hrest, rfl,
      rfl⟩
    exact hws d (List.mem_cons_of_mem _ hd)
  | nil =>
    rcases hsign with rfl | rfl | rfl
    · obtain ⟨d, ds, rfl⟩ := List.exists_cons_of_ne_nil hne
      obtain ⟨rfl, htail⟩ := List.cons.inj hs
      refine .inr (.inr ⟨hds _ List.mem_cons_self, ds, ⟨fun e he => ?_, htail⟩, rfl⟩)
      exact hds e (List.mem_cons_of_mem _ he)
    · obtain ⟨rfl, htail⟩ := List.cons.inj hs
      exact .inr (.inl ⟨.inl rfl, ds, hne, ⟨hds, htail⟩, rfl⟩)
    · obtain ⟨rfl, htail⟩ := List.cons.inj hs
      exact .inr (.inl ⟨.inr rfl, ds, hne, ⟨hds, htail⟩, rfl⟩)

/-- White space, a sign and a digit start a numeral, whatever follows. -/
theorem exists_numeral {ws sign junk : List Char} {d : Char} (hws : ∀ c ∈ ws, isspace c = true)
    (hsign : IsSign sign) (hd : d.isDigit = true) :
    ∃ n rest, Numeral (ws ++ (sign ++ d :: junk)) n rest := by
  refine ⟨_, junk.dropWhile Char.isDigit, ws, sign, d :: junk.takeWhile Char.isDigit, hws, hsign,
    List.cons_ne_nil _ _, ?_, noDigitNext_dropWhile junk, ?_, rfl⟩
  · intro c hc
    rcases List.mem_cons.mp hc with rfl | hc
    · exact hd
    · exact List.mem_takeWhile_imp hc
  · rw [List.cons_append, List.takeWhile_append_dropWhile]

/-- **The format `"%d %c"`** on a string that starts with a numeral: `%c` stores the first character
after the white space, if there is one. -/
theorem sscanf_d_c_of_numeral (h : Numeral s n rest) (v₀ : ℤ) (c₀ : Char) :
    sscanf_d_c undefined s v₀ c₀ =
      (if skip_space rest = [] then 1 else 2, int_value undefined n, (skip_space rest).headD c₀) := by
  unfold sscanf_d_c
  rw [scan_d_of_numeral h]
  cases hskip : skip_space rest with
  | nil => simp [hskip, scan_c]
  | cons c r => simp [hskip, scan_c]

/-- **The format `"f%d=%d"`** with both conversions made. -/
theorem sscanf_f_d_d_two {v₀ w₀ w : ℤ} :
    sscanf_f_d_d undefined s v₀ w₀ = (2, v, w) ↔
      ∃ u r rest, s = 'f' :: u ∧ scan_d undefined u = .ok v ('=' :: r) ∧
        scan_d undefined r = .ok w rest := by
  constructor
  · intro h
    unfold sscanf_f_d_d at h
    split at h
    · simp at h
    · rename_i u
      split at h
      · simp at h
      · simp at h
      · rename_i v' r hu
        split at h
        · rename_i w' rest hr
          simp only [Prod.mk.injEq, true_and] at h
          obtain ⟨rfl, rfl⟩ := h
          exact ⟨u, r, rest, rfl, hu, hr⟩
        · simp at h
      · simp at h
    · simp at h
  · rintro ⟨u, r, rest, rfl, hu, hr⟩
    simp only [sscanf_f_d_d, hu, hr]

end Scan

end RackmonIoc.CLib
