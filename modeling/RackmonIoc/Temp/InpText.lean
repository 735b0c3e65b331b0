import RackmonIoc.CLib.Double
import RackmonIoc.CLib.Numeral
import RackmonIoc.Driver.Ioc

/-!
# The text of a link

The INP comment documents a number in the range 0 to 63 and a letter after it.  The source parses the
text with one `sscanf`, which takes any character for the letter and does not look at what follows it.

* `Documented` is the language of the documentation, with the letters of all records;
* `parses_exactly_iff` says for which texts the initialisation goes by it.
-/

namespace RackmonIoc.Temp

open Program CLib Base Driver Prog

/-! ### The language -/

def IsSpaces (ws : List Char) : Prop := ∀ c ∈ ws, isspace c = true

/-- The letters of the INP comment and of the comment on `my_dpvt_s`. -/
def letters : List Char := ['S', 'Y', 'C', 'H', 'L']

/-- **What may follow the number**: white space, a letter or none, and white space.  No letter is the
letter blank. -/
def Suffix (rest : List Char) (ch : Char) : Prop :=
  ∃ ws letter ws', rest = ws ++ (letter ++ ws') ∧ IsSpaces ws ∧ IsSpaces ws' ∧
    (letter = [] ∧ ch = ' ' ∨ letter = [ch] ∧ ch ∈ letters)

/-- **The documented texts**, for the number `n` and the letter `ch`. -/
def Documented (text : List Char) (n : ℤ) (ch : Char) : Prop :=
  ∃ rest, Numeral text n rest ∧ 0 ≤ n ∧ n ≤ 63 ∧ Suffix rest ch

/-- **A mistyped suffix**: the first character after the white space is no letter, or something else
follows it. -/
def Mistyped (rest : List Char) : Prop :=
  ∃ ws c junk, rest = ws ++ c :: junk ∧ IsSpaces ws ∧ isspace c = false ∧
    (c ∉ letters ∨ ¬ IsSpaces junk)

theorem skip_spaces {ws : List Char} (h : IsSpaces ws) : skip_space ws = [] := by
  have happend := skip_space_append (s := []) h (by simp)
  rwa [List.append_nil] at happend

theorem not_isspace_letter {c : Char} (h : c ∈ letters) : isspace c = false := by
  simp only [letters, List.mem_cons, List.not_mem_nil, or_false] at h
  rcases h with rfl | rfl | rfl | rfl | rfl <;> rfl

theorem skip_suffix {rest : List Char} {ch : Char} (h : Suffix rest ch) :
    skip_space rest = [] ∧ ch = ' ' ∨
      ∃ ws', skip_space rest = ch :: ws' ∧ IsSpaces ws' ∧ ch ∈ letters := by
  obtain ⟨ws, letter, ws', rfl, hws, hws', ⟨rfl, rfl⟩ | ⟨rfl, hmem⟩⟩ := h
  · left
    refine ⟨skip_spaces fun c hc => ?_, rfl⟩
    rcases List.mem_append.mp hc with hc | hc
    · exact hws c hc
    · exact hws' c hc
  · right
    refine ⟨ws', skip_space_append hws fun c r hc => ?_, hws', hmem⟩
    obtain ⟨rfl, -⟩ := List.cons.inj hc
    exact not_isspace_letter hmem

/-- **A suffix is either documented or mistyped.** -/
theorem suffix_iff_not_mistyped (rest : List Char) : (∃ ch, Suffix rest ch) ↔ ¬ Mistyped rest := by
  constructor
  · rintro ⟨ch, hsuffix⟩ ⟨ws, c, junk, rfl, hws, hc, hjunk⟩
    have hskip : skip_space (ws ++ c :: junk) = c :: junk := by
      apply skip_space_append hws
      intro d r hd
      obtain ⟨rfl, -⟩ := List.cons.inj hd
      exact hc
    rcases skip_suffix hsuffix with ⟨hnil, -⟩ | ⟨ws', hcons, hws', hmem⟩
    · rw [hskip] at hnil
      exact nomatch hnil
    · rw [hskip] at hcons
      obtain ⟨rfl, rfl⟩ := List.cons.inj hcons
      rcases hjunk with hc | hjunk
      · exact hc hmem
      · exact hjunk hws'
  · intro h
    obtain ⟨ws, hws, hrest, hnext⟩ := skip_space_split rest
    cases hskip : skip_space rest with
    | nil =>
      rw [hskip, List.append_nil] at hrest
      exact ⟨' ', ws, [], [], by simpa using hrest, hws, by simp [IsSpaces], .inl ⟨rfl, rfl⟩⟩
    | cons c junk =>
      rw [hskip] at hrest
      have hc : c ∈ letters := by
        by_contra hc
        exact h ⟨ws, c, junk, hrest, hws, hnext c junk hskip, .inl hc⟩
      have hjunk : IsSpaces junk := by
        by_contra hjunk
        exact h ⟨ws, c, junk, hrest, hws, hnext c junk hskip, .inr hjunk⟩
      exact ⟨c, ws, [c], junk, hrest, hws, hjunk, .inr ⟨rfl, hc⟩⟩

/-! ### The parser -/

section Parser

variable {T : Target} {text rest : List Char} {n : ℤ}

theorem accepted_of_numeral (h : Numeral text n rest) (h0 : 0 ≤ n) (h63 : n ≤ 63) :
    accepted T text = some (n, (skip_space rest).headD ' ') := by
  have hN : NCH_RACKTEMP = 64 := rfl
  have hvalue : int_value T.undefined_scan n = n := if_pos (by omega)
  have hconv : (if skip_space rest = [] then 1 else 2 : ℤ) > 0 := by
    split_ifs <;> omega
  unfold accepted
  rw [sscanf_d_c_of_numeral h, hvalue]
  exact if_pos ⟨hconv, by omega⟩

theorem numeral_of_accepted {ch : Char}
    (hfits : ∀ m rest, Numeral text m rest → Double.FitsInt m)
    (h : accepted T text = some (n, ch)) : ∃ rest, Numeral text n rest ∧ 0 ≤ n ∧ n ≤ 63 := by
  obtain ⟨h0, h64⟩ := accepted_range h
  unfold accepted sscanf_d_c at h
  rcases hscan : scan_d T.undefined_scan text with _ | _ | ⟨v, rest⟩
  · simp [hscan] at h
  · simp [hscan] at h
  · obtain ⟨m, hm, rfl⟩ := numeral_of_scan_d hscan
    have hvalue : int_value T.undefined_scan m = m := if_pos (hfits m rest hm)
    have hmn : m = n := by
      simp only [hscan, hvalue, Option.ite_none_right_eq_some, Option.some.injEq,
        Prod.mk.injEq] at h
      obtain ⟨-, hn, -⟩ := h
      rw [← hn]
      cases scan_c (skip_space rest) <;> rfl
    obtain rfl := hmn
    exact ⟨rest, hm, h0, by omega⟩

theorem accepted_of_documented {ch : Char} (h : Documented text n ch) :
    accepted T text = some (n, ch) := by
  obtain ⟨rest, hnumeral, h0, h63, hsuffix⟩ := h
  rw [accepted_of_numeral hnumeral h0 h63]
  rcases skip_suffix hsuffix with ⟨hskip, rfl⟩ | ⟨ws', hskip, -, -⟩ <;> rw [hskip] <;> rfl

end Parser

/-! ### The initialisation -/

/-- The bus can be opened; whatever else the outside answers. -/
def openEnv : Env DevSig Unit := fun _ o r _ =>
  match o, r with
  | .open_i2c_bus _, r => 0 ≤ r
  | _, _ => True

/-- The initialisation returns 0, and the record has an entry with the number and the letter; no other
entry has changed. -/
def Recorded (g : Globals) (prec : DbCommon) (n : ℤ) (ch : Char) (r : ℤ × Globals × DbCommon) :
    Prop :=
  r.1 = 0 ∧ ∃ i, r.2.1.private_data = Function.update g.private_data i ⟨n, ch⟩ ∧
    r.2.2 = { prec with dpvt := some i }

/-- The initialisation returns `S_db_badField` and has changed neither the table nor the record. -/
def Rejected (g : Globals) (prec : DbCommon) (r : ℤ × Globals × DbCommon) : Prop :=
  r.1 = S_db_badField ∧ r.2.1.private_data = g.private_data ∧ r.2.2 = prec

/-- **The initialisation goes by the documentation**, in every state: it returns, with the number and
the letter of the text if the text is documented, and rejects the text if not. -/
def ParsesExactly (T : Target) (text : List Char) : Prop :=
  ∀ g prec, (∃ r, Returns openEnv (init_record_common T g prec (some text)) () r ()) ∧
    ∀ r, Returns openEnv (init_record_common T g prec (some text)) () r () →
      (∀ n ch, Documented text n ch → Recorded g prec n ch r) ∧
      ((∀ n ch, ¬ Documented text n ch) → Rejected g prec r)

section Init

variable {T : Target} {text : List Char}

/-- **What the initialisation does with a text**, by what the parser makes of it. -/
theorem outcome_init_record_common {g : Globals} {prec : DbCommon} {r : ℤ × Globals × DbCommon}
    (h : Returns openEnv (init_record_common T g prec (some text)) () r ()) :
    (∀ n ch, accepted T text = some (n, ch) → Recorded g prec n ch r) ∧
      (accepted T text = none → Rejected g prec r) := by
  have hwp : wp openEnv (fun _ _ => True)
      (fun r _ => (∀ n ch, accepted T text = some (n, ch) → Recorded g prec n ch r) ∧
        (accepted T text = none → Rejected g prec r))
      (init_record_common T g prec (some text)) () := by
    apply wp_init_record_common
    · exact fun w st m => ⟨trivial, fun _ _ _ => rfl⟩
    · exact fun _ => trivial
    · exact fun _ _ _ _ _ => trivial
    · intro fd w' hb hfd
      unfold BusOpened at hb
      split_ifs at hb with hg
      · exact absurd hb (show ¬ (0 : ℤ) ≤ fd by omega)
      · omega
    · intro fd w' _ _ hnone
      refine ⟨fun n ch hacc => ?_, fun _ => ⟨rfl, rfl, rfl⟩⟩
      exact nomatch hnone.symm.trans hacc
    · intro fd w' n ch _ _ hacc
      refine ⟨fun m ch' hacc' => ?_, fun hnone => nomatch hnone.symm.trans hacc⟩
      obtain ⟨rfl, rfl⟩ := Prod.mk.inj (Option.some.inj (hacc'.symm.trans hacc))
      exact ⟨rfl, _, rfl, rfl⟩
  have hpost := wp_returns hwp h
  exact hpost

theorem exists_outcome_text (T : Target) (text : List Char) (g : Globals) (prec : DbCommon) :
    ∃ r, Returns openEnv (init_record_text T g prec (some text)) () r () := by
  rcases hacc : accepted T text with _ | ⟨n, ch⟩
  · obtain ⟨m, hm⟩ := init_record_text_rejected hacc g prec
    rw [hm]
    exact ⟨_, returns_vis.mpr ⟨(), (), trivial, .refl _ _⟩⟩
  · rw [init_record_text_accepted hacc]
    exact ⟨_, .refl _ _⟩

theorem exists_outcome (g : Globals) (prec : DbCommon) :
    ∃ r, Returns openEnv (init_record_common T g prec (some text)) () r () := by
  unfold init_record_common
  by_cases hg : g.global_fd_i2c < 0
  · obtain ⟨r, hr⟩ := exists_outcome_text T text { g with global_fd_i2c := 0 } prec
    rw [if_pos hg]
    exact ⟨r, returns_vis.mpr ⟨(0 : ℤ), (), le_refl _, hr⟩⟩
  · rw [if_neg hg]
    exact exists_outcome_text T text g prec

/-- **A mistyped suffix is accepted**, although nothing is documented for it. -/
theorem not_parses_exactly {n : ℤ} {rest : List Char} (hnumeral : Numeral text n rest) (h0 : 0 ≤ n)
    (h63 : n ≤ 63) (hmistyped : Mistyped rest) : ¬ ParsesExactly T text := by
  intro h
  obtain ⟨⟨r, hr⟩, hall⟩ := h Globals.init default
  have hrecorded := (outcome_init_record_common hr).1 n _ (accepted_of_numeral hnumeral h0 h63)
  have hrejected : Rejected Globals.init default r := by
    apply (hall r hr).2
    rintro m ch ⟨rest', hnumeral', -, -, hsuffix⟩
    obtain ⟨-, rfl⟩ := hnumeral.unique hnumeral'
    exact (suffix_iff_not_mistyped rest).mp ⟨ch, hsuffix⟩ hmistyped
  have hstatus : (0 : ℤ) = S_db_badField := hrecorded.1.symm.trans hrejected.1
  have hbad : S_db_badField ≠ 0 := by decide
  exact hbad hstatus.symm

/-- **The texts that are parsed as documented**: those that do not start with a number in the range
whose suffix is mistyped. -/
theorem parses_exactly_iff (hfits : ∀ n rest, Numeral text n rest → Double.FitsInt n) :
    ParsesExactly T text ↔ ∀ n rest, Numeral text n rest → 0 ≤ n → n ≤ 63 → ¬ Mistyped rest := by
  constructor
  · intro h n rest hnumeral h0 h63 hmistyped
    exact not_parses_exactly hnumeral h0 h63 hmistyped h
  · intro h g prec
    refine ⟨exists_outcome g prec, fun r hr => ⟨fun n ch hdoc => ?_, fun hnone => ?_⟩⟩
    · exact (outcome_init_record_common hr).1 n ch (accepted_of_documented hdoc)
    · apply (outcome_init_record_common hr).2
      rw [Option.eq_none_iff_forall_ne_some]
      rintro ⟨n, ch⟩ hacc
      obtain ⟨rest, hnumeral, h0, h63⟩ := numeral_of_accepted hfits hacc
      obtain ⟨ch', hsuffix⟩ := (suffix_iff_not_mistyped rest).mpr (h n rest hnumeral h0 h63)
      exact hnone n ch' ⟨rest, hnumeral, h0, h63, hsuffix⟩

end Init

theorem numeral_seven : Numeral ['7', ' ', 'C'] 7 [' ', 'C'] := by
  refine ⟨[], [], ['7'], by simp, .inl rfl, by simp, by simp, ?_, rfl, rfl⟩
  intro c r h
  obtain ⟨rfl, -⟩ := List.cons.inj h
  rfl

theorem parses_exactly_seven : ParsesExactly ⟨false, fun _ => 0, id⟩ ['7', ' ', 'C'] := by
  refine (parses_exactly_iff fun n rest h => ?_).mpr fun n rest h _ _ => ?_
  · obtain ⟨rfl, -⟩ := numeral_seven.unique h
    decide
  · obtain ⟨-, rfl⟩ := numeral_seven.unique h
    apply (suffix_iff_not_mistyped _).mp
    exact ⟨'C', [' '], ['C'], [], rfl, by simp [IsSpaces, isspace], by simp [IsSpaces],
      .inr ⟨rfl, by simp [letters]⟩⟩

/-- The text "12.5" is accepted as the number 12 and the letter '.'. -/
theorem not_parses_exactly_point :
    ¬ ParsesExactly ⟨false, fun _ => 0, id⟩ ['1', '2', '.', '5'] := by
  have hnumeral : Numeral ['1', '2', '.', '5'] 12 ['.', '5'] := by
    refine ⟨[], [], ['1', '2'], by simp, .inl rfl, by simp, by simp, ?_, rfl, rfl⟩
    intro c r h
    obtain ⟨rfl, -⟩ := List.cons.inj h
    rfl
  apply not_parses_exactly hnumeral (by omega) (by omega)
  exact ⟨[], '.', ['5'], rfl, by simp [IsSpaces], rfl, .inl (by simp [letters])⟩

end RackmonIoc.Temp
