import RackmonIoc.CLib.Double

/-!
# The fields every record has, and `recGbl.c`

`recGblSetSevr` raises the new alarm of a record, and `recGblResetAlarms` makes the new alarm the
current one.  The posting of monitors is left out.
-/

namespace RackmonIoc.Base

open CLib

/-- Illegal field value. -/
def S_db_badField : ℤ := 501 * 2 ^ 16 + 15

/-- `menuAlarmSevr` -/
inductive Severity where
  | NO_ALARM
  | MINOR
  | MAJOR
  | INVALID
  deriving DecidableEq, Inhabited

def Severity.toNat : Severity → ℕ
  | NO_ALARM => 0
  | MINOR => 1
  | MAJOR => 2
  | INVALID => 3

instance : LT Severity := ⟨fun a b => a.toNat < b.toNat⟩
instance : LE Severity := ⟨fun a b => a.toNat ≤ b.toNat⟩
instance (a b : Severity) : Decidable (a < b) := inferInstanceAs (Decidable (a.toNat < b.toNat))
instance (a b : Severity) : Decidable (a ≤ b) := inferInstanceAs (Decidable (a.toNat ≤ b.toNat))

theorem Severity.not_lt_no_alarm (s : Severity) : ¬ s < NO_ALARM := Nat.not_lt_zero _

theorem Severity.no_alarm_lt {s : Severity} (h : s ≠ NO_ALARM) : NO_ALARM < s := by
  cases s with
  | NO_ALARM => exact absurd rfl h
  | MINOR | MAJOR | INVALID => decide

/-- The choices of `menuAlarmStat` that the modelled code sets. -/
inductive AlarmStat where
  | NO_ALARM
  | HIHI
  | HIGH
  | LOLO
  | LOW
  | STATE
  | COS
  | LINK
  | SOFT
  | UDF
  | SIMM
  deriving DecidableEq, Inhabited

/-- The common fields of a record; `dpvt` is the index of the entry of `private_data` it points to. -/
structure DbCommon where
  dpvt : Option ℤ
  pact : Bool
  udf : Bool
  udfs : Severity
  stat : AlarmStat
  sevr : Severity
  nsta : AlarmStat
  nsev : Severity
  acks : Severity
  ackt : Bool
  deriving DecidableEq, Inhabited

/-- Raise the new alarm, unless it is already as severe; the `Bool` says whether it was raised. -/
def recGblSetSevr (prec : DbCommon) (new_stat : AlarmStat) (new_sevr : Severity) :
    DbCommon × Bool :=
  if prec.nsev < new_sevr then ({ prec with nsta := new_stat, nsev := new_sevr }, true)
  else (prec, false)

/-- The new alarm becomes the current one.  A severity above INVALID, which the source clips, is no
value of `Severity`. -/
def recGblResetAlarms (prec : DbCommon) : DbCommon :=
  let changed := prec.sevr ≠ prec.nsev ∨ prec.stat ≠ prec.nsta
  { prec with
    stat := prec.nsta
    sevr := prec.nsev
    nsta := .NO_ALARM
    nsev := .NO_ALARM
    acks := if changed ∧ (!prec.ackt ∨ prec.acks ≤ prec.nsev) then prec.nsev else prec.acks }

/-- An alarm of no severity is not raised. -/
@[simp] theorem recGblSetSevr_no_alarm (prec : DbCommon) (st : AlarmStat) :
    (recGblSetSevr prec st .NO_ALARM).1 = prec := by
  unfold recGblSetSevr
  rw [if_neg prec.nsev.not_lt_no_alarm]

/-- The first alarm of a processing is raised. -/
theorem recGblSetSevr_first {prec : DbCommon} (h : prec.nsev = .NO_ALARM) (st : AlarmStat)
    {sv : Severity} (hsv : sv ≠ .NO_ALARM) :
    (recGblSetSevr prec st sv).1 = { prec with nsta := st, nsev := sv } := by
  unfold recGblSetSevr
  rw [if_pos (by rw [h]; exact Severity.no_alarm_lt hsv)]

/-- Raising an alarm makes it INVALID exactly when it was or the raised one is. -/
theorem recGblSetSevr_invalid (prec : DbCommon) (st : AlarmStat) (sv : Severity) :
    (recGblSetSevr prec st sv).1.nsev = .INVALID ↔ prec.nsev = .INVALID ∨ sv = .INVALID := by
  have h : ∀ a b : Severity, (if a < b then b else a) = .INVALID ↔ a = .INVALID ∨ b = .INVALID := by
    intro a b
    cases a <;> cases b <;> decide
  rw [← h]
  unfold recGblSetSevr
  split <;> rfl

/-- The record up to the new alarm. -/
def NewAlarm (prec prec' : DbCommon) : Prop :=
  ∃ nsta nsev, prec' = { prec with nsta := nsta, nsev := nsev }

theorem NewAlarm.trans {prec₁ prec₂ prec₃ : DbCommon} (h : NewAlarm prec₁ prec₂)
    (h' : NewAlarm prec₂ prec₃) : NewAlarm prec₁ prec₃ := by
  obtain ⟨nsta, nsev, rfl⟩ := h
  obtain ⟨nsta', nsev', rfl⟩ := h'
  exact ⟨nsta', nsev', rfl⟩

theorem NewAlarm.dpvt {prec prec' : DbCommon} (h : NewAlarm prec prec') : prec'.dpvt = prec.dpvt := by
  obtain ⟨nsta, nsev, rfl⟩ := h
  rfl

theorem NewAlarm.pact {prec prec' : DbCommon} (h : NewAlarm prec prec') : prec'.pact = prec.pact := by
  obtain ⟨nsta, nsev, rfl⟩ := h
  rfl

theorem NewAlarm.udfs {prec prec' : DbCommon} (h : NewAlarm prec prec') : prec'.udfs = prec.udfs := by
  obtain ⟨nsta, nsev, rfl⟩ := h
  rfl

theorem recGblSetSevr_newAlarm (prec : DbCommon) (st : AlarmStat) (sv : Severity) :
    NewAlarm prec (recGblSetSevr prec st sv).1 := by
  unfold recGblSetSevr
  split
  · exact ⟨st, sv, rfl⟩
  · exact ⟨prec.nsta, prec.nsev, rfl⟩

/-! ### Links -/

/-- What a link brings at one processing: a constant link brings nothing; any other one a status, a
value, and the alarm that the record inherits with it. -/
inductive Link (α : Type) where
  | constant
  | read (status : ℤ) (value : α) (stat : AlarmStat) (sevr : Severity)

/-- The result of `dbGetLink`, and the buffer after the call; `old` is its content before. -/
def Link.get {α : Type} (old : α) : Link α → ℤ × α
  | constant => (0, old)
  | read status value _ _ => (status, if status = 0 then value else old)

/-- The alarms `dbGetLink` raises: the inherited one, and LINK where the link fails. -/
def Link.raise {α : Type} (prec : DbCommon) : Link α → DbCommon
  | constant => prec
  | read status _ stat sevr =>
    let prec := (recGblSetSevr prec stat sevr).1
    if status ≠ 0 then (recGblSetSevr prec .LINK .INVALID).1 else prec

/-- The link makes the alarm of the record INVALID. -/
def Link.Invalid {α : Type} : Link α → Prop
  | constant => False
  | read status _ _ sevr => sevr = .INVALID ∨ status ≠ 0

theorem Link.raise_invalid {α : Type} (l : Link α) (prec : DbCommon) :
    (l.raise prec).nsev = .INVALID ↔ prec.nsev = .INVALID ∨ l.Invalid := by
  cases l with
  | constant => simp [raise, Invalid]
  | read status value stat sevr =>
    simp only [raise, Invalid]
    split <;> simp_all [recGblSetSevr_invalid]

theorem Link.raise_newAlarm {α : Type} (l : Link α) (prec : DbCommon) :
    NewAlarm prec (l.raise prec) := by
  cases l with
  | constant => exact ⟨prec.nsta, prec.nsev, rfl⟩
  | read status value stat sevr =>
    have h := recGblSetSevr_newAlarm prec stat sevr
    simp only [raise]
    split
    · exact h.trans (recGblSetSevr_newAlarm _ _ _)
    · exact h

end RackmonIoc.Base
