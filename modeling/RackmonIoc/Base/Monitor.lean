import RackmonIoc.Base.DbCommon
import RackmonIoc.CLib.Distance

/-!
# Monitors

What the record support posts, and what a subscriber hears of it.  `db_post_events` reaches the
subscribers of the field whose selection shares a bit with the mask, and each gets a copy of the field
and of the alarm as they are at that moment.  A mask is the list of its bits.
-/

namespace RackmonIoc.Base

open CLib

/-! ### Events -/

/-- The bits `DBE_VALUE`, `DBE_ARCHIVE` and `DBE_ALARM`. -/
inductive EventBit where
  | VALUE
  | ARCHIVE
  | ALARM
  deriving DecidableEq

abbrev EventMask := List EventBit

/-- The fields that the modelled code posts. -/
inductive PostField where
  | VAL
  | RVAL
  | SEVR
  | STAT
  | ACKS
  | ACKT
  deriving DecidableEq

/-- A call of `db_post_events`, with the record as it is then; the null pointer stands for every
field. -/
structure Post (ρ : Type) where
  field : Option PostField
  mask : EventMask
  prec : ρ

def Post.map {ρ σ : Type} (f : ρ → σ) (p : Post ρ) : Post σ := ⟨p.field, p.mask, f p.prec⟩

/-- A subscription: the field, and the bits that are selected. -/
structure Subscriber where
  field : PostField
  select : EventMask

namespace Subscriber

variable {ρ σ : Type}

def Hears (s : Subscriber) (p : Post ρ) : Prop :=
  (p.field = none ∨ p.field = some s.field) ∧ ∃ b ∈ p.mask, b ∈ s.select

instance (s : Subscriber) (p : Post ρ) : Decidable (s.Hears p) := by unfold Hears; infer_instance

/-- The record as the subscriber knows it: as it was at the last event that it heard, the first one
being the subscription to `prec`. -/
def last (s : Subscriber) (prec : ρ) (posts : List (Post ρ)) : ρ :=
  posts.foldl (fun r p => if s.Hears p then p.prec else r) prec

@[simp] theorem last_nil (s : Subscriber) (prec : ρ) : s.last prec [] = prec := rfl

@[simp] theorem last_cons (s : Subscriber) (prec : ρ) (p : Post ρ) (posts : List (Post ρ)) :
    s.last prec (p :: posts) = s.last (if s.Hears p then p.prec else prec) posts := rfl

theorem last_append (s : Subscriber) (prec : ρ) (posts posts' : List (Post ρ)) :
    s.last prec (posts ++ posts') = s.last (s.last prec posts) posts' :=
  List.foldl_append

/-- The last event is one of the posts, unless the subscriber hears none of them. -/
theorem last_cases (s : Subscriber) (prec : ρ) (posts : List (Post ρ)) :
    (s.last prec posts = prec ∧ ∀ p ∈ posts, ¬ s.Hears p) ∨
      ∃ p ∈ posts, s.Hears p ∧ s.last prec posts = p.prec := by
  induction posts generalizing prec with
  | nil => exact .inl ⟨rfl, by simp⟩
  | cons p posts ih =>
    rw [last_cons]
    rcases ih (if s.Hears p then p.prec else prec) with ⟨hlast, hnone⟩ | ⟨q, hq, hhears, hlast⟩
    · rw [hlast]
      by_cases hp : s.Hears p
      · exact .inr ⟨p, by simp, hp, if_pos hp⟩
      · refine .inl ⟨if_neg hp, fun q hq => ?_⟩
        rcases List.mem_cons.mp hq with rfl | hq
        · exact hp
        · exact hnone q hq
    · exact .inr ⟨q, by simp [hq], hhears, hlast⟩

/-- Posts that the subscriber does not hear. -/
theorem last_of_not_hears {s : Subscriber} {posts : List (Post ρ)} (h : ∀ p ∈ posts, ¬ s.Hears p)
    (prec : ρ) : s.last prec posts = prec := by
  rcases s.last_cases prec posts with ⟨hlast, -⟩ | ⟨p, hp, hhears, -⟩
  · exact hlast
  · exact absurd hhears (h p hp)

/-- A part of the record, where all that the subscriber hears agrees on it. -/
theorem last_of_hears {α : Type} {s : Subscriber} {get : ρ → α} {a : α} {posts : List (Post ρ)}
    (hposts : ∀ p ∈ posts, s.Hears p → get p.prec = a) {prec : ρ}
    (h : get prec = a ∨ ∃ p ∈ posts, s.Hears p) : get (s.last prec posts) = a := by
  rcases s.last_cases prec posts with ⟨hlast, hnone⟩ | ⟨p, hp, hhears, hlast⟩
  · rw [hlast]
    exact h.resolve_right fun ⟨p, hp, hhears⟩ => hnone p hp hhears
  · rw [hlast]
    exact hposts p hp hhears

/-- **A field that is posted whenever it changes** is known to its subscribers that select
DBE_VALUE. -/
theorem last_posted {α : Type} {s : Subscriber} {get : ρ → α} {prec prec' known : ρ}
    {posts : List (Post ρ)} (hs : .VALUE ∈ s.select)
    (hsame : ∀ p ∈ posts, p.field = none ∨ p.field = some s.field → get p.prec = get prec')
    (hchange : get prec ≠ get prec' → ∃ p ∈ posts, p.field = some s.field ∧ .VALUE ∈ p.mask)
    (h : get known = get prec) : get (s.last known posts) = get prec' := by
  refine last_of_hears (fun p hp hhears => hsame p hp hhears.1) ?_
  by_cases hne : get prec = get prec'
  · exact .inl (h.trans hne)
  · obtain ⟨p, hp, hfield, hmask⟩ := hchange hne
    exact .inr ⟨p, hp, .inr hfield, .VALUE, hmask, hs⟩

theorem hears_map {s : Subscriber} {f : ρ → σ} {p : Post ρ} : s.Hears (p.map f) ↔ s.Hears p := Iff.rfl

/-- A part of the record that the posts of the subscription determine. -/
theorem last_map {α : Type} {s : Subscriber} {f : ρ → σ} (get : ρ → α) (get' : σ → α)
    (hget : ∀ r, get' (f r) = get r) (posts : List (Post ρ)) {prec : ρ} {prec' : σ}
    (h : get' prec' = get prec) :
    get' (s.last prec' (posts.map (Post.map f))) = get (s.last prec posts) := by
  induction posts generalizing prec prec' with
  | nil => exact h
  | cons p posts ih =>
    rw [List.map_cons, last_cons, last_cons]
    refine ih ?_
    by_cases hp : s.Hears p
    · rw [if_pos hp, if_pos (hears_map.mpr hp)]
      exact hget p.prec
    · rw [if_neg hp, if_neg (mt hears_map.mp hp)]
      exact h

end Subscriber

/-! ### The posts of `recGblResetAlarms` -/

/-- `sevr` or `stat` changes. -/
def AlarmChanges (prec : DbCommon) : Prop := prec.sevr ≠ prec.nsev ∨ prec.stat ≠ prec.nsta

instance (prec : DbCommon) : Decidable (AlarmChanges prec) := by unfold AlarmChanges; infer_instance

/-- The mask that `recGblResetAlarms` returns. -/
def resetAlarms_mask (prec : DbCommon) : EventMask := if AlarmChanges prec then [.ALARM] else []

/-- The mask with which it posts STAT. -/
def stat_mask (prec : DbCommon) : EventMask :=
  (if prec.sevr ≠ prec.nsev then [.ALARM] else []) ++
    if prec.stat ≠ prec.nsta then [.VALUE] else []

/-- ACKS is raised with a change of the alarm. -/
def AcksRaised (prec : DbCommon) : Prop := AlarmChanges prec ∧ (!prec.ackt ∨ prec.acks ≤ prec.nsev)

instance (prec : DbCommon) : Decidable (AcksRaised prec) := by unfold AcksRaised; infer_instance

theorem recGblResetAlarms_acks (prec : DbCommon) :
    (recGblResetAlarms prec).acks = if AcksRaised prec then prec.nsev else prec.acks := rfl

/-- What it posts; ACKS is raised after SEVR and STAT have been posted. -/
def resetAlarms_posts (prec : DbCommon) : List (Post DbCommon) :=
  let prec' := recGblResetAlarms prec
  (if prec.sevr ≠ prec.nsev then [⟨some .SEVR, [.VALUE], { prec' with acks := prec.acks }⟩] else []) ++
  (if AlarmChanges prec then [⟨some .STAT, stat_mask prec, { prec' with acks := prec.acks }⟩] else []) ++
  (if AcksRaised prec then [⟨some .ACKS, [.VALUE], prec'⟩] else [])

/-- A subscriber of SEVR, STAT, ACKS or ACKT knows the field. -/
structure KnowsField (s : Subscriber) (known prec : DbCommon) : Prop where
  sevr : s.field = .SEVR → known.sevr = prec.sevr
  stat : s.field = .STAT → known.stat = prec.stat
  acks : s.field = .ACKS → known.acks = prec.acks
  ackt : s.field = .ACKT → known.ackt = prec.ackt

theorem KnowsField.refl (s : Subscriber) (prec : DbCommon) : KnowsField s prec prec :=
  ⟨fun _ => rfl, fun _ => rfl, fun _ => rfl, fun _ => rfl⟩

theorem mem_resetAlarms_posts {prec : DbCommon} {p : Post DbCommon} :
    p ∈ resetAlarms_posts prec ↔
      (prec.sevr ≠ prec.nsev ∧
        p = ⟨some .SEVR, [.VALUE], { recGblResetAlarms prec with acks := prec.acks }⟩) ∨
      (AlarmChanges prec ∧
        p = ⟨some .STAT, stat_mask prec, { recGblResetAlarms prec with acks := prec.acks }⟩) ∨
      (AcksRaised prec ∧ p = ⟨some .ACKS, [.VALUE], recGblResetAlarms prec⟩) := by
  have hite : ∀ (c : Prop) [Decidable c] (q : Post DbCommon),
      p ∈ (if c then [q] else []) ↔ c ∧ p = q := by
    intro c _ q
    split_ifs with hc <;> simp [hc]
  unfold resetAlarms_posts
  rw [List.mem_append, List.mem_append, hite, hite, hite, or_assoc]

/-- **A subscriber of SEVR, STAT or ACKS** that selects DBE_VALUE still knows the field when the alarms
have been reset. -/
theorem KnowsField.resetAlarms {s : Subscriber} (hs : .VALUE ∈ s.select) {prec known : DbCommon}
    (h : KnowsField s known prec) :
    KnowsField s (s.last known (resetAlarms_posts prec)) (recGblResetAlarms prec) := by
  refine ⟨fun hf => ?_, fun hf => ?_, fun hf => ?_, fun hf => ?_⟩
  · refine Subscriber.last_posted hs ?_ (fun hne => ?_) (h.sevr hf)
    · intro p hp _
      rcases mem_resetAlarms_posts.mp hp with ⟨-, rfl⟩ | ⟨-, rfl⟩ | ⟨-, rfl⟩ <;> rfl
    · exact ⟨_, mem_resetAlarms_posts.mpr (.inl ⟨hne, rfl⟩), congrArg some hf.symm, by simp⟩
  · refine Subscriber.last_posted hs ?_ (fun hne => ?_) (h.stat hf)
    · intro p hp _
      rcases mem_resetAlarms_posts.mp hp with ⟨-, rfl⟩ | ⟨-, rfl⟩ | ⟨-, rfl⟩ <;> rfl
    · have hne' : prec.stat ≠ prec.nsta := hne
      exact ⟨_, mem_resetAlarms_posts.mpr (.inr (.inl ⟨.inr hne', rfl⟩)), congrArg some hf.symm,
        by simp [stat_mask, hne']⟩
  · refine Subscriber.last_posted hs ?_ (fun hne => ?_) (h.acks hf)
    · -- SEVR and STAT are posted before ACKS is raised, but not to this subscriber
      rintro p hp (hfield | hfield) <;>
        rcases mem_resetAlarms_posts.mp hp with ⟨-, rfl⟩ | ⟨-, rfl⟩ | ⟨-, rfl⟩ <;>
        simp_all
    · have hraised : AcksRaised prec := by
        by_contra hno
        exact hne (by rw [recGblResetAlarms_acks, if_neg hno])
      exact ⟨_, mem_resetAlarms_posts.mpr (.inr (.inr ⟨hraised, rfl⟩)), congrArg some hf.symm,
        by simp⟩
  · refine Subscriber.last_posted hs ?_ (fun hne => absurd rfl hne) (h.ackt hf)
    intro p hp _
    rcases mem_resetAlarms_posts.mp hp with ⟨-, rfl⟩ | ⟨-, rfl⟩ | ⟨-, rfl⟩ <;> rfl

/-! ### `recGblCheckDeadband` -/

/-- The change of the value, as the deadband sees it. -/
def deadband_delta (oldval newval : Double) : Double :=
  if newval.finite && oldval.finite then
    let delta := oldval - newval
    if delta < 0 then -delta else delta
  else if newval.isnan ≠ oldval.isnan ∨ newval.isinf ≠ oldval.isinf then .inf false
  else if newval.isinf && !newval.eq oldval then .inf false
  else 0

/-- The last value monitored, and the mask. -/
def recGblCheckDeadband (oldval newval deadband : Double) (monitor_mask add_mask : EventMask) :
    Double × EventMask :=
  if deadband < deadband_delta oldval newval then (newval, monitor_mask ++ add_mask)
  else (oldval, monitor_mask)

/-- The values are the same, or two numbers that differ by `d` at most. -/
def Near (d : ℚ) (a b : Double) : Prop := a = b ∨ ∃ p q, a = .fin p ∧ b = .fin q ∧ |p - q| ≤ d

theorem Near.mono {d e : ℚ} {a b : Double} (h : Near d a b) (hde : d ≤ e) : Near e a b := by
  rcases h with rfl | ⟨p, q, rfl, rfl, hpq⟩
  · exact .inl rfl
  · exact .inr ⟨p, q, rfl, rfl, hpq.trans hde⟩

theorem Near.symm {d : ℚ} {a b : Double} (h : Near d a b) : Near d b a := by
  rcases h with rfl | ⟨p, q, rfl, rfl, hpq⟩
  · exact .inl rfl
  · exact .inr ⟨q, p, rfl, rfl, by rwa [abs_sub_comm]⟩

theorem Near.trans {d e : ℚ} {a b c : Double} (hd : 0 ≤ d) (he : 0 ≤ e) (h : Near d a b)
    (h' : Near e b c) : Near (d + e) a c := by
  rcases h with rfl | ⟨p, q, rfl, rfl, hpq⟩
  · exact h'.mono (le_add_of_nonneg_left hd)
  · rcases h' with rfl | ⟨q', r, hq, rfl, hqr⟩
    · exact .inr ⟨p, q, rfl, rfl, hpq.trans (le_add_of_nonneg_right he)⟩
    · obtain rfl : q = q' := Double.fin.inj hq
      exact .inr ⟨p, r, rfl, rfl, (abs_sub_le p q r).trans (add_le_add hpq hqr)⟩

/-- A change that is not above a finite deadband. -/
theorem near_of_not_posted {d : ℚ} {oldval newval : Double}
    (h : ¬ .fin d < deadband_delta oldval newval) : Near d oldval newval := by
  have hinf : Double.fin d < .inf false := rfl
  unfold deadband_delta at h
  rcases oldval with _ | s | p <;> rcases newval with _ | t | q
  case fin.fin =>
    refine .inr ⟨p, q, rfl, rfl, ?_⟩
    have hsub : (Double.fin p - .fin q : Double) = .fin (p - q) := by
      simp [Double.sub_eq, Double.add, Double.neg, sub_eq_add_neg]
    simp only [Double.finite, Bool.and_self, if_true, hsub, Double.neg_eq, Double.neg,
      Double.ofNat_eq, Nat.cast_zero, Double.fin_lt] at h
    split_ifs at h with hneg
    · rw [Double.fin_lt, not_lt] at h
      rwa [abs_of_neg hneg]
    · rw [Double.fin_lt, not_lt] at h
      rwa [abs_of_nonneg (not_lt.mp hneg)]
  case inf.inf =>
    by_cases hst : s = t
    · exact .inl (congrArg _ hst)
    · exact absurd hinf
        (by simpa [Double.finite, Double.isnan, Double.isinf, Double.eq, Ne.symm hst] using h)
  case nan.nan => exact .inl rfl
  all_goals exact absurd hinf (by simpa [Double.finite, Double.isnan, Double.isinf] using h)

end RackmonIoc.Base
