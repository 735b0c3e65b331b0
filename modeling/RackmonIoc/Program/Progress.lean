import Mathlib.Data.Finset.Insert
import RackmonIoc.Program.Section

/-!
# Progress of threads with one lock

`Prog.Within p n`: no path of `p` makes more than `n` operations.  In a pool of threads a call then
makes no more, whatever the others do (`Pool.count_le_of_within`).

Where every call is protected and every operation can be answered, no interleaving gets stuck: from
every state that is reached, the calls in progress can all be run to their end without a new one
(`Pool.drains`).
-/

namespace RackmonIoc.Program

namespace Prog

variable {S : Sig} {α β : Type}

/-- No path of the program makes more than `n` operations. -/
def Within : Prog S α → ℕ → Prop
  | ret _, _ => True
  | vis _ _, 0 => False
  | vis _ k, n + 1 => ∀ r, (k r).Within n

@[simp] theorem within_ret (a : α) (n : ℕ) : (ret a : Prog S α).Within n := by
  cases n <;> trivial

@[simp] theorem within_vis {o : S.Op} {k : S.Reply o → Prog S α} {n : ℕ} :
    (vis o k).Within (n + 1) ↔ ∀ r, (k r).Within n := Iff.rfl

theorem Within.mono {p : Prog S α} {m n : ℕ} (h : p.Within m) (hmn : m ≤ n) : p.Within n := by
  induction p generalizing m n with
  | ret a => exact within_ret a n
  | vis o k ih =>
    cases m with
    | zero => exact h.elim
    | succ m =>
      obtain ⟨n, rfl⟩ : ∃ n', n = n' + 1 := ⟨n - 1, by omega⟩
      exact fun r => ih r (h r) (by omega)

theorem within_bind {p : Prog S α} {f : α → Prog S β} {m n : ℕ} (hp : p.Within m)
    (hf : ∀ a, (f a).Within n) : (p.bind f).Within (m + n) := by
  induction p generalizing m with
  | ret a => exact (hf a).mono (by omega)
  | vis o k ih =>
    cases m with
    | zero => exact hp.elim
    | succ m =>
      rw [Nat.add_right_comm]
      exact fun r => ih r (hp r)

theorem within_ite {c : Prop} [Decidable c] {p q : Prog S α} {n : ℕ} (hp : p.Within n)
    (hq : q.Within n) : (if c then p else q).Within n := by
  split
  · exact hp
  · exact hq

/-- A program that still holds the lock has an operation to make. -/
theorem Held.pos {L : LockOps S} {p : Prog S α} (h : p.Held L) {n : ℕ} (hn : p.Within n) : 0 < n := by
  cases p with
  | ret a => exact h.elim
  | vis o k =>
    cases n with
    | zero => exact hn.elim
    | succ n => exact Nat.succ_pos n

end Prog

/-! ### Lists in which equal entries stand together -/

/-- The entries equal to the head stand at the front. -/
theorem Contig.front {A : Type} {a : A} {l : List A} (h : Contig l) (ha : l.head? = some a) :
    ∃ n rest, l = List.replicate n a ++ rest ∧ a ∉ rest := by
  induction l with
  | nil => exact nomatch ha
  | cons b l ih =>
    obtain rfl : b = a := Option.some.inj ha
    by_cases hb : b ∈ l
    · obtain ⟨n, rest, hl, hrest⟩ := ih h.1 (h.2 hb)
      exact ⟨n + 1, rest, by rw [hl, List.replicate_succ, List.cons_append], hrest⟩
    · exact ⟨1, l, rfl, hb⟩

namespace Pool

/-! ### The number of operations of a call -/

section Bound

variable {Th C β W : Type} {S : Sig} [DecidableEq Th] {prog : C → Prog S β} {may : Th → C → Prop}
  {E : Th × ℕ → Env S W}

/-- The number of operations that the agent `a` has made. -/
def made (a : Th × ℕ) (tr : List (PoolEvent Th S)) : ℕ := count (fun _ => true) a tr

theorem made_cons_self {a : Th × ℕ} {o : S.Op} {r : S.Reply o} {tr : List (PoolEvent Th S)} :
    made a (⟨a, o, r⟩ :: tr) = made a tr + 1 := by
  unfold made
  rw [count_cons_self, if_pos rfl, Nat.add_comm]

theorem made_cons_ne {a : Th × ℕ} {e : PoolEvent Th S} {tr : List (PoolEvent Th S)}
    (h : e.agent ≠ a) : made a (e :: tr) = made a tr := count_cons_ne h

theorem made_eq_count (a : Th × ℕ) (tr : List (PoolEvent Th S)) :
    made a tr = (tr.map PoolEvent.agent).count a := by
  induction tr with
  | nil => rfl
  | cons e tr ih =>
    obtain ⟨b, o, r⟩ := e
    rw [List.map_cons]
    by_cases hb : b = a
    · subst hb
      rw [made_cons_self, List.count_cons_self, ih]
    · rw [made_cons_ne hb, List.count_cons_of_ne hb, ih]

/-- The invariant: what a call has made and what is left of it are together within the bound of its
thread. -/
structure BoundInv (N : Th → ℕ) (tr : List (PoolEvent Th S)) (P : Pool Th C S β W) : Prop where
  running : ∀ t R, P.thread t = some R →
    R.id < P.started t ∧ ∃ n, R.prog.Within n ∧ n + made (t, R.id) tr ≤ N t
  fresh : ∀ t i, P.started t ≤ i → made (t, i) tr = 0
  le : ∀ t i, made (t, i) tr ≤ N t

variable {N : Th → ℕ}

theorem BoundInv.step (hN : ∀ t c, may t c → (prog c).Within (N t)) {tr : List (PoolEvent Th S)}
    {P P' : Pool Th C S β W} {e : Option (PoolEvent Th S)} (h : BoundInv N tr P)
    (hs : Step prog may E P e P') : BoundInv N (e.toList ++ tr) P' := by
  cases hs with
  | @call t c ht hmay =>
    refine ⟨fun u R hR => ?_, fun u i hi => h.fresh u i ?_, h.le⟩
    · by_cases hu : u = t
      · subst hu
        simp only [Function.update_self, Option.some.injEq] at hR ⊢
        subst hR
        have hzero : made (u, P.started u) tr = 0 := h.fresh u _ le_rfl
        exact ⟨Nat.lt_succ_self _, N u, hN u c hmay, Nat.le_of_eq (congrArg (N u + ·) hzero)⟩
      · simp only [Function.update_of_ne hu] at hR ⊢
        exact h.running u R hR
    · by_cases hu : u = t
      · subst hu
        simp only [Function.update_self] at hi
        omega
      · simp only [Function.update_of_ne hu] at hi
        exact hi
  | @op t c i o k r w ht he =>
    obtain ⟨hid, n, hwithin, hn⟩ := h.running t _ ht
    -- the operation is one of those that were left
    obtain ⟨m, rfl⟩ : ∃ m, n = m + 1 := by
      cases n with
      | zero => exact hwithin.elim
      | succ m => exact ⟨m, rfl⟩
    have hself : made (t, i) (⟨(t, i), o, r⟩ :: tr) = made (t, i) tr + 1 := made_cons_self
    have hother : ∀ u j, (u, j) ≠ (t, i) → made (u, j) (⟨(t, i), o, r⟩ :: tr) = made (u, j) tr :=
      fun u j hne => made_cons_ne hne.symm
    refine ⟨fun u R hR => ?_, fun u j hj => ?_, fun u j => ?_⟩
    · by_cases hu : u = t
      · subst hu
        simp only [Function.update_self, Option.some.injEq] at hR
        subst hR
        refine ⟨hid, m, hwithin r, ?_⟩
        show m + made (u, i) (⟨(u, i), o, r⟩ :: tr) ≤ N u
        rw [hself]
        show m + (made (u, i) tr + 1) ≤ N u
        simp only at hn
        omega
      · simp only [Function.update_of_ne hu] at hR
        show _ ∧ ∃ n, _ ∧ n + made (u, R.id) (⟨(t, i), o, r⟩ :: tr) ≤ N u
        rw [hother u R.id fun hne => hu (congrArg Prod.fst hne)]
        exact h.running u R hR
    · show made (u, j) (⟨(t, i), o, r⟩ :: tr) = 0
      have hne : (u, j) ≠ (t, i) := by
        intro heq
        obtain ⟨rfl, rfl⟩ := Prod.mk.inj heq
        exact absurd hid (Nat.not_lt.mpr hj)
      rw [hother u j hne]
      exact h.fresh u j hj
    · show made (u, j) (⟨(t, i), o, r⟩ :: tr) ≤ N u
      by_cases hne : (u, j) = (t, i)
      · obtain ⟨rfl, rfl⟩ := Prod.mk.inj hne
        rw [hself]
        simp only at hn
        omega
      · rw [hother u j hne]
        exact h.le u j
  | @ret t c i b ht =>
    refine ⟨fun u R hR => ?_, h.fresh, h.le⟩
    by_cases hu : u = t
    · subst hu
      simp only [Function.update_self] at hR
      exact nomatch hR
    · simp only [Function.update_of_ne hu] at hR
      exact h.running u R hR

theorem boundInv_reach (hN : ∀ t c, may t c → (prog c).Within (N t)) {w : W}
    {tr : List (PoolEvent Th S)} {P : Pool Th C S β W} (h : Reach prog may E (start w) tr P) :
    BoundInv N tr P := by
  refine reach_induction ⟨nofun, fun _ _ _ => rfl, fun _ _ => Nat.zero_le _⟩ ?_ h
  exact fun tr P e P' hI hs => hI.step hN hs

end Bound

/-! ### No interleaving gets stuck -/

section Drain

variable {Th C β V : Type} {S : Sig} [DecidableEq Th] {L : LockOps S} {E : Th × ℕ → Env S V}
  {prog : C → Prog S β} {may : Th → C → Prop}

/-- A step is one of a single thread. -/
theorem Step.others {W : Type} {F : Th × ℕ → Env S W} {P P' : Pool Th C S β W}
    {e : Option (PoolEvent Th S)} (h : Step prog may F P e P') :
    ∃ t, ∀ u, u ≠ t → P'.thread u = P.thread u := by
  cases h with
  | @call t c ht hmay => exact ⟨t, fun u hu => Function.update_of_ne hu _ _⟩
  | @op t c i o k r w ht he => exact ⟨t, fun u hu => Function.update_of_ne hu _ _⟩
  | @ret t c i b ht => exact ⟨t, fun u hu => Function.update_of_ne hu _ _⟩

/-- Only finitely many threads are not idle. -/
theorem busy_finite {W : Type} {F : Th × ℕ → Env S W} {w : W} {tr : List (PoolEvent Th S)}
    {P : Pool Th C S β W} (h : Reach prog may F (start w) tr P) :
    ∃ s : Finset Th, ∀ t, t ∉ s → P.thread t = none := by
  induction h with
  | init => exact ⟨∅, fun _ _ => rfl⟩
  | step _ hs ih =>
    obtain ⟨s, hidle⟩ := ih
    obtain ⟨t, hother⟩ := hs.others
    refine ⟨insert t s, fun u hu => ?_⟩
    rw [Finset.mem_insert, not_or] at hu
    exact (hother u hu.1).trans (hidle u hu.2)

/-- A run from `P` in which the thread `t` alone goes on, up to the end of its call; the lock is free
then. -/
def Finishes (prog : C → Prog S β) (may : Th → C → Prop) (L : LockOps S) (E : Th × ℕ → Env S V)
    (P : Pool Th C S β (Locked (Th × ℕ) V)) (t : Th) : Prop :=
  ∃ tr w, Reach prog may (lockEnv L E) P tr
    { P with thread := Function.update P.thread t none, world := w } ∧ w.owner = none

theorem Finishes.of_op {P : Pool Th C S β (Locked (Th × ℕ) V)} {t : Th} {c : C} {i : ℕ} {o : S.Op}
    {k : S.Reply o → Prog S β} {r : S.Reply o} {w : Locked (Th × ℕ) V}
    (ht : P.thread t = some ⟨c, i, .vis o k⟩) (he : lockEnv L E (t, i) P.world o r w)
    (h : Finishes prog may L E
      { P with thread := Function.update P.thread t (some ⟨c, i, k r⟩), world := w } t) :
    Finishes prog may L E P t := by
  obtain ⟨tr, w', hreach, hfree⟩ := h
  refine ⟨tr ++ [⟨(t, i), o, r⟩], w', ?_, hfree⟩
  simp only [Function.update_idem] at hreach
  exact (Reach.init.step (.op ht he)).trans hreach

theorem finishes_ret {P : Pool Th C S β (Locked (Th × ℕ) V)} {t : Th} {R : Running C S β}
    (ht : P.thread t = some R) (hR : R.prog.isRet = true) (hfree : P.world.owner = none) :
    Finishes prog may L E P t := by
  obtain ⟨c, i, p⟩ := R
  obtain ⟨b, rfl⟩ := Prog.isRet_iff.mp hR
  exact ⟨[], P.world, Reach.init.step (.ret ht), hfree⟩

/-- What a call may issue can be answered, the lock being free where it is taken. -/
structure Answered (L : LockOps S) (E : Th × ℕ → Env S V) (ok : S.Op → Prop) : Prop where
  lock : ∀ o, ok o → L.isLock o = true ∨ L.isUnlock o = true → Nonempty (S.Reply o)
  other : ∀ a v o, ok o → L.isLock o = false → L.isUnlock o = false → ∃ r v', E a v o r v'

variable {ok : S.Op → Prop}

/-- The holder of the lock can finish. -/
theorem finishes_held (hE : Answered L E ok) {p : Prog S β} (hp : p.Held L) (hok : p.Only ok)
    {P : Pool Th C S β (Locked (Th × ℕ) V)} {t : Th} {c : C} {i : ℕ}
    (ht : P.thread t = some ⟨c, i, p⟩) : Finishes prog may L E P t := by
  induction p generalizing P with
  | ret b => exact hp.elim
  | vis o k ih =>
    obtain ⟨hlock, hrest⟩ := hp
    by_cases hu : L.isUnlock o = true
    · rw [if_pos hu] at hrest
      obtain ⟨r⟩ := hE.lock o hok.1 (.inr hu)
      have he : lockEnv L E (t, i) P.world o r { P.world with owner := none } := by
        unfold lockEnv
        rw [if_neg (by simp [hlock]), if_pos hu]
      refine .of_op ht he (finishes_ret (R := ⟨c, i, k r⟩) ?_ (hrest r) rfl)
      exact Function.update_self _ _ _
    · rw [if_neg hu] at hrest
      have hu' : L.isUnlock o = false := by simpa using hu
      obtain ⟨r, v, hv⟩ := hE.other (t, i) P.world.val o hok.1 hlock hu'
      have he : lockEnv L E (t, i) P.world o r { P.world with val := v } := by
        unfold lockEnv
        rw [if_neg (by simp [hlock]), if_neg hu]
        exact ⟨hv, rfl⟩
      refine .of_op ht he (ih r (hrest r) (hok.2 r) ?_)
      exact Function.update_self _ _ _

/-- A call that waits for the lock can take it once it is free, and finish. -/
theorem finishes_protected (hE : Answered L E ok) {p : Prog S β} (hp : p.Protected L)
    (hok : p.Only ok) {P : Pool Th C S β (Locked (Th × ℕ) V)} {t : Th} {c : C} {i : ℕ}
    (ht : P.thread t = some ⟨c, i, p⟩) (hfree : P.world.owner = none) :
    Finishes prog may L E P t := by
  cases p with
  | ret b => exact hp.elim
  | vis o k =>
    obtain ⟨hlock, hheld⟩ := hp
    obtain ⟨r⟩ := hE.lock o hok.1 (.inl hlock)
    have he : lockEnv L E (t, i) P.world o r { P.world with owner := some (t, i) } := by
      unfold lockEnv
      rw [if_pos hlock]
      exact ⟨hfree, rfl⟩
    refine .of_op ht he (finishes_held (c := c) (i := i) hE (hheld r) (hok.2 r) ?_)
    exact Function.update_self _ _ _

variable {G : C → Th × ℕ → V → S.Op → Prop}

/-- Every call in progress can finish, if the lock is free or its own. -/
theorem SectionInv.finishes {tr : List (PoolEvent Th S)} {P : Pool Th C S β (Locked (Th × ℕ) V)}
    (h : SectionInv L E G tr P) (hE : Answered L E ok)
    (hok : ∀ t R, P.thread t = some R → R.prog.Only ok) {t : Th} {R : Running C S β}
    (ht : P.thread t = some R) (hown : P.world.owner = none ∨ P.world.owner = some (t, R.id)) :
    Finishes prog may L E P t := by
  cases h.phase t R ht with
  | waiting hp _ hno _ =>
    exact finishes_protected hE hp (hok t R ht) ht (hown.resolve_right hno)
  | inside hp _ _ _ _ => exact finishes_held hE hp (hok t R ht) ht
  | released hp hno _ _ => exact finishes_ret ht hp (hown.resolve_right hno)

/-- The calls in progress only issue what the calls may. -/
theorem only_reach {W : Type} {F : Th × ℕ → Env S W} (hok : ∀ t c, may t c → (prog c).Only ok) {w : W}
    {tr : List (PoolEvent Th S)} {P : Pool Th C S β W} (h : Reach prog may F (start w) tr P) :
    ∀ t R, P.thread t = some R → R.prog.Only ok := by
  refine reach_induction (I := fun _ P => ∀ t R, P.thread t = some R → R.prog.Only ok) nofun ?_ h
  intro tr P e P' hI hs u R hR
  cases hs with
  | @call t c ht hmay =>
    by_cases hu : u = t
    · subst hu
      simp only [Function.update_self, Option.some.injEq] at hR
      subst hR
      exact hok u c hmay
    · simp only [Function.update_of_ne hu] at hR
      exact hI u R hR
  | @op t c i o k r w ht he =>
    by_cases hu : u = t
    · subst hu
      simp only [Function.update_self, Option.some.injEq] at hR
      subst hR
      exact (hI u _ ht).2 r
    · simp only [Function.update_of_ne hu] at hR
      exact hI u R hR
  | @ret t c i b ht =>
    by_cases hu : u = t
    · subst hu
      simp only [Function.update_self] at hR
      exact nomatch hR
    · simp only [Function.update_of_ne hu] at hR
      exact hI u R hR

/-- The threads outside `s` stay idle when one more becomes idle. -/
theorem idle_update {s : Finset Th} {f : Th → Option (Running C S β)} {t : Th}
    (hidle : ∀ u, u ∉ s → u ≠ t → f u = none) : ∀ u, u ∉ s → Function.update f t none u = none := by
  intro u hu
  by_cases hut : u = t
  · subst hut
    exact Function.update_self _ _ _
  · exact (Function.update_of_ne hut _ _).trans (hidle u hu hut)

/-- **The threads can always be drained**: from every state reached there is a run, in which no thread
starts a call, to a state in which all are idle and the lock is free. -/
theorem drains (hE : Answered L E ok) (hp : ∀ c, (prog c).Protected L)
    (hs : ∀ c a o k, prog c = .vis o k → ∀ r v,
      (k r).wp (soloEnv L E a) (sectionGuard L (G c a)) (fun _ _ => True) v)
    (hok : ∀ t c, may t c → (prog c).Only ok) {v : V} {tr : List (PoolEvent Th S)}
    {P : Pool Th C S β (Locked (Th × ℕ) V)}
    (h : Reach prog may (lockEnv L E) (start ⟨none, v⟩) tr P) :
    ∃ tr' P', Reach prog may (lockEnv L E) P tr' P' ∧ (∀ t, P'.thread t = none) ∧
      P'.world.owner = none ∧ P'.started = P.started := by
  have hfinish : ∀ {tr} {P : Pool Th C S β (Locked (Th × ℕ) V)},
      Reach prog may (lockEnv L E) (start ⟨none, v⟩) tr P → ∀ {t R}, P.thread t = some R →
      P.world.owner = none ∨ P.world.owner = some (t, R.id) → Finishes prog may L E P t :=
    fun h t R ht hown => (sectionInv_reach hp hs h).finishes hE (only_reach hok h) ht hown
  -- with the lock free, one busy thread after the other
  have hfree : ∀ (s : Finset Th) {tr} {P : Pool Th C S β (Locked (Th × ℕ) V)},
      Reach prog may (lockEnv L E) (start ⟨none, v⟩) tr P → P.world.owner = none →
      (∀ t, t ∉ s → P.thread t = none) →
      ∃ tr' P', Reach prog may (lockEnv L E) P tr' P' ∧ (∀ t, P'.thread t = none) ∧
        P'.world.owner = none ∧ P'.started = P.started := by
    intro s
    induction s using Finset.induction_on with
    | empty => exact fun _ hown hidle => ⟨[], _, .init, fun t => hidle t (by simp), hown, rfl⟩
    | @insert t s _ ih =>
      intro tr P hreach hown hidle
      rcases ht : P.thread t with _ | R
      · refine ih hreach hown fun u hu => ?_
        by_cases hut : u = t
        · exact hut ▸ ht
        · exact hidle u (by simp [hut, hu])
      · obtain ⟨tr₁, w, hrun, hw⟩ := hfinish hreach ht (.inl hown)
        obtain ⟨tr₂, P', hrun', hall, hown', hstarted⟩ := ih (hreach.trans hrun) hw
          (idle_update fun u hu hut => hidle u (by simp [hut, hu]))
        exact ⟨tr₂ ++ tr₁, P', hrun.trans hrun', hall, hown', hstarted⟩
  obtain ⟨s, hs'⟩ := busy_finite h
  rcases hown : P.world.owner with _ | ⟨t, i⟩
  · exact hfree s h hown hs'
  · -- the holder first
    obtain ⟨R, hR, rfl⟩ := (sectionInv_reach hp hs h).owner t i hown
    obtain ⟨tr₁, w, hrun, hw⟩ := hfinish h hR (.inr hown)
    obtain ⟨tr₂, P', hrun', hall, hown', hstarted⟩ := hfree s (h.trans hrun) hw
      (idle_update fun u hu _ => hs' u hu)
    exact ⟨tr₂ ++ tr₁, P', hrun.trans hrun', hall, hown', hstarted⟩

end Drain

end Pool

end RackmonIoc.Program
