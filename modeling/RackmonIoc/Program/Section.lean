import Mathlib.Data.List.Basic
import RackmonIoc.Program.Pool

/-!
# Threads with one lock

Some operations of the signature take a lock and some release it.  A program is *protected* when it
takes the lock first and on every path releases it once, as its last operation.  In a pool of threads
whose calls are all protected

* the operations of one call stand next to each other in every trace (`Contig`);
* a call that returns has taken and released the lock exactly once;
* sequential reasoning is enough: a guard that `wp` gives for the section of every call, from an
  arbitrary content of the shared state, holds at every operation of every interleaving.
-/

namespace RackmonIoc.Program

/-- The operations that take and that release the lock. -/
structure LockOps (S : Sig) where
  isLock : S.Op → Bool
  isUnlock : S.Op → Bool
  unlock_of_lock : ∀ o, isLock o = true → isUnlock o = false

/-- The lock, with the agent that holds it, and the state that the agents share. -/
structure Locked (A V : Type) where
  owner : Option A
  val : V

/-- The environment of a lock: taking it waits until it is free, and the other operations are those of
`E` on the shared state. -/
def lockEnv {S : Sig} {A V : Type} (L : LockOps S) (E : A → Env S V) (a : A) :
    Env S (Locked A V) := fun w o r w' =>
  if L.isLock o then w.owner = none ∧ w' = { w with owner := some a }
  else if L.isUnlock o then w' = { w with owner := none }
  else E a w.val o r w'.val ∧ w'.owner = w.owner

/-- The environment of one agent alone: the lock plays no part. -/
def soloEnv {S : Sig} {A V : Type} (L : LockOps S) (E : A → Env S V) (a : A) : Env S V :=
  fun v o r v' => if L.isLock o ∨ L.isUnlock o then v' = v else E a v o r v'

namespace Prog

variable {S : Sig} {α β : Type} (L : LockOps S)

/-- No operation of the program takes or releases the lock. -/
def LockFree (p : Prog S α) : Prop := p.Only fun o => L.isLock o = false ∧ L.isUnlock o = false

/-- The lock is held: on every path the program releases it once, as its last operation. -/
def Held : Prog S α → Prop
  | ret _ => False
  | vis o k => L.isLock o = false ∧
      if L.isUnlock o then ∀ r, (k r).isRet else ∀ r, (k r).Held

/-- The program takes the lock and then holds it. -/
def Protected : Prog S α → Prop
  | ret _ => False
  | vis o k => L.isLock o = true ∧ ∀ r, (k r).Held L

variable {L}

theorem held_bind {p : Prog S α} {f : α → Prog S β} (hp : p.LockFree L)
    (hf : ∀ a, (f a).Held L) : (p.bind f).Held L := by
  induction p with
  | ret a => exact hf a
  | vis o k ih =>
    refine ⟨hp.1.1, ?_⟩
    rw [hp.1.2]
    exact fun r => ih r (hp.2 r)

end Prog

/-! ### Lists in which equal entries stand together -/

/-- Equal entries stand next to each other. -/
def Contig {A : Type} : List A → Prop
  | [] => True
  | a :: l => Contig l ∧ (a ∈ l → l.head? = some a)

theorem Contig.between_head {A : Type} {a b : A} {mid post : List A}
    (h : Contig (a :: mid ++ a :: post)) (hb : b ∈ mid) : b = a := by
  induction mid with
  | nil => exact absurd hb List.not_mem_nil
  | cons c mid ih =>
    have hc : c = a := by simpa using h.2 (by simp)
    rcases List.mem_cons.mp hb with rfl | hb
    · exact hc
    · exact ih (hc ▸ h.1) hb

theorem Contig.between {A : Type} {a b : A} {pre mid post : List A}
    (h : Contig (pre ++ a :: mid ++ a :: post)) (hb : b ∈ mid) : b = a := by
  induction pre with
  | nil => exact h.between_head hb
  | cons _ pre ih => exact ih h.1

/-! ### The invariant -/

namespace Pool

variable {Th C β V : Type} {S : Sig} [DecidableEq Th]

/-- The number of operations of the agent `a` in the trace that satisfy `p`. -/
def count (p : S.Op → Bool) (a : Th × ℕ) (tr : List (PoolEvent Th S)) : ℕ :=
  (tr.filter fun e => e.agent = a ∧ p e.op = true).length

theorem count_cons_ne {p : S.Op → Bool} {a : Th × ℕ} {e : PoolEvent Th S}
    {tr : List (PoolEvent Th S)} (h : e.agent ≠ a) : count p a (e :: tr) = count p a tr := by
  simp [count, h]

theorem count_cons_self {p : S.Op → Bool} {a : Th × ℕ} {o : S.Op} {r : S.Reply o}
    {tr : List (PoolEvent Th S)} :
    count p a (⟨a, o, r⟩ :: tr) = (if p o then 1 else 0) + count p a tr := by
  unfold count
  by_cases hp : p o = true
  · rw [List.filter_cons_of_pos (by simp [hp]), List.length_cons, if_pos hp, Nat.add_comm]
  · rw [List.filter_cons_of_neg (by simp [hp]), if_neg hp, Nat.zero_add]

theorem count_eq_zero {p : S.Op → Bool} {a : Th × ℕ} {tr : List (PoolEvent Th S)}
    (h : a ∉ tr.map PoolEvent.agent) : count p a tr = 0 := by
  unfold count
  rw [List.length_eq_zero_iff, List.filter_eq_nil_iff]
  intro e he hea
  simp only [decide_eq_true_eq] at hea
  exact h (List.mem_map.mpr ⟨e, he, hea.1⟩)

/-- The guard `G` of a call, at the operations that are not the lock's. -/
def sectionGuard (L : LockOps S) (G : V → S.Op → Prop) : V → S.Op → Prop :=
  fun v o => L.isLock o = false → L.isUnlock o = false → G v o

/-- Where the program `p` of the agent `a` stands. -/
inductive Phase (L : LockOps S) (E : Th × ℕ → Env S V) (G : V → S.Op → Prop)
    (tr : List (PoolEvent Th S)) (w : Locked (Th × ℕ) V) (a : Th × ℕ) (p : Prog S β) : Prop
  /-- It has yet to take the lock. -/
  | waiting : p.Protected L → (∀ o k, p = .vis o k → ∀ r v,
        (k r).wp (soloEnv L E a) (sectionGuard L G) (fun _ _ => True) v) →
      w.owner ≠ some a → a ∉ tr.map PoolEvent.agent → Phase L E G tr w a p
  /-- It holds the lock. -/
  | inside : p.Held L → p.wp (soloEnv L E a) (sectionGuard L G) (fun _ _ => True) w.val →
      w.owner = some a → count L.isLock a tr = 1 → count L.isUnlock a tr = 0 → Phase L E G tr w a p
  /-- It has released the lock and returned. -/
  | released : p.isRet = true → w.owner ≠ some a → count L.isLock a tr = 1 →
      count L.isUnlock a tr = 1 → Phase L E G tr w a p

/-- A step of another agent leaves the phase. -/
theorem Phase.frame {L : LockOps S} {E : Th × ℕ → Env S V} {G : V → S.Op → Prop}
    {tr : List (PoolEvent Th S)} {w w' : Locked (Th × ℕ) V} {a : Th × ℕ} {p : Prog S β}
    {e : PoolEvent Th S} (h : Phase L E G tr w a p) (he : e.agent ≠ a)
    (h1 : w.owner = some a → w' = w) (h2 : w'.owner = some a → w.owner = some a) :
    Phase L E G (e :: tr) w' a p := by
  cases h with
  | waiting hp hs ho ha =>
    refine .waiting hp hs (fun h => ho (h2 h)) ?_
    rw [List.map_cons, List.mem_cons, not_or]
    exact ⟨fun h => he h.symm, ha⟩
  | inside hp hs ho hl hu =>
    rw [h1 ho]
    exact .inside hp hs ho (by rw [count_cons_ne he, hl]) (by rw [count_cons_ne he, hu])
  | released hp ho hl hu =>
    exact .released hp (fun h => ho (h2 h)) (by rw [count_cons_ne he, hl]) (by rw [count_cons_ne he, hu])

/-- The invariant of the threads with one lock. -/
structure SectionInv (L : LockOps S) (E : Th × ℕ → Env S V) (G : C → Th × ℕ → V → S.Op → Prop)
    (tr : List (PoolEvent Th S)) (P : Pool Th C S β (Locked (Th × ℕ) V)) : Prop where
  phase : ∀ t R, P.thread t = some R →
    Phase L E (G R.call (t, R.id)) tr P.world (t, R.id) R.prog
  owner : ∀ t i, P.world.owner = some (t, i) → ∃ R, P.thread t = some R ∧ R.id = i
  head : ∀ a, P.world.owner = some a → (tr.map PoolEvent.agent).head? = some a
  contig : Contig (tr.map PoolEvent.agent)
  seen : ∀ a ∈ tr.map PoolEvent.agent, a.2 < P.started a.1
  running : ∀ t R, P.thread t = some R → R.id < P.started t
  ended : ∀ t i, i < P.started t → (∀ R, P.thread t = some R → R.id ≠ i) →
    count L.isLock (t, i) tr = 1 ∧ count L.isUnlock (t, i) tr = 1

variable {L : LockOps S} {E : Th × ℕ → Env S V} {G : C → Th × ℕ → V → S.Op → Prop}
  {prog : C → Prog S β} {may : Th → C → Prop}

theorem sectionInv_start (v : V) :
    SectionInv L E G [] (start ⟨none, v⟩ : Pool Th C S β (Locked (Th × ℕ) V)) where
  phase t R h := by simp [start] at h
  owner t i h := by simp [start] at h
  head a h := by simp [start] at h
  contig := trivial
  seen a h := by simp at h
  running t R h := by simp [start] at h
  ended t i h := by simp [start] at h

theorem sectionInv_call (hp : ∀ c, (prog c).Protected L)
    (hs : ∀ c a o k, prog c = .vis o k → ∀ r v,
      (k r).wp (soloEnv L E a) (sectionGuard L (G c a)) (fun _ _ => True) v)
    {tr : List (PoolEvent Th S)} {P : Pool Th C S β (Locked (Th × ℕ) V)} {t : Th} {c : C}
    (h : SectionInv L E G tr P) (ht : P.thread t = none) :
    SectionInv L E G tr { P with
      thread := Function.update P.thread t (some ⟨c, P.started t, prog c⟩)
      started := Function.update P.started t (P.started t + 1) } := by
  have hfree : P.world.owner ≠ some (t, P.started t) := by
    intro ho
    obtain ⟨R, hR, -⟩ := h.owner _ _ ho
    rw [ht] at hR
    exact nomatch hR
  have hmono : ∀ u, P.started u ≤ Function.update P.started t (P.started t + 1) u := by
    intro u
    by_cases hu : u = t
    · subst hu
      rw [Function.update_self]
      omega
    · exact Nat.le_of_eq (Function.update_of_ne hu _ _).symm
  refine ⟨fun u R hR => ?_, fun u i ho => ?_, h.head, h.contig, fun a ha => ?_, fun u R hR => ?_,
    fun u i hi hR => ?_⟩
  · by_cases hu : u = t
    · subst hu
      simp only [Function.update_self, Option.some.injEq] at hR
      subst hR
      exact .waiting (hp c) (hs c _) hfree fun hm => absurd (h.seen _ hm) (Nat.lt_irrefl _)
    · simp only [Function.update_of_ne hu] at hR
      exact h.phase u R hR
  · obtain ⟨R, hR, hi⟩ := h.owner u i ho
    have hu : u ≠ t := by
      rintro rfl
      rw [ht] at hR
      exact nomatch hR
    exact ⟨R, by simp only [Function.update_of_ne hu, hR], hi⟩
  · exact Nat.lt_of_lt_of_le (h.seen a ha) (hmono a.1)
  · by_cases hu : u = t
    · subst hu
      simp only [Function.update_self, Option.some.injEq] at hR ⊢
      subst hR
      exact Nat.lt_succ_self _
    · simp only [Function.update_of_ne hu] at hR
      exact Nat.lt_of_lt_of_le (h.running u R hR) (hmono u)
  · by_cases hu : u = t
    · subst hu
      simp only [Function.update_self, Option.some.injEq, forall_eq'] at hi hR
      exact h.ended u i (by omega) fun R hR' => by rw [ht] at hR'; exact nomatch hR'
    · simp only [Function.update_of_ne hu] at hi hR
      exact h.ended u i hi hR

theorem sectionInv_ret {tr : List (PoolEvent Th S)} {P : Pool Th C S β (Locked (Th × ℕ) V)} {t : Th}
    {c : C} {i : ℕ} {b : β} (h : SectionInv L E G tr P) (ht : P.thread t = some ⟨c, i, .ret b⟩) :
    SectionInv L E G tr { P with thread := Function.update P.thread t none } := by
  have hph := h.phase t _ ht
  have hover : P.world.owner ≠ some (t, i) ∧ count L.isLock (t, i) tr = 1 ∧
      count L.isUnlock (t, i) tr = 1 := by
    cases hph with
    | waiting hp => exact hp.elim
    | inside hp => exact hp.elim
    | released _ ho hl hu => exact ⟨ho, hl, hu⟩
  refine ⟨fun u R hR => ?_, fun u j ho => ?_, h.head, h.contig, h.seen, fun u R hR => ?_,
    fun u j hj hR => ?_⟩
  · by_cases hu : u = t
    · subst hu
      simp only [Function.update_self] at hR
      exact nomatch hR
    · simp only [Function.update_of_ne hu] at hR
      exact h.phase u R hR
  · obtain ⟨R, hR, hj⟩ := h.owner u j ho
    have hu : u ≠ t := by
      rintro rfl
      rw [ht, Option.some.injEq] at hR
      subst hR hj
      exact hover.1 ho
    exact ⟨R, by simp only [Function.update_of_ne hu, hR], hj⟩
  · by_cases hu : u = t
    · subst hu
      simp only [Function.update_self] at hR
      exact nomatch hR
    · simp only [Function.update_of_ne hu] at hR
      exact h.running u R hR
  · by_cases hu : u = t
    · subst hu
      by_cases hji : j = i
      · subst hji
        exact hover.2
      · refine h.ended u j hj fun R hR' hRj => hji ?_
        rw [ht, Option.some.injEq] at hR'
        subst hR'
        exact hRj.symm
    · simp only [Function.update_of_ne hu] at hR
      exact h.ended u j hj hR

/-- The part of an operation's step that is the same whatever the operation does to the lock. -/
theorem sectionInv_op_frame {tr : List (PoolEvent Th S)} {P : Pool Th C S β (Locked (Th × ℕ) V)}
    {t : Th} {c : C} {i : ℕ} {o : S.Op} {k : S.Reply o → Prog S β} {r : S.Reply o}
    {w : Locked (Th × ℕ) V} (h : SectionInv L E G tr P)
    (ht : P.thread t = some ⟨c, i, .vis o k⟩)
    (hph : Phase L E (G c (t, i)) (⟨(t, i), o, r⟩ :: tr) w (t, i) (k r))
    (hown : w.owner = none ∨ w.owner = some (t, i))
    (hoth : ∀ a, a ≠ (t, i) → P.world.owner ≠ some a)
    (hcont : (t, i) ∈ tr.map PoolEvent.agent →
      (tr.map PoolEvent.agent).head? = some (t, i)) :
    SectionInv L E G (⟨(t, i), o, r⟩ :: tr)
      { P with thread := Function.update P.thread t (some ⟨c, i, k r⟩), world := w } := by
  have hne : ∀ u j, u ≠ t → (t, i) ≠ (u, j) := fun u j hu he => hu (congrArg Prod.fst he).symm
  refine ⟨fun u R hR => ?_, fun u j ho => ?_, fun a ha => ?_, ⟨h.contig, hcont⟩, fun a ha => ?_,
    fun u R hR => ?_, fun u j hj hR => ?_⟩
  · by_cases hu : u = t
    · subst hu
      simp only [Function.update_self, Option.some.injEq] at hR
      subst hR
      exact hph
    · simp only [Function.update_of_ne hu] at hR
      refine (h.phase u R hR).frame (hne u _ hu) (fun ho => ?_) fun ho => ?_
      · exact absurd ho (hoth _ (hne u _ hu).symm)
      · rcases hown with h0 | h0
        · rw [h0] at ho
          exact nomatch ho
        · rw [h0, Option.some.injEq] at ho
          exact absurd ho (hne u _ hu)
  · rcases hown with h0 | h0
    · rw [show w.owner = some (u, j) from ho] at h0
      exact nomatch h0
    · rw [show w.owner = some (u, j) from ho, Option.some.injEq] at h0
      cases h0
      exact ⟨⟨c, i, k r⟩, by simp only [Function.update_self], rfl⟩
  · rcases hown with h0 | h0
    · rw [show w.owner = some a from ha] at h0
      exact nomatch h0
    · rw [show w.owner = some a from ha] at h0
      rw [h0]
      rfl
  · rcases List.mem_cons.mp ha with rfl | ha
    · exact h.running t _ ht
    · exact h.seen a ha
  · by_cases hu : u = t
    · subst hu
      simp only [Function.update_self, Option.some.injEq] at hR
      subst hR
      exact h.running u ⟨c, i, .vis o k⟩ ht
    · simp only [Function.update_of_ne hu] at hR
      exact h.running u R hR
  · have hj' : (t, i) ≠ (u, j) := by
      rintro ⟨⟩
      exact hR _ (Function.update_self ..) rfl
    rw [count_cons_ne hj', count_cons_ne hj']
    refine h.ended u j hj fun R hR' hRj => ?_
    by_cases hu : u = t
    · subst hu
      rw [ht, Option.some.injEq] at hR'
      subst hR'
      exact hj' (by rw [← hRj])
    · exact hR R (by simp only [Function.update_of_ne hu, hR']) hRj

theorem sectionInv_op {tr : List (PoolEvent Th S)} {P : Pool Th C S β (Locked (Th × ℕ) V)} {t : Th}
    {c : C} {i : ℕ} {o : S.Op} {k : S.Reply o → Prog S β} {r : S.Reply o}
    {w : Locked (Th × ℕ) V} (h : SectionInv L E G tr P)
    (ht : P.thread t = some ⟨c, i, .vis o k⟩) (hE : lockEnv L E (t, i) P.world o r w) :
    SectionInv L E G (⟨(t, i), o, r⟩ :: tr)
      { P with thread := Function.update P.thread t (some ⟨c, i, k r⟩), world := w } := by
  unfold lockEnv at hE
  cases h.phase t _ ht with
  | waiting hp hs ho ha =>
    -- the first operation takes the lock, which was free
    have hlock : L.isLock o = true := hp.1
    have hunlock : L.isUnlock o = false := L.unlock_of_lock o hlock
    rw [if_pos hlock] at hE
    obtain ⟨hfree, rfl⟩ := hE
    refine sectionInv_op_frame h ht ?_ (.inr rfl) (fun a _ => by simp [hfree])
      (fun hm => absurd hm ha)
    refine .inside (hp.2 r) (hs o k rfl r _) rfl ?_ ?_
    · rw [count_cons_self, count_eq_zero ha, if_pos hlock]
    · rw [count_cons_self, count_eq_zero ha, if_neg (by simp [hunlock])]
  | inside hp hs ho hl hu =>
    have hlock : L.isLock o = false := hp.1
    have hoth : ∀ a, a ≠ (t, i) → P.world.owner ≠ some a := by
      intro a ha h'
      rw [ho, Option.some.injEq] at h'
      exact ha h'.symm
    rw [if_neg (by simp [hlock])] at hE
    have hrest := hp.2
    have hhead := h.head _ ho
    by_cases hunlock : L.isUnlock o = true
    · rw [if_pos hunlock] at hE hrest
      subst hE
      refine sectionInv_op_frame h ht ?_ (.inl rfl) hoth fun _ => hhead
      refine .released (hrest r) nofun ?_ ?_
      · rw [count_cons_self, hl, if_neg (by simp [hlock])]
      · rw [count_cons_self, hu, if_pos hunlock]
    · rw [if_neg hunlock] at hE hrest
      have hsolo : soloEnv L E (t, i) P.world.val o r w.val := by
        unfold soloEnv
        rw [if_neg (by simp [hlock, hunlock])]
        exact hE.1
      have how : w.owner = some (t, i) := by rw [hE.2, ho]
      refine sectionInv_op_frame h ht ?_ (.inr how) hoth fun _ => hhead
      refine .inside (hrest r) (hs.2 r _ hsolo) how ?_ ?_
      · rw [count_cons_self, hl, if_neg (by simp [hlock])]
      · rw [count_cons_self, hu, if_neg hunlock]
  | released hp => exact nomatch hp

/-- **The invariant holds of every reachable state.** -/
theorem sectionInv_reach (hp : ∀ c, (prog c).Protected L)
    (hs : ∀ c a o k, prog c = .vis o k → ∀ r v,
      (k r).wp (soloEnv L E a) (sectionGuard L (G c a)) (fun _ _ => True) v)
    {v : V} {tr : List (PoolEvent Th S)} {P : Pool Th C S β (Locked (Th × ℕ) V)}
    (h : Reach prog may (lockEnv L E) (start ⟨none, v⟩) tr P) : SectionInv L E G tr P := by
  refine reach_induction (sectionInv_start v) (fun tr P e P' hI hstep => ?_) h
  cases hstep with
  | call ht _ => exact sectionInv_call hp hs hI ht
  | op ht hE => exact sectionInv_op hI ht hE
  | ret ht => exact sectionInv_ret hI ht

/-! ### What the invariant gives -/

namespace SectionInv

variable {tr : List (PoolEvent Th S)} {P : Pool Th C S β (Locked (Th × ℕ) V)}

/-- An operation that is not the lock's is issued under the lock, and satisfies its guard. -/
theorem guarded (h : SectionInv L E G tr P) {t : Th} {c : C} {i : ℕ} {o : S.Op}
    {k : S.Reply o → Prog S β} (ht : P.thread t = some ⟨c, i, .vis o k⟩)
    (hl : L.isLock o = false) (hu : L.isUnlock o = false) :
    P.world.owner = some (t, i) ∧ G c (t, i) P.world.val o := by
  cases h.phase t _ ht with
  | waiting hp => exact absurd hp.1 (by simp [hl])
  | inside hp hs ho => exact ⟨ho, hs.1 hl hu⟩
  | released hp => exact nomatch hp

/-- Between two operations of one call there is no operation of another. -/
theorem between (h : SectionInv L E G tr P) {pre mid post : List (PoolEvent Th S)}
    {e e' : PoolEvent Th S} (htr : tr = pre ++ e :: mid ++ e' :: post) (he : e.agent = e'.agent) :
    ∀ m ∈ mid, m.agent = e.agent := by
  intro m hm
  have hc := h.contig
  rw [htr, List.map_append, List.map_append, List.map_cons, List.map_cons, ← he] at hc
  exact hc.between (List.mem_map_of_mem hm)

/-- The holder of the lock is in its section: it has taken the lock once and not released it. -/
theorem holder (h : SectionInv L E G tr P) {t : Th} {i : ℕ} (ho : P.world.owner = some (t, i)) :
    ∃ c p, P.thread t = some ⟨c, i, p⟩ ∧ p.Held L ∧ count L.isLock (t, i) tr = 1 ∧
      count L.isUnlock (t, i) tr = 0 := by
  obtain ⟨⟨c, j, p⟩, hR, rfl⟩ := h.owner t i ho
  refine ⟨c, p, hR, ?_⟩
  cases h.phase t _ hR with
  | waiting _ _ hn => exact absurd ho hn
  | inside hp _ _ hl hu => exact ⟨hp, hl, hu⟩
  | released _ hn => exact absurd ho hn

/-- A call that has returned has taken and released the lock exactly once. -/
theorem returned (h : SectionInv L E G tr P) {t : Th} {i : ℕ} (hi : i < P.started t)
    (hret : ∀ R, P.thread t = some R → R.id = i → R.prog.isRet = true) :
    count L.isLock (t, i) tr = 1 ∧ count L.isUnlock (t, i) tr = 1 := by
  by_cases hrun : ∃ R, P.thread t = some R ∧ R.id = i
  · obtain ⟨R, hR, rfl⟩ := hrun
    have hr := hret R hR rfl
    obtain ⟨b, hb⟩ := Prog.isRet_iff.mp hr
    cases h.phase t R hR with
    | waiting hp => rw [hb] at hp; exact hp.elim
    | inside hp => rw [hb] at hp; exact hp.elim
    | released _ _ hl hu => exact ⟨hl, hu⟩
  · exact h.ended t i hi fun R hR hi' => hrun ⟨R, hR, hi'⟩

end SectionInv

end Pool

end RackmonIoc.Program
