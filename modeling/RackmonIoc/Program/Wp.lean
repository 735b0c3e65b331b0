import RackmonIoc.Program.Basic

/-!
# Runs of a program in an environment, and weakest preconditions

An environment `E : Env S W` says which replies an operation may get in a world and what the world is
afterwards.  `Steps E p w q w'` is a run of `p` from `w` up to the residual program `q` in `w'`;
`Issues` and `Returns` are the two ways to look at it.

`wp E G Q p w` asks that every operation `p` issues from `w` satisfies the guard `G` and that every
result satisfies `Q`.  It is a recursion on the program, and `wp_iff` says that it is the statement
about runs, in both directions.
-/

namespace RackmonIoc.Program

/-- An environment: `E w o r w'` when the operation `o` issued in `w` may get the reply `r` and leave
the world `w'`. -/
abbrev Env (S : Sig) (W : Type) := W → (o : S.Op) → S.Reply o → W → Prop

namespace Prog

variable {S R : Sig} {W α β : Type}

/-- A run of `p` from `w`, up to the residual program `q` in `w'`. -/
inductive Steps (E : Env S W) : Prog S α → W → Prog S α → W → Prop
  | refl (p : Prog S α) (w : W) : Steps E p w p w
  | step {o : S.Op} {k : S.Reply o → Prog S α} {r : S.Reply o} {w w' w'' : W} {q : Prog S α} :
      E w o r w' → Steps E (k r) w' q w'' → Steps E (vis o k) w q w''

/-- Some run of `p` from `w` issues the operation `o` in the world `w'`. -/
def Issues (E : Env S W) (p : Prog S α) (w : W) (o : S.Op) (w' : W) : Prop :=
  ∃ k, Steps E p w (vis o k) w'

/-- Some run of `p` from `w` returns `a` in the world `w'`. -/
def Returns (E : Env S W) (p : Prog S α) (w : W) (a : α) (w' : W) : Prop :=
  Steps E p w (ret a) w'

theorem Steps.trans {E : Env S W} {p q r : Prog S α} {w w' w'' : W} (h : Steps E p w q w')
    (h' : Steps E q w' r w'') : Steps E p w r w'' := by
  induction h with
  | refl p w => exact h'
  | step he _ ih => exact .step he (ih h')

theorem Steps.bind {E : Env S W} {p q : Prog S α} {w w' : W} (h : Steps E p w q w')
    (f : α → Prog S β) : Steps E (p.bind f) w (q.bind f) w' := by
  induction h with
  | refl p w => exact .refl _ _
  | step he _ ih => exact .step he ih

theorem Steps.mono {E F : Env S W} (hEF : ∀ w o r w', E w o r w' → F w o r w') {p q : Prog S α}
    {w w' : W} (h : Steps E p w q w') : Steps F p w q w' := by
  induction h with
  | refl p w => exact .refl _ _
  | step he _ ih => exact .step (hEF _ _ _ _ he) ih

theorem returns_ret {E : Env S W} {a b : α} {w w' : W} :
    Returns E (ret a) w b w' ↔ b = a ∧ w' = w := by
  constructor
  · rintro ⟨⟩
    exact ⟨rfl, rfl⟩
  · rintro ⟨rfl, rfl⟩
    exact .refl _ _

theorem returns_vis {E : Env S W} {o : S.Op} {k : S.Reply o → Prog S α} {a : α} {w w' : W} :
    Returns E (vis o k) w a w' ↔ ∃ r w₁, E w o r w₁ ∧ Returns E (k r) w₁ a w' := by
  constructor
  · rintro (_ | ⟨he, hs⟩)
    exact ⟨_, _, he, hs⟩
  · rintro ⟨r, w₁, he, hs⟩
    exact .step he hs

/-- A run that returns from a sequence returns from its first part. -/
theorem returns_bind {E : Env S W} {p : Prog S α} {f : α → Prog S β} {w w' : W} {b : β} :
    Returns E (p.bind f) w b w' ↔ ∃ a w₁, Returns E p w a w₁ ∧ Returns E (f a) w₁ b w' := by
  induction p generalizing w with
  | ret a =>
    rw [ret_bind]
    refine ⟨fun h => ⟨a, w, returns_ret.mpr ⟨rfl, rfl⟩, h⟩, ?_⟩
    rintro ⟨a', w₁, h1, h2⟩
    obtain ⟨rfl, rfl⟩ := returns_ret.mp h1
    exact h2
  | vis o k ih =>
    simp only [vis_bind, returns_vis, ih]
    constructor
    · rintro ⟨r, w₁, he, a, w₂, h1, h2⟩
      exact ⟨a, w₂, ⟨r, w₁, he, h1⟩, h2⟩
    · rintro ⟨a, w₂, ⟨r, w₁, he, h1⟩, h2⟩
      exact ⟨r, w₁, he, a, w₂, h1, h2⟩

/-- A run that reaches an operation of the second part of a sequence. -/
theorem issues_bind_right {E : Env S W} {p : Prog S α} {f : α → Prog S β} {a : α} {w w₁ w' : W}
    {o : S.Op} (h : Returns E p w a w₁) (hi : Issues E (f a) w₁ o w') :
    Issues E (p.bind f) w o w' := by
  obtain ⟨k, hs⟩ := hi
  exact ⟨k, (h.bind f).trans hs⟩

theorem issues_bind_left {E : Env S W} {p : Prog S α} {f : α → Prog S β} {w w' : W} {o : S.Op}
    (hi : Issues E p w o w') : Issues E (p.bind f) w o w' := by
  obtain ⟨k, hs⟩ := hi
  exact ⟨_, hs.bind f⟩

/-! ### Weakest preconditions -/

/-- **Weakest precondition.**  Every operation `p` issues from `w` satisfies `G`, and every result
satisfies `Q`. -/
def wp (E : Env S W) (G : W → S.Op → Prop) (Q : α → W → Prop) : Prog S α → W → Prop
  | ret a, w => Q a w
  | vis o k, w => G w o ∧ ∀ r w', E w o r w' → wp E G Q (k r) w'

section Rules

variable {E : Env S W} {G : W → S.Op → Prop}

@[simp] theorem wp_ret {Q : α → W → Prop} {a : α} {w : W} : wp E G Q (ret a) w ↔ Q a w := Iff.rfl

theorem wp_vis {Q : α → W → Prop} {o : S.Op} {k : S.Reply o → Prog S α} {w : W} :
    wp E G Q (vis o k) w ↔ G w o ∧ ∀ r w', E w o r w' → wp E G Q (k r) w' := Iff.rfl

theorem wp_bind {Q : β → W → Prop} {p : Prog S α} {f : α → Prog S β} {w : W} :
    wp E G Q (p.bind f) w ↔ wp E G (fun a w' => wp E G Q (f a) w') p w := by
  induction p generalizing w with
  | ret a => rfl
  | vis o k ih => simp only [vis_bind, wp_vis, ih]

theorem wp_ite {Q : α → W → Prop} {c : Prop} [Decidable c] {p q : Prog S α} {w : W} :
    wp E G Q (if c then p else q) w ↔ (c → wp E G Q p w) ∧ (¬ c → wp E G Q q w) := by
  split <;> simp_all

theorem wp_mono {G' : W → S.Op → Prop} {Q Q' : α → W → Prop} {p : Prog S α} {w : W}
    (hG : ∀ w o, G w o → G' w o) (hQ : ∀ a w, Q a w → Q' a w) (h : wp E G Q p w) :
    wp E G' Q' p w := by
  induction p generalizing w with
  | ret a => exact hQ _ _ h
  | vis o k ih => exact ⟨hG _ _ h.1, fun r w' he => ih r (h.2 r w' he)⟩

theorem wp_conseq {Q Q' : α → W → Prop} {p : Prog S α} {w : W} (h : wp E G Q p w)
    (hQ : ∀ a w, Q a w → Q' a w) : wp E G Q' p w :=
  wp_mono (fun _ _ h => h) hQ h

theorem wp_and {Q Q' : α → W → Prop} {p : Prog S α} {w : W} (h : wp E G Q p w)
    (h' : wp E (fun _ _ => True) Q' p w) : wp E G (fun a w' => Q a w' ∧ Q' a w') p w := by
  induction p generalizing w with
  | ret a => exact ⟨h, h'⟩
  | vis o k ih => exact ⟨h.1, fun r w' he => ih r (h.2 r w' he) (h'.2 r w' he)⟩

theorem wp_true {p : Prog S α} {w : W} : wp E (fun _ _ => True) (fun _ _ => True) p w := by
  induction p generalizing w with
  | ret a => trivial
  | vis o k ih => exact ⟨trivial, fun r w' _ => ih r⟩

/-- A smaller environment has fewer runs. -/
theorem wp_env {F : Env S W} (hEF : ∀ w o r w', F w o r w' → E w o r w') {Q : α → W → Prop}
    {p : Prog S α} {w : W} (h : wp E G Q p w) : wp F G Q p w := by
  induction p generalizing w with
  | ret a => exact h
  | vis o k ih => exact ⟨h.1, fun r w' he => ih r (h.2 r w' (hEF _ _ _ _ he))⟩

/-- An invariant that every operation of the program keeps, and that gives their guards. -/
theorem wp_only {ok : S.Op → Prop} {I : W → Prop}
    (hI : ∀ w o, ok o → I w → G w o ∧ ∀ r w', E w o r w' → I w') {p : Prog S α} (hp : p.Only ok)
    {w : W} (h : I w) : wp E G (fun _ w' => I w') p w := by
  induction p generalizing w with
  | ret a => exact h
  | vis o k ih => exact ⟨(hI w o hp.1 h).1, fun r w' he => ih r (hp.2 r) ((hI w o hp.1 h).2 r w' he)⟩

/-- An invariant that every operation keeps. -/
theorem wp_stable {I : W → Prop} (hI : ∀ w o r w', E w o r w' → I w → I w') {p : Prog S α} {w : W}
    (h : I w) : wp E (fun _ _ => True) (fun _ w' => I w') p w := by
  induction p generalizing w with
  | ret a => exact h
  | vis o k ih => exact ⟨trivial, fun r w' he => ih r (hI w o r w' he h)⟩

end Rules

/-! ### The rules are about runs -/

theorem wp_steps {E : Env S W} {G : W → S.Op → Prop} {Q : α → W → Prop} {p q : Prog S α} {w w' : W}
    (h : wp E G Q p w) (hs : Steps E p w q w') : wp E G Q q w' := by
  induction hs with
  | refl p w => exact h
  | step he _ ih => exact ih (h.2 _ _ he)

theorem wp_issues {E : Env S W} {G : W → S.Op → Prop} {Q : α → W → Prop} {p : Prog S α} {w w' : W}
    {o : S.Op} (h : wp E G Q p w) (hi : Issues E p w o w') : G w' o := by
  obtain ⟨k, hs⟩ := hi
  exact (wp_steps h hs).1

theorem wp_returns {E : Env S W} {G : W → S.Op → Prop} {Q : α → W → Prop} {p : Prog S α} {w w' : W}
    {a : α} (h : wp E G Q p w) (hr : Returns E p w a w') : Q a w' :=
  wp_steps h hr

/-- **Weakest preconditions are the statements about runs.** -/
theorem wp_iff {E : Env S W} {G : W → S.Op → Prop} {Q : α → W → Prop} {p : Prog S α} {w : W} :
    wp E G Q p w ↔ (∀ o w', Issues E p w o w' → G w' o) ∧ ∀ a w', Returns E p w a w' → Q a w' := by
  refine ⟨fun h => ⟨fun _ _ hi => wp_issues h hi, fun _ _ hr => wp_returns h hr⟩, ?_⟩
  rintro ⟨hI, hR⟩
  induction p generalizing w with
  | ret a => exact hR a w (.refl _ _)
  | vis o k ih =>
    refine ⟨hI o w ⟨k, .refl _ _⟩, fun r w₁ he => ih r ?_ ?_⟩
    · rintro o' w' ⟨k', hs⟩
      exact hI o' w' ⟨k', .step he hs⟩
    · exact fun a w' hr => hR a w' (.step he hr)

/-- **Progress.**  A program whose every operation can be answered has a run that returns. -/
theorem returns_of_wp {E : Env S W} {Q : α → W → Prop} {p : Prog S α} {w : W}
    (h : wp E (fun w o => ∃ r w', E w o r w') Q p w) : ∃ a w', Returns E p w a w' ∧ Q a w' := by
  induction p generalizing w with
  | ret a => exact ⟨a, w, .refl _ _, h⟩
  | vis o k ih =>
    obtain ⟨r, w₁, he⟩ := h.1
    obtain ⟨a, w', hr, hQ⟩ := ih r (h.2 r w₁ he)
    exact ⟨a, w', .step he hr, hQ⟩

/-! ### Handlers and labels -/

/-- A guard and a postcondition are two statements. -/
theorem wp_iff_returns {E : Env S W} {G : W → S.Op → Prop} {Q : α → W → Prop} {p : Prog S α}
    {w : W} :
    wp E G Q p w ↔ wp E G (fun _ _ => True) p w ∧ ∀ a w', Returns E p w a w' → Q a w' := by
  constructor
  · intro h
    exact ⟨wp_conseq h fun _ _ _ => trivial, fun _ _ hr => wp_returns h hr⟩
  · rintro ⟨hG, hQ⟩
    exact wp_iff.mpr ⟨fun _ _ hi => wp_issues hG hi, hQ⟩

theorem wp_interp {E : Env R W} {G : W → R.Op → Prop} {h : (o : S.Op) → Prog R (S.Reply o)}
    {Q : α → W → Prop} {o : S.Op} {k : S.Reply o → Prog S α} {w : W} :
    wp E G Q ((vis o k).interp h) w ↔
      wp E G (fun r w' => wp E G Q ((k r).interp h) w') (h o) w := by
  rw [interp_vis, wp_bind]

/-- The environment that a handler makes for the operations it implements. -/
def Env.through (E : Env R W) (h : (o : S.Op) → Prog R (S.Reply o)) : Env S W :=
  fun w o r w' => Returns E (h o) w r w'

theorem returns_interp {E : Env R W} {h : (o : S.Op) → Prog R (S.Reply o)} {p : Prog S α} {a : α}
    {w w' : W} : Returns E (p.interp h) w a w' ↔ Returns (Env.through E h) p w a w' := by
  induction p generalizing w with
  | ret b => rw [interp_ret, returns_ret, returns_ret]
  | vis o k ih =>
    rw [interp_vis, returns_bind, returns_vis]
    simp only [ih]
    rfl

/-- **Two levels of one program.**  What a program does through a handler is what it does over the
operations the handler implements, each with the guard its own program asks for. -/
theorem wp_through {E : Env R W} {G : W → R.Op → Prop} {h : (o : S.Op) → Prog R (S.Reply o)}
    {Q : α → W → Prop} {p : Prog S α} {w : W} :
    wp E G Q (p.interp h) w ↔
      wp (Env.through E h) (fun w o => wp E G (fun _ _ => True) (h o) w) Q p w := by
  induction p generalizing w with
  | ret a => rfl
  | vis o k ih =>
    rw [wp_interp, wp_iff_returns, wp_vis]
    simp only [ih]
    rfl

/-- A program issues the operations of the handlers it reaches. -/
theorem issues_interp {E : Env R W} {h : (o : S.Op) → Prog R (S.Reply o)} {p : Prog S α}
    {w w₁ w' : W} {o : S.Op} {o' : R.Op} (hp : Issues (Env.through E h) p w o w₁)
    (ho : Issues E (h o) w₁ o' w') : Issues E (p.interp h) w o' w' := by
  obtain ⟨k, hs⟩ := hp
  generalize hq : (vis o k : Prog S α) = q at hs
  induction hs with
  | refl p w =>
    rw [← hq, interp_vis]
    exact issues_bind_left ho
  | step he _ ih =>
    rw [interp_vis]
    exact issues_bind_right he (ih ho hq)

/-- The postcondition alone, at the upper of the two levels. -/
theorem wp_through_post {E : Env R W} {h : (o : S.Op) → Prog R (S.Reply o)} {Q : α → W → Prop}
    {p : Prog S α} {w : W} (hp : wp (Env.through E h) (fun _ _ => True) Q p w) :
    wp E (fun _ _ => True) Q (p.interp h) w :=
  wp_through.mpr (wp_mono (fun _ _ _ => wp_true) (fun _ _ hQ => hQ) hp)

variable {C σ : Type}

/-- The environment of the labelled operations: the label plays no part. -/
def Env.tag (E : Env S W) : Env (S.tag C) W := fun w o r w' => E w o.2 r w'

theorem wp_tag {E : Env S W} {G : W → (S.tag C).Op → Prop} {Q : α → W → Prop} {c : C}
    {p : Prog S α} {w : W} :
    wp (Env.tag E) G Q (p.tag c) w ↔ wp E (fun w o => G w (c, o)) Q p w := by
  induction p generalizing w with
  | ret a => rfl
  | vis o k ih =>
    simp only [tag_vis, wp_vis, ih]
    rfl

theorem returns_tag {E : Env S W} {c : C} {p : Prog S α} {a : α} {w w' : W} :
    Returns (Env.tag E) (p.tag c) w a w' ↔ Returns E p w a w' := by
  induction p generalizing w with
  | ret b => simp [returns_ret]
  | vis o k ih =>
    simp only [tag_vis, returns_vis, ih]
    rfl

theorem issues_tag {E : Env S W} {c : C} {p : Prog S α} {o : S.Op} {w w' : W}
    (h : Issues E p w o w') : Issues (Env.tag E) (p.tag c) w (c, o) w' := by
  obtain ⟨k, hs⟩ := h
  generalize hq : (vis o k : Prog S α) = q at hs
  induction hs with
  | refl p w =>
    rw [← hq]
    exact ⟨_, .refl _ _⟩
  | step he _ ih =>
    obtain ⟨k', hs'⟩ := ih hq
    exact ⟨k', .step he hs'⟩

/-- In a run of calls, a call that is reached issues its operations. -/
theorem issues_session {E : Env S W} {prog : C → σ → Prog S σ} {pre post : List C} {c : C}
    {s s₁ : σ} {w w₁ w' : W} {o : S.Op} (hpre : Returns (Env.tag E) (session prog pre s) w s₁ w₁)
    (hc : Issues E (prog c s₁) w₁ o w') :
    Issues (Env.tag E) (session prog (pre ++ c :: post) s) w (c, o) w' := by
  rw [session_append]
  exact issues_bind_right hpre (issues_bind_left (issues_tag hc))

/-- **Invariant rule for sequential runs**, with the calls made so far: what every call takes from its
prefix to the next one, under its own guard, holds along every run of calls. -/
theorem wp_session_prefix {E : Env S W} {G : W → (S.tag C).Op → Prop} {prog : C → σ → Prog S σ}
    {I : List C → σ → W → Prop} {cs : List C} {s : σ} {w : W}
    (step : ∀ pre c post, cs = pre ++ c :: post → ∀ s w, I pre s w →
      wp E (fun w o => G w (c, o)) (I (pre ++ [c])) (prog c s) w) (h : I [] s w) :
    wp (Env.tag E) G (I cs) (session prog cs s) w := by
  have hrest : ∀ post pre s w, cs = pre ++ post → I pre s w →
      wp (Env.tag E) G (I cs) (session prog post s) w := by
    intro post
    induction post with
    | nil =>
      intro pre s w hcs hI
      rw [hcs, List.append_nil]
      exact hI
    | cons c post ih =>
      intro pre s w hcs hI
      rw [session_cons, wp_bind, wp_tag]
      refine wp_conseq (step pre c post hcs s w hI) fun s' w' hI' => ?_
      exact ih (pre ++ [c]) s' w' (by rw [hcs, List.append_assoc]; rfl) hI'
  exact hrest cs [] s w rfl h

/-- The rule for an invariant that does not look at the calls made so far. -/
theorem wp_session {E : Env S W} {G : W → (S.tag C).Op → Prop} {prog : C → σ → Prog S σ}
    {I : σ → W → Prop} {cs : List C} {s : σ} {w : W}
    (step : ∀ c ∈ cs, ∀ s w, I s w → wp E (fun w o => G w (c, o)) I (prog c s) w) (h : I s w) :
    wp (Env.tag E) G I (session prog cs s) w := by
  have hstep : ∀ pre c post, cs = pre ++ c :: post → ∀ s w, I s w →
      wp E (fun w o => G w (c, o)) I (prog c s) w := by
    intro pre c post hcs s w hI
    exact step c (by rw [hcs]; simp) s w hI
  exact wp_session_prefix (I := fun _ => I) hstep h

/-! ### Executions -/

/-- Run `p` against a handler that answers every operation, or gives up with `none`. -/
def exec (h : W → (o : S.Op) → Option (S.Reply o × W)) : Prog S α → W → Option (α × W)
  | ret a, w => some (a, w)
  | vis o k, w =>
    match h w o with
    | some (r, w') => exec h (k r) w'
    | none => none

section Exec

variable {h : W → (o : S.Op) → Option (S.Reply o × W)}

@[simp] theorem exec_ret (a : α) (w : W) : exec h (ret a) w = some (a, w) := rfl

theorem exec_vis {o : S.Op} {k : S.Reply o → Prog S α} {w : W} :
    exec h (vis o k) w = (h w o).bind fun x => exec h (k x.1) x.2 := by
  rw [exec]
  cases h w o <;> rfl

theorem exec_bind {p : Prog S α} {f : α → Prog S β} {w : W} :
    exec h (p.bind f) w = (exec h p w).bind fun x => exec h (f x.1) x.2 := by
  induction p generalizing w with
  | ret a => rfl
  | vis o k ih =>
    simp only [vis_bind, exec_vis, ih]
    cases h w o <;> rfl

/-- A program executes through a handler as it does over the operations the handler implements. -/
theorem exec_interp {h : W → (o : R.Op) → Option (R.Reply o × W)}
    {e : (o : S.Op) → Prog R (S.Reply o)} {p : Prog S α} {w : W} :
    exec h (p.interp e) w = exec (fun w o => exec h (e o) w) p w := by
  induction p generalizing w with
  | ret a => rfl
  | vis o k ih =>
    rw [interp_vis, exec_bind, exec_vis]
    simp only [ih]

/-- An execution is a run of every environment that allows the handler's answers. -/
theorem returns_of_exec {E : Env S W}
    (hE : ∀ w o r w', h w o = some (r, w') → E w o r w') {p : Prog S α} {a : α} {w w' : W}
    (he : exec h p w = some (a, w')) : Returns E p w a w' := by
  induction p generalizing w with
  | ret b =>
    simp only [exec_ret, Option.some.injEq, Prod.mk.injEq] at he
    rw [← he.1, ← he.2]
    exact .refl _ _
  | vis o k ih =>
    rw [exec_vis] at he
    obtain ⟨⟨r, w₁⟩, h1, h2⟩ := Option.bind_eq_some_iff.mp he
    exact .step (hE _ _ _ _ h1) (ih r h2)

end Exec

end Prog

end RackmonIoc.Program
