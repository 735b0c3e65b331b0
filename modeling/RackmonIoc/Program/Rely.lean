import RackmonIoc.Program.Pool

/-!
# Rely and guarantee

What a call may assume of the other threads, its rely, is a relation between worlds.  `relyEnv R E` is
the environment `E` in which the others may act, within `R`, before every operation; a weakest
precondition there holds up under the steps of the others.

* `reach_rely` is the rule for pools: where every call keeps its guards under its rely, and every step
  of another thread is within the rely, the guards hold in every reachable state;
* `reach_steps` goes the other way: a thread can always run alone for a while.
-/

namespace RackmonIoc.Program

namespace Prog

variable {S : Sig} {W α : Type} {R : W → W → Prop} {E : Env S W} {G : W → S.Op → Prop}

/-- The environment in which the others may act before every operation. -/
def relyEnv (R : W → W → Prop) (E : Env S W) : Env S W :=
  fun w o r w' => ∃ w₁, R w w₁ ∧ E w₁ o r w'

/-- The guard, whatever the others do first. -/
def relyGuard (R : W → W → Prop) (G : W → S.Op → Prop) : W → S.Op → Prop :=
  fun w o => ∀ w₁, R w w₁ → G w₁ o

/-- A weakest precondition under the rely holds up when the others act. -/
theorem wp_rely_stable (htrans : ∀ w w₁ w₂, R w w₁ → R w₁ w₂ → R w w₂) {p : Prog S α} {w w' : W}
    (h : wp (relyEnv R E) (relyGuard R G) (fun _ _ => True) p w) (hR : R w w') :
    wp (relyEnv R E) (relyGuard R G) (fun _ _ => True) p w' := by
  cases p with
  | ret a => trivial
  | vis o k =>
    refine ⟨fun w₁ h₁ => h.1 w₁ (htrans w w' w₁ hR h₁), ?_⟩
    rintro r w'' ⟨w₁, h₁, he⟩
    exact h.2 r w'' ⟨w₁, htrans w w' w₁ hR h₁, he⟩

end Prog

namespace Pool

variable {Th C β W : Type} {S : Sig} [DecidableEq Th] {prog : C → Prog S β} {may : Th → C → Prop}
  {E : Env S W} {G : C → W → S.Op → Prop} {R : C → W → W → Prop} {Own : C → S.Op → Prop}

/-- What is kept of a call in progress. -/
structure CallInv (may : Th → C → Prop) (E : Env S W) (G : C → W → S.Op → Prop)
    (R : C → W → W → Prop) (Own : C → S.Op → Prop) (t : Th) (c : C) (p : Prog S β) (w : W) :
    Prop where
  may : may t c
  only : p.Only (Own c)
  wp : p.wp (Prog.relyEnv (R c) E) (Prog.relyGuard (R c) (G c)) (fun _ _ => True) w

/-- **Rely/guarantee rule.**  The calls keep their guards under their rely, from any world, and the
operations of one thread are within the rely of the calls of any other: then no operation is ever due in
a world in which its guard fails. -/
theorem reach_rely {w₀ : W} (hrefl : ∀ c w, R c w w)
    (htrans : ∀ c w w₁ w₂, R c w w₁ → R c w₁ w₂ → R c w w₂)
    (honly : ∀ t c, may t c → (prog c).Only (Own c))
    (hcall : ∀ t c, may t c → ∀ w,
      (prog c).wp (Prog.relyEnv (R c) E) (Prog.relyGuard (R c) (G c)) (fun _ _ => True) w)
    (hrely : ∀ t t' c c' o r w w', t ≠ t' → may t c → may t' c' → Own c' o → E w o r w' → R c w w')
    {tr : List (PoolEvent Th S)} {P : Pool Th C S β W}
    (h : Reach prog may (fun _ => E) (start w₀) tr P) {t : Th} {c : C} {i : ℕ} {o : S.Op}
    {k : S.Reply o → Prog S β} (ht : P.thread t = some ⟨c, i, .vis o k⟩) : G c P.world o := by
  have hinv : ∀ t c i p, P.thread t = some ⟨c, i, p⟩ → CallInv may E G R Own t c p P.world := by
    clear ht
    induction h with
    | init => exact fun t c i p ht => nomatch ht
    | step hr hs ih =>
      intro t c i p ht
      cases hs with
      | @call t' c' hidle hmay =>
        by_cases htt : t = t'
        · subst htt
          simp only [Function.update_self, Option.some.injEq, Running.mk.injEq] at ht
          obtain ⟨rfl, rfl, rfl⟩ := ht
          exact ⟨hmay, honly t _ hmay, hcall t _ hmay _⟩
        · simp only [Function.update_of_ne htt] at ht
          exact ih t c i p ht
      | @op t' c' i' o' k' r' w' hrun he =>
        have hown := ih t' c' i' _ hrun
        by_cases htt : t = t'
        · subst htt
          simp only [Function.update_self, Option.some.injEq, Running.mk.injEq] at ht
          obtain ⟨rfl, rfl, rfl⟩ := ht
          exact ⟨hown.may, hown.only.2 r', hown.wp.2 r' w' ⟨_, hrefl _ _, he⟩⟩
        · simp only [Function.update_of_ne htt] at ht
          have hme := ih t c i p ht
          have hR := hrely t t' c c' o' r' _ w' htt hme.may hown.may hown.only.1 he
          exact ⟨hme.may, hme.only, Prog.wp_rely_stable (htrans c) hme.wp hR⟩
      | @ret t' c' i' b hrun =>
        by_cases htt : t = t'
        · subst htt
          simp only [Function.update_self] at ht
          exact nomatch ht
        · simp only [Function.update_of_ne htt] at ht
          exact ih t c i p ht
  exact (hinv t c i _ ht).wp.1 _ (hrefl c _)

/-- **A thread can run alone**: what its call can do from the world of the pool, the pool can do. -/
theorem reach_steps {w₀ : W} {tr : List (PoolEvent Th S)} {P : Pool Th C S β W}
    (h : Reach prog may (fun _ => E) (start w₀) tr P) {t : Th} {c : C} {i : ℕ} {p q : Prog S β}
    {w' : W} (ht : P.thread t = some ⟨c, i, p⟩) (hs : Prog.Steps E p P.world q w') :
    ∃ tr' P', Reach prog may (fun _ => E) (start w₀) tr' P' ∧ P'.thread t = some ⟨c, i, q⟩ ∧
      P'.world = w' ∧ ∀ t' ≠ t, P'.thread t' = P.thread t' := by
  generalize hw : P.world = w at hs
  induction hs generalizing tr P with
  | refl p w => exact ⟨tr, P, h, ht, hw, fun _ _ => rfl⟩
  | step he _ ih =>
    subst hw
    obtain ⟨tr', P', hr, ht', hw', hother⟩ :=
      ih (h.step (.op ht he)) (by simp) rfl
    refine ⟨tr', P', hr, ht', hw', fun t' hne => ?_⟩
    rw [hother t' hne]
    exact Function.update_of_ne hne _ _

/-- An idle thread can start a call and run alone. -/
theorem reach_call {w₀ : W} {tr : List (PoolEvent Th S)} {P : Pool Th C S β W}
    (h : Reach prog may (fun _ => E) (start w₀) tr P) {t : Th} {c : C} (ht : P.thread t = none)
    (hmay : may t c) {q : Prog S β} {w' : W} (hs : Prog.Steps E (prog c) P.world q w') :
    ∃ tr' P' i, Reach prog may (fun _ => E) (start w₀) tr' P' ∧ P'.thread t = some ⟨c, i, q⟩ ∧
      P'.world = w' ∧ ∀ t' ≠ t, P'.thread t' = P.thread t' := by
  have hcall := h.step (.call ht hmay)
  obtain ⟨tr', P', hr, ht', hw', hother⟩ :=
    reach_steps hcall (t := t) (c := c) (i := P.started t) (p := prog c) (by simp) hs
  refine ⟨tr', P', _, hr, ht', hw', fun t' hne => ?_⟩
  rw [hother t' hne]
  exact Function.update_of_ne hne _ _

end Pool

end RackmonIoc.Program
