import RackmonIoc.Program.Wp

/-!
# Threads

Any number of threads, each making calls one after the other; the steps are the single operations of
the calls, in any interleaving.  A call is named by its thread and its number, `t` and `i` in
`(t, i)`, so that two calls of one thread are two agents.

* `Pool.Step` is one step of one thread, and `Pool.Reach` the runs: the trace of the operations made so
  far, newest first, and the state of the pool;
* `Pool.reach_induction` is the invariant rule.
-/

namespace RackmonIoc.Program

/-- A call in progress: the call, its number and what is left of its program. -/
structure Running (C : Type) (S : Sig) (β : Type) where
  call : C
  id : ℕ
  prog : Prog S β

/-- The operation `op` of the call `agent`, with its reply. -/
structure PoolEvent (Th : Type) (S : Sig) where
  agent : Th × ℕ
  op : S.Op
  reply : S.Reply op

/-- The state of the threads (`none` for an idle one), the number of calls each has started, and the
world they share. -/
structure Pool (Th C : Type) (S : Sig) (β W : Type) where
  thread : Th → Option (Running C S β)
  started : Th → ℕ
  world : W

namespace Pool

variable {Th C β W : Type} {S : Sig} [DecidableEq Th]

/-- All threads idle. -/
def start (w : W) : Pool Th C S β W := ⟨fun _ => none, fun _ => 0, w⟩

/-- One step: an idle thread starts a call it may make, a thread makes the next operation of its
call, or a call that has returned is over. -/
inductive Step (prog : C → Prog S β) (may : Th → C → Prop) (E : Th × ℕ → Env S W) :
    Pool Th C S β W → Option (PoolEvent Th S) → Pool Th C S β W → Prop
  | call {P : Pool Th C S β W} {t : Th} {c : C} : P.thread t = none → may t c →
      Step prog may E P none
        { P with
          thread := Function.update P.thread t (some ⟨c, P.started t, prog c⟩)
          started := Function.update P.started t (P.started t + 1) }
  | op {P : Pool Th C S β W} {t : Th} {c : C} {i : ℕ} {o : S.Op} {k : S.Reply o → Prog S β}
      {r : S.Reply o} {w : W} : P.thread t = some ⟨c, i, .vis o k⟩ → E (t, i) P.world o r w →
      Step prog may E P (some ⟨(t, i), o, r⟩)
        { P with thread := Function.update P.thread t (some ⟨c, i, k r⟩), world := w }
  | ret {P : Pool Th C S β W} {t : Th} {c : C} {i : ℕ} {b : β} :
      P.thread t = some ⟨c, i, .ret b⟩ →
      Step prog may E P none { P with thread := Function.update P.thread t none }

/-- The runs from `P₀`: the trace, newest first, and the state reached. -/
inductive Reach (prog : C → Prog S β) (may : Th → C → Prop) (E : Th × ℕ → Env S W)
    (P₀ : Pool Th C S β W) : List (PoolEvent Th S) → Pool Th C S β W → Prop
  | init : Reach prog may E P₀ [] P₀
  | step {tr : List (PoolEvent Th S)} {P P' : Pool Th C S β W} {e : Option (PoolEvent Th S)} :
      Reach prog may E P₀ tr P → Step prog may E P e P' →
      Reach prog may E P₀ (e.toList ++ tr) P'

variable {prog : C → Prog S β} {may : Th → C → Prop} {E : Th × ℕ → Env S W}
  {P₀ : Pool Th C S β W}

/-- **Invariant rule.** -/
theorem reach_induction {I : List (PoolEvent Th S) → Pool Th C S β W → Prop} (init : I [] P₀)
    (step : ∀ tr P e P', I tr P → Step prog may E P e P' → I (e.toList ++ tr) P')
    {tr : List (PoolEvent Th S)} {P : Pool Th C S β W} (h : Reach prog may E P₀ tr P) : I tr P := by
  induction h with
  | init => exact init
  | step _ hs ih => exact step _ _ _ _ ih hs

theorem Reach.trans {tr : List (PoolEvent Th S)} {P : Pool Th C S β W}
    (h : Reach prog may E P₀ tr P) {tr' : List (PoolEvent Th S)} {P' : Pool Th C S β W}
    (h' : Reach prog may E P tr' P') : Reach prog may E P₀ (tr' ++ tr) P' := by
  induction h' with
  | init => exact h
  | step _ hs ih =>
    rw [List.append_assoc]
    exact .step ih hs

end Pool

end RackmonIoc.Program
