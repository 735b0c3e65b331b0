import Mathlib.Data.Int.Notation
import Mathlib.Data.Nat.Notation
import Mathlib.Logic.Function.Basic

/-!
# Programs over a signature of operations

A program is a tree: it returns, or it issues one operation and goes on with the reply.  `Prog S` is
the free monad of the signature `S`; an operation whose reply type is empty ends the program.

* `Prog.interp h p` runs `p` with every operation replaced by the program `h` gives for it;
* `Prog.tag c p` labels every operation of `p` with the label `c`, so that the operations of several
  programs run one after the other stay apart.
-/

namespace RackmonIoc.Program

/-- A signature: the operations and the type of the reply to each. -/
structure Sig where
  Op : Type
  Reply : Op → Type

/-- A program over the operations of `S` that returns an `α`. -/
inductive Prog (S : Sig) (α : Type) : Type where
  | ret (a : α)
  | vis (o : S.Op) (k : S.Reply o → Prog S α)

namespace Prog

variable {S R : Sig} {α β γ : Type}

def bind : Prog S α → (α → Prog S β) → Prog S β
  | ret a, f => f a
  | vis o k, f => vis o fun r => (k r).bind f

instance : Monad (Prog S) where
  pure := ret
  bind := bind

@[simp] theorem pure_eq (a : α) : (pure a : Prog S α) = ret a := rfl
@[simp] theorem bind_eq (p : Prog S α) (f : α → Prog S β) : p >>= f = p.bind f := rfl
@[simp] theorem ret_bind (a : α) (f : α → Prog S β) : (ret a).bind f = f a := rfl
@[simp] theorem vis_bind (o : S.Op) (k : S.Reply o → Prog S α) (f : α → Prog S β) :
    (vis o k).bind f = vis o fun r => (k r).bind f := rfl

theorem ite_bind (c : Prop) [Decidable c] (p q : Prog S α) (f : α → Prog S β) :
    (if c then p else q).bind f = if c then p.bind f else q.bind f := by
  split <;> rfl

theorem bind_assoc (p : Prog S α) (f : α → Prog S β) (g : β → Prog S γ) :
    (p.bind f).bind g = p.bind fun a => (f a).bind g := by
  induction p with
  | ret a => rfl
  | vis o k ih => simp only [vis_bind, ih]

/-- The program has returned. -/
def isRet : Prog S α → Bool
  | ret _ => true
  | vis _ _ => false

theorem isRet_iff {p : Prog S α} : p.isRet = true ↔ ∃ a, p = ret a := by
  cases p <;> simp [isRet]

/-! ### The operations of a program -/

/-- Every operation of the program, on every path, satisfies `ok`. -/
def Only (ok : S.Op → Prop) : Prog S α → Prop
  | ret _ => True
  | vis o k => ok o ∧ ∀ r, (k r).Only ok

@[simp] theorem only_ret {ok : S.Op → Prop} (a : α) : (ret a : Prog S α).Only ok := trivial

@[simp] theorem only_vis {ok : S.Op → Prop} {o : S.Op} {k : S.Reply o → Prog S α} :
    (vis o k).Only ok ↔ ok o ∧ ∀ r, (k r).Only ok := Iff.rfl

theorem only_bind {ok : S.Op → Prop} {p : Prog S α} {f : α → Prog S β} (hp : p.Only ok)
    (hf : ∀ a, (f a).Only ok) : (p.bind f).Only ok := by
  induction p with
  | ret a => exact hf a
  | vis o k ih => exact ⟨hp.1, fun r => ih r (hp.2 r)⟩

theorem only_ite {ok : S.Op → Prop} {c : Prop} [Decidable c] {p q : Prog S α} (hp : p.Only ok)
    (hq : q.Only ok) : (if c then p else q).Only ok := by
  split
  · exact hp
  · exact hq

theorem Only.mono {ok ok' : S.Op → Prop} (h : ∀ o, ok o → ok' o) {p : Prog S α} (hp : p.Only ok) :
    p.Only ok' := by
  induction p with
  | ret a => trivial
  | vis o k ih => exact ⟨h o hp.1, fun r => ih r (hp.2 r)⟩

/-! ### Handlers -/

/-- Replace every operation by the program of its handler. -/
def interp (h : (o : S.Op) → Prog R (S.Reply o)) : Prog S α → Prog R α
  | ret a => ret a
  | vis o k => (h o).bind fun r => (k r).interp h

@[simp] theorem interp_ret (h : (o : S.Op) → Prog R (S.Reply o)) (a : α) :
    (ret a : Prog S α).interp h = ret a := rfl

@[simp] theorem interp_vis (h : (o : S.Op) → Prog R (S.Reply o)) (o : S.Op)
    (k : S.Reply o → Prog S α) : (vis o k).interp h = (h o).bind fun r => (k r).interp h := rfl

end Prog

/-! ### Labels -/

/-- The signature `S` with every operation labelled by a `C`. -/
abbrev Sig.tag (C : Type) (S : Sig) : Sig where
  Op := C × S.Op
  Reply o := S.Reply o.2

namespace Prog

variable {S : Sig} {C α σ : Type}

/-- Label every operation with `c`. -/
def tag (c : C) : Prog S α → Prog (S.tag C) α
  | ret a => ret a
  | vis o k => vis (c, o) fun r => (k r).tag c

@[simp] theorem tag_ret (c : C) (a : α) : (ret a : Prog S α).tag c = ret a := rfl
@[simp] theorem tag_vis (c : C) (o : S.Op) (k : S.Reply o → Prog S α) :
    (vis o k).tag c = vis (c, o) fun r => (k r).tag c := rfl

/-- **A sequential run of calls.**  The calls of the list are made one after the other on the state
`σ`, and every operation is labelled with the call that issues it. -/
def session (prog : C → σ → Prog S σ) : List C → σ → Prog (S.tag C) σ
  | [], s => ret s
  | c :: cs, s => ((prog c s).tag c).bind (session prog cs)

@[simp] theorem session_nil (prog : C → σ → Prog S σ) (s : σ) : session prog [] s = ret s := rfl

@[simp] theorem session_cons (prog : C → σ → Prog S σ) (c : C) (cs : List C) (s : σ) :
    session prog (c :: cs) s = ((prog c s).tag c).bind (session prog cs) := rfl

theorem session_append (prog : C → σ → Prog S σ) (cs ds : List C) (s : σ) :
    session prog (cs ++ ds) s = (session prog cs s).bind (session prog ds) := by
  induction cs generalizing s with
  | nil => rfl
  | cons c cs ih =>
    simp only [List.cons_append, session_cons, bind_assoc]
    congr 1
    funext s'
    exact ih s'

end Prog

end RackmonIoc.Program
