import RackmonIoc.Program.Wp

/-!
# Sequential runs that compute a fold

Where every call executes as a function on an abstract state does, a run of calls executes as the fold of
that function; and calls that commute there may be reordered.

* `exec_session` is the refinement of a whole run;
* `Reordered R` are the lists that come from each other by exchanging neighbours that `R` relates, and
  `Reordered.foldl` says that they have one fold.
-/

namespace RackmonIoc.Program

namespace Prog

variable {S : Sig} {W C σ α : Type} {h : W → (o : S.Op) → Option (S.Reply o × W)}

/-- The labels play no part in an execution. -/
theorem exec_tag {c : C} {p : Prog S α} {w : W} :
    exec (fun w (o : (S.tag C).Op) => h w o.2) (p.tag c) w = exec h p w := by
  induction p generalizing w with
  | ret a => rfl
  | vis o k ih =>
    rw [tag_vis, exec_vis, exec_vis]
    simp only [ih]

/-- **Refinement of a run.**  `I` relates the states of the run and the world to abstract ones, on which the
call `c` is `f · c`. -/
theorem exec_session {prog : C → σ → Prog S σ} {I : σ → W → α → Prop} {f : α → C → α} {cs : List C}
    (step : ∀ c ∈ cs, ∀ s w a, I s w a →
      ∃ s' w', exec h (prog c s) w = some (s', w') ∧ I s' w' (f a c))
    {s : σ} {w : W} {a : α} (hI : I s w a) :
    ∃ s' w', exec (fun w (o : (S.tag C).Op) => h w o.2) (session prog cs s) w = some (s', w') ∧
      I s' w' (cs.foldl f a) := by
  induction cs generalizing s w a with
  | nil => exact ⟨s, w, rfl, hI⟩
  | cons c cs ih =>
    obtain ⟨s₁, w₁, hexec, hI₁⟩ := step c (by simp) s w a hI
    obtain ⟨s₂, w₂, hexec', hI₂⟩ := ih (fun d hd => step d (by simp [hd])) hI₁
    refine ⟨s₂, w₂, ?_, hI₂⟩
    rw [session_cons, exec_bind, exec_tag, hexec]
    exact hexec'

end Prog

/-! ### Reordering -/

variable {C α : Type}

/-- The lists come from each other by exchanging neighbours that `R` relates. -/
inductive Reordered (R : C → C → Prop) : List C → List C → Prop
  | refl (cs : List C) : Reordered R cs cs
  | swap {c d : C} (cs ds : List C) : R c d → Reordered R (cs ++ c :: d :: ds) (cs ++ d :: c :: ds)
  | trans {cs ds es : List C} : Reordered R cs ds → Reordered R ds es → Reordered R cs es

/-- A reordering makes the same calls. -/
theorem Reordered.perm {R : C → C → Prop} {cs ds : List C} (h : Reordered R cs ds) : cs.Perm ds := by
  induction h with
  | refl cs => exact .refl _
  | @swap c d cs ds _ => exact (List.Perm.swap d c ds).append_left cs
  | trans _ _ ih ih' => exact ih.trans ih'

/-- **Calls that commute may be reordered**, from every state that the calls of the list keep. -/
theorem Reordered.foldl {R : C → C → Prop} {f : α → C → α} {I : α → Prop} {cs ds : List C}
    (h : Reordered R cs ds) (keep : ∀ a, ∀ c ∈ cs, I a → I (f a c))
    (comm : ∀ a c d, I a → R c d → f (f a c) d = f (f a d) c) {a : α} (ha : I a) :
    cs.foldl f a = ds.foldl f a := by
  induction h with
  | refl cs => rfl
  | swap cs ds hR =>
    have hI : I (cs.foldl f a) := List.foldlRecOn cs f ha fun b hb c hc => keep b c (by simp [hc]) hb
    rw [List.foldl_append, List.foldl_append]
    simp only [List.foldl_cons]
    rw [comm _ _ _ hI hR]
  | trans h _ ih ih' =>
    exact (ih keep).trans (ih' fun a c hc => keep a c (h.perm.mem_iff.mpr hc))

end RackmonIoc.Program
