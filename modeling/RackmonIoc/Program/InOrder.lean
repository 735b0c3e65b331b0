import Mathlib.Data.List.Basic

/-!
# Requests handled in order

A list of requests is handled one after the other, each by an exchange; the handling stops at the first
exchange that is not complete.  `For f x` says that `x` is an exchange for the request `f`.

* `InOrder.append` and `InOrder.append_of_stop` put two lists of requests one after the other;
* `InOrder.ok_iff` says when everything went well, `InOrder.shape` what a handling looks like.
-/

namespace RackmonIoc.Program

variable {φ χ : Type}

/-- The requests `fs` have been handled in order by the exchanges `xs`; `ok` says that none of them
was incomplete. -/
inductive InOrder (For : φ → χ → Prop) (Complete : χ → Prop) : List φ → List χ → Bool → Prop
  | nil : InOrder For Complete [] [] true
  | stop {f : φ} {fs : List φ} {x : χ} :
      For f x → ¬ Complete x → InOrder For Complete (f :: fs) [x] false
  | cons {f : φ} {fs : List φ} {x : χ} {xs : List χ} {ok : Bool} :
      For f x → Complete x → InOrder For Complete fs xs ok →
      InOrder For Complete (f :: fs) (x :: xs) ok

namespace InOrder

variable {For : φ → χ → Prop} {Complete : χ → Prop} {fs gs : List φ} {xs ys : List χ} {ok : Bool}

theorem one {f : φ} {x : χ} (hf : For f x) (hx : Complete x) :
    InOrder For Complete [f] [x] true :=
  .cons hf hx .nil

theorem append (h : InOrder For Complete fs xs true) (h' : InOrder For Complete gs ys ok) :
    InOrder For Complete (fs ++ gs) (xs ++ ys) ok := by
  generalize hb : true = b at h
  induction h with
  | nil => exact h'
  | stop hf hx => exact nomatch hb
  | cons hf hx _ ih => exact .cons hf hx (ih hb)

theorem append_of_stop (h : InOrder For Complete fs xs false) (gs : List φ) :
    InOrder For Complete (fs ++ gs) xs false := by
  generalize hb : false = b at h
  induction h with
  | nil => exact nomatch hb
  | stop hf hx => exact .stop hf hx
  | cons hf hx _ ih => exact .cons hf hx (ih hb)

/-- The exchange of a request that is made for it. -/
theorem exists_for (h : InOrder For Complete fs xs ok) : ∀ x ∈ xs, ∃ f ∈ fs, For f x := by
  induction h with
  | nil => exact fun x hx => nomatch hx
  | stop hf hx =>
    intro x hmem
    obtain rfl := List.mem_singleton.mp hmem
    exact ⟨_, List.mem_cons_self, hf⟩
  | cons hf hx _ ih =>
    intro x hmem
    rcases List.mem_cons.mp hmem with rfl | hmem
    · exact ⟨_, List.mem_cons_self, hf⟩
    · obtain ⟨g, hg, hfor⟩ := ih x hmem
      exact ⟨g, List.mem_cons_of_mem _ hg, hfor⟩

/-- **What a handling looks like**: the exchanges are for the first of the requests, in order.  Either
all requests have a complete exchange, or the last exchange is the only one that is not complete. -/
theorem shape (h : InOrder For Complete fs xs ok) :
    (∃ gs, gs <+: fs ∧ List.Forall₂ For gs xs ∧ (ok = true → gs = fs)) ∧
    (ok = true → ∀ x ∈ xs, Complete x) ∧
    (ok = false → ∃ ys x, xs = ys ++ [x] ∧ (∀ y ∈ ys, Complete y) ∧ ¬ Complete x) := by
  induction h with
  | nil =>
    refine ⟨⟨[], List.prefix_rfl, .nil, fun _ => rfl⟩, fun _ => ?_, nofun⟩
    exact fun x hx => nomatch hx
  | @stop f fs x hf hx =>
    refine ⟨⟨[f], ?_, .cons hf .nil, nofun⟩, nofun, fun _ => ⟨[], x, rfl, ?_, hx⟩⟩
    · exact ⟨fs, rfl⟩
    · exact fun y hy => nomatch hy
  | @cons f fs x xs ok hf hx _ ih =>
    obtain ⟨⟨gs, hpre, hall, hfull⟩, hok, hstop⟩ := ih
    refine ⟨⟨f :: gs, ?_, .cons hf hall, fun h => ?_⟩, fun h y hy => ?_, fun h => ?_⟩
    · exact (List.prefix_cons_inj f).mpr hpre
    · rw [hfull h]
    · rcases List.mem_cons.mp hy with rfl | hy
      · exact hx
      · exact hok h y hy
    · obtain ⟨ys, y, rfl, hys, hy⟩ := hstop h
      refine ⟨x :: ys, y, rfl, fun z hz => ?_, hy⟩
      rcases List.mem_cons.mp hz with rfl | hz
      · exact hx
      · exact hys z hz

/-- **Everything went well** when every request has a complete exchange; an exchange is for one request
only, and no request is made twice. -/
theorem ok_iff (h : InOrder For Complete fs xs ok)
    (hone : ∀ f g x, For f x → For g x → f = g) (hfs : fs.Nodup) :
    ok = true ↔ ∀ f ∈ fs, ∃ x ∈ xs, For f x ∧ Complete x := by
  induction h with
  | nil => simp
  | @stop f fs x hf hx =>
    constructor
    · exact nofun
    intro hall
    obtain ⟨y, hy, -, hcomplete⟩ := hall f List.mem_cons_self
    obtain rfl := List.mem_singleton.mp hy
    exact absurd hcomplete hx
  | @cons f fs x xs ok hf hx _ ih =>
    obtain ⟨hnew, hfs⟩ := List.nodup_cons.mp hfs
    rw [ih hfs]
    constructor
    · intro hall g hg
      rcases List.mem_cons.mp hg with rfl | hg
      · exact ⟨x, List.mem_cons_self, hf, hx⟩
      · obtain ⟨y, hy, hfor⟩ := hall g hg
        exact ⟨y, List.mem_cons_of_mem _ hy, hfor⟩
    · intro hall g hg
      obtain ⟨y, hy, hfor, hcomplete⟩ := hall g (List.mem_cons_of_mem _ hg)
      rcases List.mem_cons.mp hy with rfl | hy
      · -- the first exchange is for another request
        exact absurd (hone g f y hfor hf ▸ hg) hnew
      · exact ⟨y, hy, hfor, hcomplete⟩

end InOrder

end RackmonIoc.Program
