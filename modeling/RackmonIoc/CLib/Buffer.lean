import Mathlib.Data.List.Infix

/-!
# Buffers

A buffer of fixed size, and stores into it.  A store outside the buffer is undefined: it has no result.
A run of stores at consecutive places is `overwrite`; what a later run writes over an earlier one is
`overwrite_overwrite`.
-/

namespace RackmonIoc.CLib

section Buffer

variable {α : Type}

/-- `buf[i] = c` -/
def store (buf : List α) (i : ℕ) (c : α) : Option (List α) :=
  if i < buf.length then some (buf.set i c) else none

/-- Stores at consecutive places. -/
def stores (buf : List α) (i : ℕ) : List α → Option (List α)
  | [] => some buf
  | c :: cs => do
    let buf ← store buf i c
    stores buf (i + 1) cs

/-- The buffer with `cs` at the place `i`. -/
def overwrite (buf : List α) (i : ℕ) (cs : List α) : List α :=
  buf.take i ++ (cs ++ buf.drop (i + cs.length))

variable {buf cs : List α} {i : ℕ}

theorem overwrite_nil : overwrite buf i [] = buf := by simp [overwrite]

theorem overwrite_length (h : i + cs.length ≤ buf.length) :
    (overwrite buf i cs).length = buf.length := by
  simp only [overwrite, List.length_append, List.length_take, List.length_drop]
  omega

theorem overwrite_cons {c : α} (h : i < buf.length) :
    overwrite (buf.set i c) (i + 1) cs = overwrite buf i (c :: cs) := by
  have htake : (buf.set i c).take (i + 1) = buf.take i ++ [c] := by
    rw [List.take_add_one, List.take_set_of_le (le_refl i), List.getElem?_set_self h]
    rfl
  have hdrop : (buf.set i c).drop (i + 1 + cs.length) = buf.drop (i + (cs.length + 1)) := by
    rw [List.drop_set_of_lt (by omega)]
    congr 1
    omega
  simp [overwrite, htake, hdrop]

theorem store_eq {c : α} (h : i < buf.length) : store buf i c = some (overwrite buf i [c]) := by
  rw [store, if_pos h, ← overwrite_cons h, overwrite_nil]

/-- **Stores inside the buffer** have a result. -/
theorem stores_eq (h : i + cs.length ≤ buf.length) : stores buf i cs = some (overwrite buf i cs) := by
  induction cs generalizing buf i with
  | nil => rw [overwrite_nil, stores]
  | cons c cs ih =>
    have hi : i < buf.length := by
      rw [List.length_cons] at h
      omega
    have hrest : i + 1 + cs.length ≤ (buf.set i c).length := by
      rw [List.length_cons] at h
      rw [List.length_set]
      omega
    calc
      stores buf i (c :: cs) = stores (buf.set i c) (i + 1) cs := by simp [stores, store, hi]
      _ = some (overwrite (buf.set i c) (i + 1) cs) := ih hrest
      _ = some (overwrite buf i (c :: cs)) := by rw [overwrite_cons hi]

/-- **What is written over**: the second run starts after `xs` and covers the rest of the first. -/
theorem overwrite_overwrite {xs junk ys : List α} (hi : i + xs.length ≤ buf.length)
    (h : junk.length ≤ ys.length) :
    overwrite (overwrite buf i (xs ++ junk)) (i + xs.length) ys = overwrite buf i (xs ++ ys) := by
  have hlen : (buf.take i).length = i := List.length_take_of_le (by omega)
  have htake : (overwrite buf i (xs ++ junk)).take (i + xs.length) = buf.take i ++ xs := by
    rw [overwrite, List.append_assoc, ← List.append_assoc]
    exact List.take_left' (by simp [hlen])
  have hdrop : (overwrite buf i (xs ++ junk)).drop (i + xs.length + ys.length) =
      buf.drop (i + (xs ++ ys).length) := by
    rw [overwrite, List.append_assoc, ← List.append_assoc, List.drop_append,
      List.drop_eq_nil_of_le (by simp [hlen]), List.nil_append, List.drop_append,
      List.drop_eq_nil_of_le (by simp [hlen]; omega), List.nil_append, List.drop_drop]
    congr 1
    simp only [List.length_append, hlen]
    omega
  rw [overwrite, htake, hdrop, overwrite]
  simp [List.append_assoc]

end Buffer

/-! ### Strings in a buffer -/

def NUL : Char := Char.ofNat 0

/-- `strcpy`, to the place `i` of the buffer -/
def strcpy (buf : List Char) (i : ℕ) (s : List Char) : Option (List Char) := stores buf i (s ++ [NUL])

/-- The buffer holds the string `s`. -/
def Holds (buf s : List Char) : Prop := NUL ∉ s ∧ s ++ [NUL] <+: buf

/-- A buffer holds one string at most. -/
theorem Holds.unique {buf s t : List Char} (hs : Holds buf s) (ht : Holds buf t) : s = t := by
  obtain ⟨hnuls, rests, hs⟩ := hs
  obtain ⟨hnult, restt, ht⟩ := ht
  have htake : ∀ u rest : List Char, NUL ∉ u → (u ++ [NUL] ++ rest).takeWhile (· ≠ NUL) = u := by
    intro u rest hu
    rw [List.append_assoc, List.takeWhile_append_of_pos, List.singleton_append,
      List.takeWhile_cons_of_neg (by simp), List.append_nil]
    intro c hc
    simpa using ne_of_mem_of_not_mem hc hu
  rw [← htake s rests hnuls, hs, ← ht, htake t restt hnult]

theorem holds_overwrite {buf s : List Char} (h : NUL ∉ s) : Holds (overwrite buf 0 (s ++ [NUL])) s :=
  ⟨h, List.prefix_append _ _⟩

end RackmonIoc.CLib
