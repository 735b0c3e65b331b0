import Mathlib.Data.Int.ModEq
import Mathlib.Logic.Function.Basic

/-!
# Ring buffers

A ring of `n` cells in which an empty cell is marked, with the index of the next cell to read and that of
the next cell to write.  `Ring` says which list the cells hold, and the operations on the cells are the
operations of a queue on the list.
-/

namespace RackmonIoc.CLib

/-- The index after `i`. -/
def ringInc (n i : ℕ) : ℕ := if n - 1 ≤ i then 0 else i + 1

/-- The number of cells that can be written. -/
def ringFree {α : Type} (n : ℕ) (cell : ℕ → Option α) (getix putix : ℕ) : ℕ :=
  if (cell putix).isNone then
    if putix < getix then getix - putix else n + getix - putix
  else 0

/-- The cells from `getix` on hold the list, and the other ones are empty. -/
structure Ring {α : Type} (n : ℕ) (cell : ℕ → Option α) (getix putix : ℕ) (l : List α) : Prop where
  get_lt : getix < n
  length_le : l.length ≤ n
  put : putix = (getix + l.length) % n
  holds : ∀ k < n, cell ((getix + k) % n) = l[k]?

variable {α : Type} {n getix putix : ℕ} {cell : ℕ → Option α} {l : List α} {a b : α}

theorem ringInc_eq {i : ℕ} (h : i < n) : ringInc n i = (i + 1) % n := by
  unfold ringInc
  by_cases hi : n - 1 ≤ i
  · have hn : i + 1 = n := by omega
    rw [if_pos hi, hn, Nat.mod_self]
  · rw [if_neg hi, Nat.mod_eq_of_lt (by omega)]

theorem ringInc_place (hn : 0 < n) (i k : ℕ) : ringInc n ((i + k) % n) = (i + (k + 1)) % n := by
  rw [ringInc_eq (Nat.mod_lt _ hn), Nat.mod_add_mod, Nat.add_assoc]

/-- The places of the cells are different. -/
theorem place_inj {j k : ℕ} (hj : j < n) (hk : k < n) (h : (getix + j) % n = (getix + k) % n) :
    j = k := by
  have hmod : j % n = k % n := Nat.ModEq.add_left_cancel' getix h
  rwa [Nat.mod_eq_of_lt hj, Nat.mod_eq_of_lt hk] at hmod

namespace Ring

/-- The ring without entries. -/
theorem empty (hn : 0 < n) : Ring n (fun _ => none) 0 0 ([] : List α) :=
  ⟨hn, Nat.zero_le n, (Nat.zero_mod n).symm, fun _ _ => List.getElem?_nil.symm⟩

section

variable (h : Ring n cell getix putix l)
include h

theorem pos : 0 < n := Nat.lt_of_le_of_lt (Nat.zero_le _) h.get_lt

/-- The next cell to read. -/
theorem get_cell : cell getix = l.head? := by
  have hget := h.holds 0 h.pos
  rwa [Nat.add_zero, Nat.mod_eq_of_lt h.get_lt, ← List.head?_eq_getElem?] at hget

/-- A cell that holds an entry. -/
theorem holds_get {k : ℕ} (hk : k < l.length) : cell ((getix + k) % n) = some l[k] := by
  rw [h.holds k (Nat.lt_of_lt_of_le hk h.length_le), List.getElem?_eq_getElem hk]

/-- The next cell to write is empty if there is room. -/
theorem put_cell (hroom : l.length < n) : cell putix = none := by
  rw [h.put, h.holds _ hroom, List.getElem?_eq_none (Nat.le_refl _)]

/-- The next cell to write is taken if there is no room. -/
theorem put_cell_full (hroom : ¬ l.length < n) : cell putix ≠ none := by
  have hlen : l.length = n := Nat.le_antisymm h.length_le (Nat.not_lt.mp hroom)
  have hput : putix = getix := by
    rw [h.put, hlen, Nat.add_mod_right, Nat.mod_eq_of_lt h.get_lt]
  have hne : l ≠ [] := List.ne_nil_of_length_pos (by rw [hlen]; exact h.pos)
  rw [hput, h.get_cell]
  simpa using hne

/-- **The free cells.** -/
theorem free : ringFree n cell getix putix = n - l.length := by
  unfold ringFree
  by_cases hroom : l.length < n
  · have hget := h.get_lt
    have hput := h.put
    rw [h.put_cell hroom, Option.isNone_none, if_pos rfl]
    by_cases hwrap : getix + l.length < n
    · rw [Nat.mod_eq_of_lt hwrap] at hput
      rw [if_neg (by omega)]
      omega
    · rw [Nat.mod_eq_sub_mod (by omega), Nat.mod_eq_of_lt (by omega)] at hput
      rw [if_pos (by omega)]
      omega
  · rw [if_neg (by simpa using h.put_cell_full hroom)]
    omega

/-- **A write** appends to the list. -/
theorem push (hroom : l.length < n) :
    Ring n (Function.update cell putix (some a)) getix (ringInc n putix) (l ++ [a]) := by
  refine ⟨h.get_lt, ?_, ?_, fun k hk => ?_⟩
  · rw [List.length_append, List.length_singleton]
    exact hroom
  · rw [h.put, ringInc_place h.pos, List.length_append, List.length_singleton]
  · by_cases hkl : k = l.length
    · subst hkl
      rw [h.put, Function.update_self]
      simp
    · have hne : (getix + k) % n ≠ putix := by
        rw [h.put]
        exact fun hp => hkl (place_inj hk hroom hp)
      rw [Function.update_of_ne hne, h.holds k hk]
      by_cases hlt : k < l.length
      · rw [List.getElem?_append_left hlt]
      · rw [List.getElem?_eq_none (by omega), List.getElem?_eq_none (by simp; omega)]

/-- **A replacement** of an entry. -/
theorem set {k : ℕ} (hk : k < l.length) :
    Ring n (Function.update cell ((getix + k) % n) (some a)) getix putix (l.set k a) := by
  refine ⟨h.get_lt, ?_, ?_, fun j hj => ?_⟩
  · rw [List.length_set]
    exact h.length_le
  · rw [List.length_set]
    exact h.put
  · by_cases hjk : j = k
    · subst hjk
      rw [Function.update_self, List.getElem?_set_self hk]
    · have hne : (getix + j) % n ≠ (getix + k) % n := fun hp =>
        hjk (place_inj hj (Nat.lt_of_lt_of_le hk h.length_le) hp)
      rw [Function.update_of_ne hne, h.holds j hj, List.getElem?_set_ne (Ne.symm hjk)]

end

/-- **A read** takes the first entry. -/
theorem pop (h : Ring n cell getix putix (a :: l)) :
    Ring n (Function.update cell getix none) (ringInc n getix) putix l := by
  have hlen : l.length < n := h.length_le
  refine ⟨?_, Nat.le_of_lt hlen, ?_, fun k hk => ?_⟩
  · rw [ringInc_eq h.get_lt]
    exact Nat.mod_lt _ h.pos
  · rw [h.put, ringInc_eq h.get_lt, Nat.mod_add_mod, List.length_cons, Nat.add_assoc,
      Nat.add_comm 1]
  · have hplace : (ringInc n getix + k) % n = (getix + (k + 1)) % n := by
      rw [ringInc_eq h.get_lt, Nat.mod_add_mod, Nat.add_assoc, Nat.add_comm 1]
    have hget : getix = (getix + 0) % n := (Nat.mod_eq_of_lt h.get_lt).symm
    rw [hplace]
    by_cases hlast : k + 1 < n
    · have hne : (getix + (k + 1)) % n ≠ getix := by
        rw [hget, Nat.mod_add_mod]
        intro hp
        exact absurd (place_inj hlast h.pos hp) (Nat.succ_ne_zero k)
      rw [Function.update_of_ne hne, h.holds _ hlast, List.getElem?_cons_succ]
    · -- the cell that has been read is the last one now
      have hn : k + 1 = n := by omega
      rw [hn, Nat.add_mod_right, Nat.mod_eq_of_lt h.get_lt, Function.update_self,
        List.getElem?_eq_none (by omega)]

end Ring

end RackmonIoc.CLib
