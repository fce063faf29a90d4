import Mathlib.Data.Int.Basic
import Mathlib.Data.List.Basic
import Mathlib.Data.List.GetD
import Mathlib.Tactic.Common

/-!
# Cells at addresses

A memory is reached through pointers, so that what is read and what is written may overlap.  Cells
that are written one behind the other are there as one text (`write_append`, `write_append_left`),
what is written is read back (`read_write`), and what is elsewhere stays (`write_of_not`).
-/

namespace Lib

/-- What is at the addresses. -/
abbrev Memory (α : Type*) := ℤ → α

namespace Memory

variable {α : Type*}

/-- The `n` cells at an address. -/
def read (m : Memory α) (a : ℤ) (n : ℕ) : List α := (List.range n).map fun i : ℕ ↦ m (a + i)

/-- The cells at an address are replaced. -/
def write (m : Memory α) (a : ℤ) (xs : List α) : Memory α :=
  fun b ↦ if a ≤ b then xs.getD (b - a).toNat (m b) else m b

section

variable {m m' : Memory α} {a b : ℤ} {xs ys : List α} {n : ℕ}

@[simp] theorem length_read (m : Memory α) (a : ℤ) (n : ℕ) : (m.read a n).length = n := by
  rw [read, List.length_map, List.length_range]

@[simp] theorem read_zero (m : Memory α) (a : ℤ) : m.read a 0 = [] := rfl

theorem getElem_read {i : ℕ} (h : i < (m.read a n).length) : (m.read a n)[i] = m (a + i) := by
  simp [read]

theorem mem_read (h : a ≤ b) (h' : b < a + n) : m b ∈ m.read a n := by
  refine List.mem_map.2 ⟨(b - a).toNat, List.mem_range.2 (by omega), ?_⟩
  exact congrArg m (by omega)

theorem read_congr (h : ∀ i : ℕ, i < n → m (a + i) = m' (a + i)) : m.read a n = m'.read a n :=
  List.map_congr_left fun i hi ↦ h i (List.mem_range.1 hi)

theorem read_add (m : Memory α) (a : ℤ) (k n : ℕ) :
    m.read a (k + n) = m.read a k ++ m.read (a + k) n := by
  rw [read, read, read, List.range_add, List.map_append, List.map_map]
  refine congrArg _ (List.map_congr_left fun i _ ↦ congrArg m ?_)
  change a + ((k + i : ℕ) : ℤ) = a + k + i
  omega

theorem read_one (m : Memory α) (a : ℤ) : m.read a 1 = [m a] := by simp [read]

theorem read_succ (m : Memory α) (a : ℤ) (n : ℕ) :
    m.read a (n + 1) = m.read a n ++ [m (a + n)] := by
  rw [read_add, read_one]

theorem read_cons (m : Memory α) (a : ℤ) (n : ℕ) : m.read a (n + 1) = m a :: m.read (a + 1) n := by
  rw [Nat.add_comm, read_add, read_one]
  rfl

theorem write_of_lt (h : b < a) : m.write a xs b = m b := if_neg (by omega)

theorem write_of_le (h : a + xs.length ≤ b) : m.write a xs b = m b := by
  rw [write, if_pos (by omega), List.getD_eq_default _ _ (by omega)]

theorem write_of_not (h : ¬ (a ≤ b ∧ b < a + xs.length)) : m.write a xs b = m b := by
  by_cases hlt : b < a
  · exact write_of_lt hlt
  · exact write_of_le (by omega)

theorem write_getD (h : a ≤ b) : m.write a xs b = xs.getD (b - a).toNat (m b) := if_pos h

theorem write_at {i : ℕ} (h : i < xs.length) : m.write a xs (a + i) = xs[i] := by
  have hi : (a + i - a).toNat = i := by omega
  rw [write_getD (by omega), hi, List.getD_eq_getElem _ _ h]

/-- What is written does not depend on what was there. -/
theorem write_congr (h : a ≤ b) (h' : b < a + xs.length) : m.write a xs b = m'.write a xs b := by
  rw [write_getD h, write_getD h, List.getD_eq_getElem _ _ (by omega),
    List.getD_eq_getElem _ _ (by omega)]

@[simp] theorem write_nil (m : Memory α) (a : ℤ) : m.write a [] = m := by
  funext b
  rw [write, List.getD_nil, ite_self]

/-- What is written behind something else. -/
theorem write_append (m : Memory α) (a : ℤ) (xs ys : List α) :
    (m.write a xs).write (a + xs.length) ys = m.write a (xs ++ ys) := by
  funext b
  by_cases hlt : b < a
  · rw [write_of_lt (by omega), write_of_lt hlt, write_of_lt hlt]
  · have hall : m.write a (xs ++ ys) b = (xs ++ ys).getD (b - a).toNat (m b) := write_getD (by omega)
    rw [hall]
    by_cases hxs : b < a + xs.length
    · rw [write_of_lt hxs, write_getD (by omega), List.getD_append _ _ _ _ (by omega)]
    · have hsub : (b - (a + xs.length)).toNat = (b - a).toNat - xs.length := by omega
      rw [write_getD (by omega), write_of_le (by omega), hsub,
        List.getD_append_right _ _ _ _ (by omega)]

/-- What is written in front of something else. -/
theorem write_append_left (m : Memory α) (a : ℤ) (xs ys : List α) :
    (m.write (a + xs.length) ys).write a xs = m.write a (xs ++ ys) := by
  funext b
  rw [← write_append]
  by_cases hlt : b < a
  · rw [write_of_lt hlt, write_of_lt (by omega), write_of_lt (by omega), write_of_lt hlt]
  · by_cases hxs : b < a + xs.length
    · rw [write_of_lt hxs]
      exact write_congr (by omega) hxs
    · rw [write_of_le (by omega), write_getD (by omega), write_getD (by omega),
        write_of_le (by omega)]

theorem read_write (m : Memory α) (a : ℤ) (xs : List α) :
    (m.write a xs).read a xs.length = xs := by
  refine List.ext_getElem (length_read _ _ _) fun i _ hi ↦ ?_
  rw [getElem_read, write_at hi]

end

end Memory

end Lib
