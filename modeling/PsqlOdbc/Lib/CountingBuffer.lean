import Mathlib.Data.List.Basic

/-!
# A buffer that counts on

Output that goes to a buffer as long as there is room, and is counted even when there is none: a
character is put at the place the count says, if that is below the capacity.  Whatever is put, the
buffer holds the beginning of it and the count is the length of the whole (`put_holding`).
-/

namespace Lib

variable {α : Type*}

/-- The number of characters that have been put, and the memory from the buffer on. -/
structure CountingBuffer (α : Type*) where
  ocount : Nat
  cells : List α
  deriving DecidableEq, Repr

namespace CountingBuffer

/-- A store at a place; no result if that is behind the memory. -/
def store (cells : List α) (i : Nat) (x : α) : Option (List α) :=
  if i < cells.length then some (cells.set i x) else none

/-- Count a character, and store it if there is room. -/
def put (bufcount : Nat) (b : CountingBuffer α) (x : α) : Option (CountingBuffer α) :=
  if b.ocount < bufcount then (store b.cells b.ocount x).map fun cells ↦ ⟨b.ocount + 1, cells⟩
  else some ⟨b.ocount + 1, b.cells⟩

/-- Put one character after the other. -/
def putAll (bufcount : Nat) : CountingBuffer α → List α → Option (CountingBuffer α)
  | b, [] => some b
  | b, x :: xs => (b.put bufcount x).bind fun b ↦ putAll bufcount b xs

/-- Put a terminator behind, if there is room. -/
def terminate (bufcount : Nat) (zero : α) (b : CountingBuffer α) : Option (List α) :=
  if b.ocount < bufcount then store b.cells b.ocount zero else some b.cells

/-- The memory with `xs` at its beginning. -/
def overwrite (mem xs : List α) : List α := xs ++ mem.drop xs.length

/-- The buffer when `xs` has been put. -/
def holding (bufcount : Nat) (mem xs : List α) : CountingBuffer α :=
  ⟨xs.length, overwrite mem (xs.take bufcount)⟩

section

variable {bufcount : Nat} {mem xs : List α}

theorem overwrite_nil (mem : List α) : overwrite mem [] = mem := rfl

theorem length_overwrite (h : xs.length ≤ mem.length) : (overwrite mem xs).length = mem.length := by
  rw [overwrite, List.length_append, List.length_drop, Nat.add_sub_cancel' h]

theorem overwrite_set (h : xs.length < mem.length) (x : α) :
    (overwrite mem xs).set xs.length x = overwrite mem (xs ++ [x]) := by
  rw [overwrite, overwrite, List.set_append_right _ _ (Nat.le_refl _), Nat.sub_self,
    List.drop_eq_getElem_cons h, List.set_cons_zero, List.length_append, List.length_singleton,
    List.append_assoc, List.singleton_append]

theorem store_overwrite (h : xs.length < mem.length) (x : α) :
    store (overwrite mem xs) xs.length x = some (overwrite mem (xs ++ [x])) := by
  rw [store, length_overwrite (Nat.le_of_lt h), if_pos h, overwrite_set h]

/-- A store behind the beginning of the memory. -/
theorem store_append (xs cells : List α) (i : Nat) (x : α) :
    store (xs ++ cells) (xs.length + i) x = (store cells i x).map (xs ++ ·) := by
  rw [store, store, List.length_append, List.set_append_right _ _ (Nat.le_add_right _ i),
    Nat.add_sub_cancel_left]
  by_cases h : i < cells.length
  · rw [if_pos h, if_pos (by omega), Option.map_some]
  · rw [if_neg h, if_neg (by omega), Option.map_none]

theorem store_cons (xs : List α) (c : α) (cells : List α) (x : α) :
    store (xs ++ c :: cells) xs.length x = some (xs ++ x :: cells) := by
  have h := store_append xs (c :: cells) 0 x
  rwa [Nat.add_zero] at h

theorem overwrite_append {xs cells : List α} (h : xs.length = cells.length) (mem ys : List α) :
    overwrite (cells ++ mem) (xs ++ ys) = xs ++ overwrite mem ys := by
  rw [overwrite, overwrite, List.length_append, h, List.drop_append, List.append_assoc,
    List.drop_eq_nil_of_le (Nat.le_add_right _ _), List.nil_append, Nat.add_sub_cancel_left]

theorem holding_nil (bufcount : Nat) (mem : List α) : holding bufcount mem [] = ⟨0, mem⟩ := by
  rw [holding, List.take_nil, overwrite_nil]
  rfl

theorem put_holding (h : bufcount ≤ mem.length) (x : α) :
    (holding bufcount mem xs).put bufcount x = some (holding bufcount mem (xs ++ [x])) := by
  rw [put, holding, holding, List.length_append, List.length_singleton]
  dsimp only
  by_cases hroom : xs.length < bufcount
  · rw [if_pos hroom, List.take_of_length_le (Nat.le_of_lt hroom),
      store_overwrite (Nat.lt_of_lt_of_le hroom h), Option.map_some, List.take_of_length_le]
    rw [List.length_append, List.length_singleton]
    exact hroom
  · rw [if_neg hroom, List.take_append_of_le_length (Nat.not_lt.1 hroom)]

theorem putAll_holding (h : bufcount ≤ mem.length) (ys : List α) :
    (holding bufcount mem xs).putAll bufcount ys = some (holding bufcount mem (xs ++ ys)) := by
  induction ys generalizing xs with
  | nil => rw [List.append_nil, putAll]
  | cons y ys ih => rw [putAll, put_holding h, Option.bind_some, ih, ← List.append_cons]

/-- What is in the memory at the end: all that was put and the terminator, or what there is room
for. -/
theorem terminate_holding (h : bufcount ≤ mem.length) (zero : α) :
    (holding bufcount mem xs).terminate bufcount zero =
      some (overwrite mem (if xs.length < bufcount then xs ++ [zero] else xs.take bufcount)) := by
  rw [terminate, holding]
  dsimp only
  by_cases hroom : xs.length < bufcount
  · rw [if_pos hroom, if_pos hroom, List.take_of_length_le (Nat.le_of_lt hroom),
      store_overwrite (Nat.lt_of_lt_of_le hroom h)]
  · rw [if_neg hroom, if_neg hroom]

end

end CountingBuffer

end Lib
