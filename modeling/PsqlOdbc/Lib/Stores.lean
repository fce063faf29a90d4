import PsqlOdbc.Lib.CountingBuffer

/-!
# Storing texts

Stores at consecutive places of a piece of memory.  A program that stores one text behind the other
has what it has stored at the beginning of the memory, and the rest of the memory behind it
(`storeAll_append`).
-/

namespace Lib

open CountingBuffer

variable {α : Type*}

/-- Stores from the place `i` on; no result if one is behind the memory. -/
def storeAll (cells : List α) (i : Nat) (xs : List α) : Option (List α) :=
  if i + xs.length ≤ cells.length then some (cells.take i ++ overwrite (cells.drop i) xs) else none

/-- `snprintf` at the place `i`, with room for `n` characters, of a text that is formatted
already. -/
def snprintfAt (cells : List UInt8) (i n : Nat) (text : List UInt8) : Option (List UInt8) :=
  if n = 0 then some cells else storeAll cells i (text.take (n - 1) ++ [0])

section

variable {done cells xs : List α} {i : Nat}

theorem storeAll_append (h : xs.length ≤ cells.length) :
    storeAll (done ++ cells) done.length xs = some (done ++ overwrite cells xs) := by
  rw [storeAll, List.length_append, if_pos (Nat.add_le_add_left h _), List.take_left,
    List.drop_left]

/-- There is no room behind what has been stored. -/
theorem storeAll_full (h : cells.length < xs.length) :
    storeAll (done ++ cells) done.length xs = none := by
  rw [storeAll, List.length_append, if_neg (by omega)]

/-- A text behind what has been stored. -/
theorem storeAll_overwrite {mem : List α} (h : (done ++ xs).length ≤ mem.length) :
    storeAll (overwrite mem done) done.length xs = some (overwrite mem (done ++ xs)) := by
  rw [List.length_append] at h
  change storeAll (done ++ mem.drop done.length) done.length xs = _
  rw [storeAll_append (by rw [List.length_drop]; omega)]
  change some (done ++ (xs ++ (mem.drop done.length).drop xs.length)) =
    some (done ++ xs ++ mem.drop (done ++ xs).length)
  rw [List.drop_drop, List.length_append, List.append_assoc]

/-- There is no room for it. -/
theorem storeAll_overwrite_full {mem : List α} (h : mem.length < (done ++ xs).length)
    (hdone : done.length ≤ mem.length) :
    storeAll (overwrite mem done) done.length xs = none := by
  rw [List.length_append] at h
  exact storeAll_full (by rw [List.length_drop]; omega)

/-- Stores keep the size of the memory. -/
theorem length_storeAll {cells' : List α} (h : storeAll cells i xs = some cells') :
    cells'.length = cells.length := by
  rw [storeAll] at h
  split at h
  · next hroom =>
    cases h
    rw [List.length_append, length_overwrite, List.length_take, List.length_drop]
    · omega
    · rw [List.length_drop]
      omega
  · cases h

theorem overwrite_eq_append {xs mem : List α} : overwrite mem xs = xs ++ mem.drop xs.length := rfl

end

end Lib
