import Mathlib.Data.List.InsertIdx
import PsqlOdbc.Results.SideTables

/-!
# The rows of the tables of own changes

What moving the entries of the arrays does to the rows they make up together.
-/

namespace PsqlOdbc

open Lib

variable {t : SideTable} {i : Nat}

theorem take_tupleCells (t : SideTable) :
    t.tupleCells.take t.count =
      t.tuples.elim (List.replicate t.count none) fun cells ↦ (cells.take t.count).map some := by
  rw [SideTable.tupleCells]
  cases t.tuples with
  | none => exact List.take_of_length_le (Nat.le_of_eq List.length_replicate)
  | some cells => exact (List.map_take).symm

theorem length_take_tupleCells (h : t.Covers) : (t.tupleCells.take t.count).length = t.count := by
  rw [take_tupleCells]
  cases htuples : t.tuples with
  | none => exact List.length_replicate
  | some cells =>
    have hle := h.tuples cells htuples
    rw [Option.elim_some, List.length_map, List.length_take]
    omega

theorem length_take_keys (h : t.Covers) :
    ((t.index.take t.count).zip (t.keyset.take t.count)).length = t.count := by
  have hindex := h.index
  have hkeyset := h.keyset
  rw [List.length_zip, List.length_take, List.length_take]
  omega

theorem length_rows (h : t.Covers) : t.rows.length = t.count := by
  rw [SideTable.rows, List.length_zipWith, length_take_keys h, length_take_tupleCells h, Nat.min_self]

/-- The row at a place, in the arrays. -/
theorem rows_getElem? (h : t.Covers) (hi : i < t.count) :
    ∃ index keyset tuple, t.index[i]? = some index ∧ t.keyset[i]? = some keyset ∧
      t.rows[i]? = some ⟨index, keyset, tuple⟩ := by
  have hindex : i < t.index.length := Nat.lt_of_lt_of_le hi h.index
  have hkeyset : i < t.keyset.length := Nat.lt_of_lt_of_le hi h.keyset
  have htuple : i < (t.tupleCells.take t.count).length := by
    rw [length_take_tupleCells h]
    exact hi
  have hkeys : ((t.index.take t.count).zip (t.keyset.take t.count))[i]? =
      some (t.index[i], t.keyset[i]) := by
    refine List.getElem?_zip_eq_some.2 ⟨?_, ?_⟩
    · rw [List.getElem?_take_of_lt hi, List.getElem?_eq_getElem hindex]
    · rw [List.getElem?_take_of_lt hi, List.getElem?_eq_getElem hkeyset]
  refine ⟨t.index[i], t.keyset[i], (t.tupleCells.take t.count)[i], List.getElem?_eq_getElem hindex,
    List.getElem?_eq_getElem hkeyset, ?_⟩
  rw [SideTable.rows, List.getElem?_zipWith, List.getElem?_eq_getElem htuple, hkeys]

/-! ## One row less -/

/-- A row is removed from all of the arrays. -/
theorem rows_removeRow (h : t.Covers) (hi : i < t.count) :
    (t.removeRow i).rows = t.rows.eraseIdx i := by
  have htuples : (t.removeRow i).tupleCells.take (t.count - 1) =
      (t.tupleCells.take t.count).eraseIdx i := by
    rw [take_tupleCells, show t.count - 1 = (t.removeRow i).count from rfl, take_tupleCells,
      SideTable.removeRow]
    cases htuples : t.tuples with
    | none =>
      rw [Option.map_none, Option.elim_none, Option.elim_none, List.eraseIdx_replicate, if_pos hi]
    | some cells =>
      have hle := h.tuples cells htuples
      rw [Option.map_some, Option.elim_some, Option.elim_some, take_closeGap hi (by
        rw [List.length_modify]
        exact hle), List.take_modify, List.eraseIdx_modify_of_eq, List.eraseIdx_map]
  rw [SideTable.rows, SideTable.rows, eraseIdx_zipWith, ← htuples, List.zip, eraseIdx_zipWith,
    ← take_closeGap hi h.index, ← take_closeGap hi h.keyset]
  · rfl
  · have hindex := h.index
    have hkeyset := h.keyset
    rw [List.length_take, List.length_take]
    omega
  · rw [length_take_keys h, length_take_tupleCells h]

theorem covers_removeRow (h : t.Covers) (hi : i < t.count) : (t.removeRow i).Covers where
  index := by
    rw [SideTable.removeRow, length_closeGap hi h.index]
    exact Nat.le_trans (Nat.sub_le _ _) h.index
  keyset := by
    rw [SideTable.removeRow, length_closeGap hi h.keyset]
    exact Nat.le_trans (Nat.sub_le _ _) h.keyset
  tuples := by
    intro cells hcells
    obtain ⟨cells', hcells', rfl⟩ := Option.map_eq_some_iff.1 hcells
    have hle := h.tuples cells' hcells'
    rw [length_closeGap hi (by rw [List.length_modify]; exact hle), List.length_modify]
    exact Nat.le_trans (Nat.sub_le _ _) hle

/-! ## One row more -/

/-- A row stored in front of the one at a place. -/
def SideTable.insertRow (alloc i : Nat) (index : Int) (keyset : KeySet) (tuple : List TupleField)
    (t : SideTable) : SideTable :=
  ⟨alloc, t.count + 1, openGap i (t.count - i) index t.index,
    openGap i (t.count - i) keyset t.keyset, t.tuples.map (openGap i (t.count - i) tuple)⟩

theorem zipWith_insert {α β γ : Type*} (f : α → β → γ) {as : List α} {bs : List β}
    (h : as.length = bs.length) (i : Nat) (a : α) (b : β) :
    List.zipWith f (as.take i ++ a :: as.drop i) (bs.take i ++ b :: bs.drop i) =
      (List.zipWith f as bs).take i ++ f a b :: (List.zipWith f as bs).drop i := by
  rw [List.zipWith_append, List.zipWith_cons_cons, List.take_zipWith, List.drop_zipWith]
  rw [List.length_take, List.length_take, h]

variable {index : Int} {keyset : KeySet} {tuple : List TupleField} {alloc : Nat}

theorem rows_insertRow (h : t.Covers) (hi : i ≤ t.count) :
    (t.insertRow alloc i index keyset tuple).rows =
      t.rows.take i ++ ⟨index, keyset, t.tuples.map fun _ ↦ tuple⟩ :: t.rows.drop i := by
  have htuples : (t.insertRow alloc i index keyset tuple).tupleCells.take (t.count + 1) =
      (t.tupleCells.take t.count).take i ++ (t.tuples.map fun _ ↦ tuple) ::
        (t.tupleCells.take t.count).drop i := by
    rw [show t.count + 1 = (t.insertRow alloc i index keyset tuple).count from rfl, take_tupleCells,
      take_tupleCells, SideTable.insertRow]
    cases htuples : t.tuples with
    | none =>
      rw [Option.map_none, Option.elim_none, Option.elim_none, Option.map_none, List.take_replicate,
        List.drop_replicate, Nat.min_eq_left hi, ← List.replicate_succ, ← List.replicate_add]
      congr 1
      dsimp only
      omega
    | some cells =>
      rw [Option.map_some, Option.elim_some, Option.elim_some, take_openGap hi (h.tuples cells htuples),
        List.map_append, List.map_cons, List.map_take, List.map_drop]
      rfl
  rw [SideTable.rows, SideTable.rows, ← zipWith_insert _ ?_ i (index, keyset) (t.tuples.map fun _ ↦ tuple),
    ← htuples, List.zip, ← zipWith_insert Prod.mk ?_ i index keyset, ← take_openGap hi h.index,
    ← take_openGap hi h.keyset]
  · rfl
  · have hindex := h.index
    have hkeyset := h.keyset
    rw [List.length_take, List.length_take]
    omega
  · rw [length_take_keys h, length_take_tupleCells h]

theorem covers_insertRow (h : t.Covers) (hi : i ≤ t.count) :
    (t.insertRow alloc i index keyset tuple).Covers where
  index := le_length_openGap hi h.index index
  keyset := le_length_openGap hi h.keyset keyset
  tuples := by
    intro cells hcells
    obtain ⟨cells', hcells', rfl⟩ := Option.map_eq_some_iff.1 hcells
    exact le_length_openGap hi (h.tuples cells' hcells') tuple

end PsqlOdbc
