import PsqlOdbc.Results.TableRows

/-!
# Removing rows from the tables of own changes (`results.c`)

What is left of a table when the rows of a number have been removed.
-/

namespace PsqlOdbc

open Lib

variable {t : SideTable} {i : Nat}

/-! ## The loop -/

/-- Whether a row has one of two numbers. -/
def SideRow.hasNumber (numbers : Int × Int) (row : SideRow) : Bool :=
  numbers.1 = row.index || numbers.2 = row.index

/-- Whether a row has the key, if there is one. -/
def SideRow.hasKey (key : Option KeySet) (row : SideRow) : Bool :=
  key.any fun key ↦ row.keyset.sameTid key

variable {numbers : Int × Int} {key : Option KeySet} {rounds : Nat}

theorem drop_eraseIdx_succ {α : Type*} {xs ys : List α} {x y : α} {i : Nat} (hi : i < xs.length)
    (h : xs.drop i = x :: y :: ys) :
    (xs.eraseIdx i).take (i + 1) = xs.take i ++ [y] ∧ (xs.eraseIdx i).drop (i + 1) = ys := by
  have hlen : (xs.take i).length = i := by
    rw [List.length_take]
    omega
  have hbehind : xs.drop (i + 1) = y :: ys := by
    rw [← List.drop_drop, h, List.drop_succ_cons, List.drop_zero]
  have hlen' : (xs.take i ++ [y]).length = i + 1 := by rw [List.length_append, hlen]; rfl
  rw [List.eraseIdx_eq_take_drop_succ, hbehind, List.append_cons]
  exact ⟨List.take_left' hlen', List.drop_left' hlen'⟩

/-- What the loop leaves of the rows from place `i` on. -/
theorem removeRows_rows (h : t.Covers) (hrounds : t.count ≤ i + rounds) :
    ∃ t', removeRows numbers key rounds i t = some t' ∧ t'.Covers ∧ t'.alloc = t.alloc ∧
      t'.rows = t.rows.take i ++
        removeLoop (SideRow.hasNumber numbers) (SideRow.hasKey key) (t.rows.drop i) := by
  induction rounds generalizing i t with
  | zero =>
    have hlen := length_rows h
    refine ⟨t, rfl, h, rfl, ?_⟩
    rw [List.drop_eq_nil_of_le (by omega), removeLoop_nil, List.append_nil,
      List.take_of_length_le (by omega)]
  | succ rounds ih =>
    have hlen := length_rows h
    rw [removeRows]
    by_cases hi : t.count ≤ i
    · refine ⟨t, if_pos hi, h, rfl, ?_⟩
      rw [List.drop_eq_nil_of_le (by omega), removeLoop_nil, List.append_nil,
        List.take_of_length_le (by omega)]
    · obtain ⟨index, keyset, tuple, hindex, hkeyset, hrow⟩ := rows_getElem? h (Nat.not_le.1 hi)
      obtain ⟨hlt, hget⟩ := List.getElem?_eq_some_iff.1 hrow
      have hdrop := List.drop_eq_getElem_cons hlt
      rw [hget] at hdrop
      rw [if_neg hi, hindex, Option.bind_some]
      by_cases hnumber : numbers.1 = index ∨ numbers.2 = index
      · have hmatch : SideRow.hasNumber numbers ⟨index, keyset, tuple⟩ = true := by
          rw [SideRow.hasNumber, Bool.or_eq_true, decide_eq_true_iff, decide_eq_true_iff]
          exact hnumber
        have hfound : (key.elim (some false) fun key ↦ t.keyset[i]?.map (·.sameTid key)) =
            some (SideRow.hasKey key ⟨index, keyset, tuple⟩) := by
          cases key with
          | none => rfl
          | some key => rw [Option.elim_some, hkeyset]; rfl
        rw [if_pos hnumber, hfound, Option.bind_some]
        cases hkey : SideRow.hasKey key ⟨index, keyset, tuple⟩ with
        | true =>
          refine ⟨t, if_pos rfl, h, rfl, ?_⟩
          rw [hdrop, removeLoop_key hmatch hkey, ← hdrop, List.take_append_drop]
        | false =>
          have hcovers := covers_removeRow h (Nat.not_le.1 hi)
          obtain ⟨t', hloop, hcovers', halloc, hrows⟩ :=
            @ih (t.removeRow i) (i + 1) hcovers (show t.count - 1 ≤ i + 1 + rounds by omega)
          refine ⟨t', (if_neg Bool.false_ne_true).trans hloop, hcovers', halloc, ?_⟩
          rw [hrows, rows_removeRow h (Nat.not_le.1 hi), hdrop]
          cases hbehind : t.rows.drop (i + 1) with
          | nil =>
            have hshort : t.rows.eraseIdx i = t.rows.take i := by
              rw [List.eraseIdx_eq_take_drop_succ, hbehind, List.append_nil]
            have hle := List.length_take_le i t.rows
            rw [hshort, List.drop_eq_nil_of_le (by omega), removeLoop_nil,
              List.take_of_length_le (by omega), removeLoop, hmatch, hkey]
            rfl
          | cons y ys =>
            rw [hbehind] at hdrop
            obtain ⟨hfront, hrest⟩ := drop_eraseIdx_succ hlt hdrop
            rw [hfront, hrest, removeLoop_remove hmatch hkey, List.append_assoc,
              List.singleton_append]
      · have hmatch : SideRow.hasNumber numbers ⟨index, keyset, tuple⟩ = false := by
          rw [SideRow.hasNumber, Bool.or_eq_false_iff, decide_eq_false_iff_not,
            decide_eq_false_iff_not]
          exact not_or.1 hnumber
        obtain ⟨t', hloop, hcovers', halloc, hrows⟩ := @ih t (i + 1) h (by omega)
        refine ⟨t', (if_neg hnumber).trans hloop, hcovers', halloc, ?_⟩
        rw [hrows, hdrop, removeLoop_keep hmatch, ← List.take_append_getElem hlt, hget,
          List.append_assoc, List.singleton_append]

/-! ## The functions -/

/-- The rows for which `p` holds are gone, up to one for which `q` holds, and all of the others are
left in their order in all of the arrays. -/
def RemovesMatches (remove : SideTable → Option SideTable) (p q : SideRow → Bool) (t : SideTable) :
    Prop :=
  ∃ t', remove t = some t' ∧ t'.Covers ∧ t'.rows = removeMatches p q t.rows ∧
    t'.count = t.count - (t.rows.length - (removeMatches p q t.rows).length)

theorem length_removeMatches_le {α : Type*} (p q : α → Bool) (xs : List α) :
    (removeMatches p q xs).length ≤ xs.length := by
  have hfilter := List.length_filter_le (fun x ↦ !p x) (beforeKey p q xs)
  have hsplit := congrArg List.length (List.takeWhile_append_dropWhile (p := fun x ↦ !(p x && q x)) (l := xs))
  rw [List.length_append] at hsplit
  rw [removeMatches, List.length_append, beforeKey, fromKey] at *
  omega

theorem removesMatches_iff (h : t.Covers) :
    RemovesMatches (fun t ↦ removeRows numbers key t.count 0 t) (SideRow.hasNumber numbers)
        (SideRow.hasKey key) t ↔
      NoNeighbours (SideRow.hasNumber numbers) (SideRow.hasKey key) t.rows := by
  obtain ⟨t', hloop, hcovers, -, hrows⟩ :=
    @removeRows_rows t 0 numbers key t.count h (by omega)
  rw [List.take_zero, List.nil_append, List.drop_zero] at hrows
  rw [← removeLoop_eq_iff]
  constructor
  · rintro ⟨t'', hloop', -, hrows', -⟩
    rw [show removeRows numbers key t.count 0 t = some t'' from hloop', Option.some_inj] at hloop
    rw [← hrows, ← hloop, hrows']
  · intro heq
    refine ⟨t', hloop, hcovers, hrows.trans heq, ?_⟩
    have hcount := length_rows hcovers
    have hlen := length_rows h
    have hle := length_removeMatches_le (SideRow.hasNumber numbers) (SideRow.hasKey key) t.rows
    rw [hrows, heq] at hcount
    omega

/-- Beside a row that is removed there is no other one. -/
def Apart (p : SideRow → Bool) (rows : List SideRow) : Prop :=
  rows.IsChain fun x y ↦ ¬(p x = true ∧ p y = true)

/-- The functions remove all of the rows of a number, and no others, if and only if no two of these
stand side by side; with a key, in front of the row that has it, and if that stands behind one of
these, there are none from there up to the next row that has it. -/
theorem removes_iff (h : t.Covers) (numRead index : Int) (keyset : KeySet) :
    (RemovesMatches (removeDeleted numRead index) (SideRow.hasNumber (rowNumbers numRead index))
        (fun _ ↦ false) t ↔
      Apart (SideRow.hasNumber (rowNumbers numRead index)) t.rows) ∧
    (RemovesMatches (removeUpdated numRead index) (SideRow.hasNumber (rowNumbers numRead index))
        (fun _ ↦ false) t ↔
      Apart (SideRow.hasNumber (rowNumbers numRead index)) t.rows) ∧
    (RemovesMatches (removeUpdatedAfterTheKey numRead index (some keyset))
        (SideRow.hasNumber (rowNumbers numRead index)) (fun row ↦ row.keyset.sameTid keyset) t ↔
      NoNeighbours (SideRow.hasNumber (rowNumbers numRead index))
        (fun row ↦ row.keyset.sameTid keyset) t.rows) := by
  have hplain := @removesMatches_iff t (rowNumbers numRead index) none h
  have hkey := @removesMatches_iff t (rowNumbers numRead index) (some keyset) h
  have hnone : SideRow.hasKey none = fun _ ↦ false := rfl
  rw [hnone, noNeighbours_none] at hplain
  exact ⟨hplain, hplain, hkey⟩

/-- A row that was updated twice in a transaction stays updated once. -/
theorem not_removesMatches_twice : ¬RemovesMatches (removeUpdated 10 3)
    (SideRow.hasNumber (rowNumbers 10 3)) (fun _ ↦ false)
    ⟨10, 2, [3, 3], [⟨.none, 0, 1, 0⟩, ⟨.none, 0, 2, 0⟩], none⟩ := by
  rintro ⟨t', hremove, -, hrows, -⟩
  have hone : removeUpdated 10 3 ⟨10, 2, [3, 3], [⟨.none, 0, 1, 0⟩, ⟨.none, 0, 2, 0⟩], none⟩ =
      some ⟨10, 1, [3, 3], [⟨.none, 0, 2, 0⟩, ⟨.none, 0, 2, 0⟩], none⟩ := by decide +kernel
  rw [hone, Option.some_inj] at hremove
  rw [← hremove] at hrows
  exact absurd hrows (by decide +kernel)

/-- Two rows are left where one that is between them is removed. -/
theorem removes_between : RemovesMatches (removeDeleted 10 3) (SideRow.hasNumber (rowNumbers 10 3))
    (fun _ ↦ false)
    ⟨10, 3, [1, 3, 5], [⟨.none, 0, 1, 0⟩, ⟨.none, 0, 2, 0⟩, ⟨.none, 0, 3, 0⟩], none⟩ := by
  refine (removes_iff ⟨by decide, by decide, fun _ h ↦ absurd h (Option.not_mem_none _)⟩ 10 3 ⟨.none, 0, 0, 0⟩).1.2 ?_
  rw [Apart]
  decide +kernel

end PsqlOdbc
