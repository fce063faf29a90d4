import Mathlib.Logic.Function.Basic
import PsqlOdbc.Results.TableGrowth
import PsqlOdbc.Results.TableRemoval

/-!
# The table of deleted rows (`results.c`)

What the table says of the rows that have been deleted, over the deletes, rollbacks, commits and
fetches of a result.
-/

namespace PsqlOdbc

open Lib

/-! ## Rows that are deleted -/

/-- Where a row is stored. -/
def KeySet.address (k : KeySet) : Nat × Nat × Nat := (k.blocknum, k.offset, k.oid)

/-- The rows of a result that have been deleted through it, with their keys. -/
abbrev OwnDeleted := Int → Option (Nat × Nat × Nat)

/-- The number of a row, where it may be that of one that was added. -/
def rowOf (numRead index : Int) : Int := if index < 0 then numRead - index - 1 else index

/-- What the table has to do with the rows that are deleted: it lists them in ascending order, once
each, with their keys, and has room for all of them. -/
structure ListsDeleted (t : SideTable) (rows : OwnDeleted) : Prop where
  covers : t.Covers
  room : t.count ≤ t.alloc
  ascending : (t.rows.map SideRow.index).Pairwise (· < ·)
  lists : ∀ row key, rows row = some key ↔ ∃ r ∈ t.rows, r.index = row ∧ r.keyset.address = key

/-- And what it has to do with its own past. -/
structure DeletedInvariant (t : SideTable) (rows : OwnDeleted) : Prop extends
    ListsDeleted t rows where
  tuples : t.tuples = none
  growth : t.index ≠ [] → ∃ j ≤ 11, t.alloc = 10 * 2 ^ j
  numbers : ∀ r ∈ t.rows, 0 ≤ r.index ∧ r.index < 2 ^ 63

/-! ## Steps -/

/-- What happens to a result; the numbers are `SQLLEN`s. -/
inductive DeletedStep
  | add (inTrans : Bool) (index : Nat) (keyset : KeySet)
  | remove (index : Int) (hindex : -2 ^ 63 ≤ index ∧ index < 2 ^ 63)
  | commit
  | fetch (numRead : Nat) (hread : numRead < 2 ^ 63)

/-- A result, as far as it has to do with deleted rows. -/
structure DeletedState where
  cursor : Bool
  numRead : Nat
  hread : numRead < 2 ^ 63
  table : SideTable

/-- A step of the result. -/
def DeletedState.step (s : DeletedState) : DeletedStep → Option DeletedState
  | .add inTrans index keyset =>
    (addDeleted s.cursor inTrans index keyset s.table).map fun r ↦ { s with table := r.2 }
  | .remove index _ => (removeDeleted s.numRead index s.table).map fun table ↦ { s with table }
  | .commit => some { s with table := commitDeleted s.table }
  | .fetch numRead hread => some { s with numRead, hread }

/-- What a step does to the rows that are deleted. -/
def DeletedStep.apply (numRead : Nat) (rows : OwnDeleted) : DeletedStep → OwnDeleted
  | .add _ index keyset => Function.update rows index (some keyset.address)
  | .remove index _ => Function.update rows (rowOf numRead index) none
  | .commit => rows
  | .fetch _ _ => rows

/-- A row is recorded for the first time, as one of a cursor, by its number, among fewer than 20480. -/
def DeletedState.Fits (s : DeletedState) (rows : OwnDeleted) : DeletedStep → Prop
  | .add _ index _ =>
    s.cursor = true ∧ index < 2 ^ 63 ∧ rows index = none ∧ s.table.count < 20480
  | _ => True

section

variable {t : SideTable} {rows : OwnDeleted}

theorem count_of_null (h : t.Covers) (hnil : t.index = []) : t.count = 0 := by
  have hle := h.index
  rw [hnil] at hle
  exact Nat.le_zero.1 hle

theorem map_index_rows (h : t.Covers) : t.rows.map SideRow.index = t.index.take t.count := by
  apply List.ext_getElem?
  intro i
  rw [List.getElem?_map]
  by_cases hi : i < t.count
  · obtain ⟨index, keyset, tuple, hindex, -, hrow⟩ := rows_getElem? h hi
    rw [hrow, List.getElem?_take_of_lt hi, hindex]
    rfl
  · have hlen := length_rows h
    rw [List.getElem?_eq_none (by omega), List.getElem?_eq_none (by rw [List.length_take]; omega)]
    rfl

/-- Where a row is put in front of the first one with a larger number. -/
theorem addDeleted_eq (h : DeletedInvariant t rows) {index : Nat} (hindex : index < 2 ^ 63)
    (hcount : t.count < 20480) (inTrans : Bool) (keyset : KeySet) :
    ∃ j ≤ 11, t.count < 10 * 2 ^ j ∧
      addDeleted true inTrans index keyset t =
        some (true, t.insertRow (10 * 2 ^ j)
          ((t.rows.map SideRow.index).findIdx fun d ↦ index < sqlulen d) index
          { keyset with status := keyset.status.deletedBySelf inTrans } []) := by
  have hcovers := h.covers
  have hdl : (if t.index = [] then 0 else t.count) = t.count := by
    split
    · next hnil => exact (count_of_null hcovers hnil).symm
    · rfl
  have hnone : decide (t.index ≠ []) = false → t.count = 0 := by
    intro hnil
    rw [decide_eq_false_iff_not, not_not] at hnil
    exact count_of_null hcovers hnil
  obtain ⟨j, hj, halloc, hroom⟩ := deletedAlloc_room
    (fun hne ↦ h.growth (of_decide_eq_true hne)) h.room hnone hcount
  have hguard : ¬(t.count ≥ 2 ^ 15 ∨ t.index.length < t.count ∨ t.keyset.length < t.count) := by
    have hindex := hcovers.index
    have hkeyset := hcovers.keyset
    omega
  have hsqllen : sqllen index = index := sqllen_of_mem (by omega) (by omega)
  refine ⟨j, hj, hroom, ?_⟩
  rw [addDeleted, if_neg (by decide)]
  dsimp only
  rw [hdl, if_neg hguard, halloc]
  dsimp only
  rw [if_neg (by omega), hsqllen, ← map_index_rows hcovers, SideTable.insertRow, h.tuples]
  rfl

theorem addDeleted_lists (h : DeletedInvariant t rows) {index : Nat} (hindex : index < 2 ^ 63)
    (hnew : rows index = none) (hcount : t.count < 20480) (inTrans : Bool) (keyset : KeySet) :
    ∃ t', addDeleted true inTrans index keyset t = some (true, t') ∧ t'.count = t.count + 1 ∧
      DeletedInvariant t' (Function.update rows index (some keyset.address)) := by
  obtain ⟨j, hj, hroom, heq⟩ := addDeleted_eq h hindex hcount inTrans keyset
  have hcovers := h.covers
  have hi : (t.rows.map SideRow.index).findIdx (fun d ↦ decide (index < sqlulen d)) ≤ t.count := by
    have hlen : (t.rows.map SideRow.index).length = t.count := by
      rw [List.length_map, length_rows hcovers]
    exact hlen ▸ List.findIdx_le_length
  have hfresh : ∀ r ∈ t.rows, r.index ≠ index := by
    intro r hr hindex
    have hlisted := (h.lists index r.keyset.address).2 ⟨r, hr, hindex, rfl⟩
    rw [hnew] at hlisted
    cases hlisted
  refine ⟨_, heq, rfl, ?_⟩
  have hrows := @rows_insertRow t _ index
    { keyset with status := keyset.status.deletedBySelf inTrans } [] (10 * 2 ^ j) hcovers hi
  rw [h.tuples] at hrows
  refine ⟨⟨covers_insertRow hcovers hi, hroom, ?_, ?_⟩, ?_, fun _ ↦ ⟨j, hj, rfl⟩, ?_⟩
  · rw [hrows, List.map_append, List.map_cons, List.map_take, List.map_drop]
    refine pairwise_insert h.ascending ?_ ?_
    · intro hmem
      obtain ⟨r, hr, hindex⟩ := List.mem_map.1 hmem
      exact hfresh r hr hindex
    · intro d hd
      obtain ⟨r, hr, rfl⟩ := List.mem_map.1 hd
      obtain ⟨hpos, hlt⟩ := h.numbers r hr
      have hsame : (sqlulen r.index : Int) = r.index := by
        rw [sqlulen]
        omega
      have hlt' : index < sqlulen r.index ↔ (index : Int) < r.index := by omega
      rw [decide_eq_true_iff]
      exact hlt'
  · intro row key
    rw [hrows]
    by_cases hrow : row = index
    · subst hrow
      rw [Function.update_self, Option.some_inj]
      constructor
      · intro hkey
        exact ⟨_, mem_insert.2 (Or.inl rfl), rfl, hkey⟩
      · rintro ⟨r, hr, hindex, hkey⟩
        rcases mem_insert.1 hr with rfl | hr
        · exact hkey
        · exact absurd hindex (hfresh r hr)
    · rw [Function.update_of_ne hrow, h.lists]
      constructor
      · rintro ⟨r, hr, hindex, hkey⟩
        exact ⟨r, mem_insert.2 (Or.inr hr), hindex, hkey⟩
      · rintro ⟨r, hr, hindex, hkey⟩
        rcases mem_insert.1 hr with rfl | hr
        · exact absurd hindex.symm hrow
        · exact ⟨r, hr, hindex, hkey⟩
  · rw [SideTable.insertRow, h.tuples]
    rfl
  · intro r hr
    rw [hrows] at hr
    rcases mem_insert.1 hr with rfl | hr
    · exact ⟨Int.natCast_nonneg index, show (index : Int) < 2 ^ 63 by omega⟩
    · exact h.numbers r hr

/-- One of the two numbers of a row is the one it is recorded by. -/
theorem hasNumber_iff {numRead : Nat} (hread : numRead < 2 ^ 63) {index : Int}
    (hindex : -2 ^ 63 ≤ index ∧ index < 2 ^ 63) {r : SideRow} (hr : 0 ≤ r.index ∧ r.index < 2 ^ 63) :
    SideRow.hasNumber (rowNumbers numRead index) r = true ↔ r.index = rowOf numRead index := by
  rw [SideRow.hasNumber, Bool.or_eq_true, decide_eq_true_iff, decide_eq_true_iff, rowNumbers, rowOf]
  split
  · rw [sqllen]
    omega
  · split
    · rw [sqllen]
      omega
    · omega

/-- A table without tuples stays one. -/
theorem removeRows_tuples {numbers : Int × Int} {key : Option KeySet} {rounds i : Nat} {t t' : SideTable}
    (htuples : t.tuples = none) (h : removeRows numbers key rounds i t = some t') :
    t'.tuples = none := by
  induction rounds generalizing i t with
  | zero => exact Option.some_inj.1 h ▸ htuples
  | succ rounds ih =>
    rw [removeRows] at h
    split at h
    · exact Option.some_inj.1 h ▸ htuples
    · obtain ⟨index, -, h⟩ := Option.bind_eq_some_iff.1 h
      split at h
      · obtain ⟨found, -, h⟩ := Option.bind_eq_some_iff.1 h
        split at h
        · exact Option.some_inj.1 h ▸ htuples
        · refine ih ?_ h
          rw [SideTable.removeRow, htuples]
          rfl
      · exact ih htuples h

theorem removeDeleted_lists (h : DeletedInvariant t rows) {numRead : Nat} (hread : numRead < 2 ^ 63)
    {index : Int} (hindex : -2 ^ 63 ≤ index ∧ index < 2 ^ 63) :
    ∃ t', removeDeleted numRead index t = some t' ∧
      DeletedInvariant t' (Function.update rows (rowOf numRead index) none) := by
  have hnumber := fun r hr ↦ @hasNumber_iff numRead hread index hindex r (h.numbers r hr)
  obtain ⟨t', hloop, hcovers, halloc, hrows⟩ :=
    @removeRows_rows t 0 (rowNumbers numRead index) none t.count h.covers (by omega)
  have hascending := List.pairwise_map.1 h.ascending
  have hapart : t.rows.IsChain fun x y ↦
      ¬(SideRow.hasNumber (rowNumbers numRead index) x = true ∧
        SideRow.hasNumber (rowNumbers numRead index) y = true) := by
    refine (hascending.imp_of_mem ?_).isChain
    rintro x y hx hy hlt ⟨hx', hy'⟩
    rw [hnumber x hx] at hx'
    rw [hnumber y hy, ← hx'] at hy'
    exact absurd hlt (by rw [hy']; exact lt_irrefl _)
  have hkey : SideRow.hasKey none = fun _ ↦ false := rfl
  rw [List.take_zero, List.nil_append, List.drop_zero, hkey,
    removeLoop_eq_iff.2 ((noNeighbours_none _ _).2 hapart), removeMatches_none] at hrows
  have hmem : ∀ r, r ∈ t'.rows ↔ r ∈ t.rows ∧ r.index ≠ rowOf numRead index := by
    intro r
    rw [hrows, List.mem_filter, Bool.not_eq_true', ← Bool.not_eq_true]
    exact and_congr_right fun hr ↦ not_congr (hnumber r hr)
  refine ⟨t', hloop, ⟨hcovers, ?_, ?_, ?_⟩, removeRows_tuples h.tuples hloop, ?_, ?_⟩
  · have hcount := length_rows hcovers
    have hle := List.length_filter_le
      (fun r ↦ !SideRow.hasNumber (rowNumbers numRead index) r) t.rows
    have hroom := h.room
    rw [← hrows, hcount, length_rows h.covers] at hle
    omega
  · rw [hrows]
    exact h.ascending.sublist (List.filter_sublist.map _)
  · intro row key
    by_cases hrow : row = rowOf numRead index
    · rw [hrow, Function.update_self]
      refine iff_of_false (fun hnone ↦ nomatch hnone) ?_
      rintro ⟨r, hr, hindex, -⟩
      exact ((hmem r).1 hr).2 hindex
    · rw [Function.update_of_ne hrow, h.lists]
      constructor
      · rintro ⟨r, hr, hindex, hkey⟩
        exact ⟨r, (hmem r).2 ⟨hr, hindex ▸ hrow⟩, hindex, hkey⟩
      · rintro ⟨r, hr, hindex, hkey⟩
        exact ⟨r, ((hmem r).1 hr).1, hindex, hkey⟩
  · intro hne
    by_cases hnil : t.index = []
    · rw [count_of_null h.covers hnil] at hloop
      exact absurd ((Option.some_inj.1 hloop) ▸ hnil) hne
    · rw [halloc]
      exact h.growth hnil
  · intro r hr
    exact h.numbers r ((hmem r).1 hr).1

/-- The rows of a table that is committed. -/
theorem rows_commitDeleted (h : t.Covers) :
    (commitDeleted t).rows = t.rows.map fun r ↦
      { r with keyset := { r.keyset with status := r.keyset.status.committed } } := by
  rw [commitDeleted]
  split
  · next hnil =>
    have hrows : t.rows = [] := by
      rw [← List.length_eq_zero_iff, length_rows h, count_of_null h hnil]
    rw [hrows]
    rfl
  · have hlen : ((t.keyset.take t.count).map fun k ↦
        ({ k with status := k.status.committed } : KeySet)).length = t.count := by
      rw [List.length_map, List.length_take]
      exact Nat.min_eq_left h.keyset
    rw [SideTable.rows, SideTable.rows, List.take_left' hlen, List.zip_map_right, List.zipWith_map_left,
      List.map_zipWith]
    rfl

theorem commitDeleted_covers (h : t.Covers) : (commitDeleted t).Covers := by
  rw [commitDeleted]
  split
  · exact h
  · refine ⟨h.index, ?_, h.tuples⟩
    dsimp only
    rw [List.length_append, List.length_map, List.length_take, Nat.min_eq_left h.keyset]
    exact Nat.le_add_right _ _

/-- Everything but the keys is as before. -/
theorem commitDeleted_frame (t : SideTable) : (commitDeleted t).alloc = t.alloc ∧
    (commitDeleted t).count = t.count ∧ (commitDeleted t).index = t.index ∧
    (commitDeleted t).tuples = t.tuples := by
  rw [commitDeleted]
  split
  · exact ⟨rfl, rfl, rfl, rfl⟩
  · exact ⟨rfl, rfl, rfl, rfl⟩

theorem commitDeleted_lists (h : DeletedInvariant t rows) :
    DeletedInvariant (commitDeleted t) rows := by
  obtain ⟨halloc, hcount, hindex, htuples⟩ := commitDeleted_frame t
  have hrows := rows_commitDeleted h.covers
  refine ⟨⟨commitDeleted_covers h.covers, ?_, ?_, ?_⟩, htuples.trans h.tuples, ?_, ?_⟩
  · rw [halloc, hcount]
    exact h.room
  · rw [hrows, List.map_map]
    exact h.ascending
  · intro row key
    rw [h.lists, hrows]
    constructor
    · rintro ⟨r, hr, hindex, hkey⟩
      exact ⟨_, List.mem_map_of_mem hr, hindex, hkey⟩
    · rintro ⟨r, hr, hindex, hkey⟩
      obtain ⟨r', hr', rfl⟩ := List.mem_map.1 hr
      exact ⟨r', hr', hindex, hkey⟩
  · rw [hindex, halloc]
    exact h.growth
  · intro r hr
    rw [hrows] at hr
    obtain ⟨r', hr', rfl⟩ := List.mem_map.1 hr
    exact h.numbers r' hr'

/-! ## Runs -/

variable {s s' : DeletedState} {op : DeletedStep}

/-- A step that fits comes to an end and keeps the table as it should be. -/
theorem step_lists (h : DeletedInvariant s.table rows) (hfits : s.Fits rows op) :
    ∃ s', s.step op = some s' ∧ DeletedInvariant s'.table (op.apply s.numRead rows) := by
  cases op with
  | add inTrans index keyset =>
    obtain ⟨hcursor, hindex, hnew, hcount⟩ := hfits
    obtain ⟨t', hadd, -, hlists⟩ := addDeleted_lists h hindex hnew hcount inTrans keyset
    refine ⟨{ s with table := t' }, ?_, hlists⟩
    rw [DeletedState.step, hcursor, hadd]
    rfl
  | remove index hindex =>
    obtain ⟨t', hremove, hlists⟩ := removeDeleted_lists h s.hread hindex
    refine ⟨{ s with table := t' }, ?_, hlists⟩
    rw [DeletedState.step, hremove]
    rfl
  | commit => exact ⟨_, rfl, commitDeleted_lists h⟩
  | fetch numRead hread => exact ⟨_, rfl, h⟩

end

/-- The states of a result, with the rows that are deleted, in runs whose steps all fit. -/
inductive DeletedState.Reaches (s₀ : DeletedState) : DeletedState → OwnDeleted → Prop
  | start : Reaches s₀ s₀ fun _ ↦ none
  | step {s s' rows op} : Reaches s₀ s rows → s.Fits rows op → s.step op = some s' →
      Reaches s₀ s' (op.apply s.numRead rows)

theorem invariant_empty : DeletedInvariant .empty fun _ ↦ none where
  covers := ⟨Nat.le_refl 0, Nat.le_refl 0, fun _ h ↦ absurd h (Option.not_mem_none _)⟩
  room := Nat.le_refl 0
  ascending := List.Pairwise.nil
  lists := by
    intro row key
    refine iff_of_false (fun h ↦ nomatch h) ?_
    rintro ⟨r, hr, -⟩
    exact absurd hr List.not_mem_nil
  tuples := rfl
  growth := fun h ↦ absurd rfl h
  numbers := fun _ hr ↦ nomatch hr

theorem reaches_invariant {s₀ s : DeletedState} {rows : OwnDeleted} (hstart : s₀.table = .empty)
    (h : s₀.Reaches s rows) : DeletedInvariant s.table rows := by
  induction h with
  | start => exact hstart ▸ invariant_empty
  | step hreach hfits hstep ih =>
    obtain ⟨s', hstep', hlists⟩ := step_lists ih hfits
    rw [hstep, Option.some_inj] at hstep'
    exact hstep' ▸ hlists

/-- In a run whose steps all fit the table lists the rows that are deleted, in every state, and the
next step that fits comes to an end. -/
theorem reaches_listsDeleted {s₀ s : DeletedState} {rows : OwnDeleted} (hstart : s₀.table = .empty)
    (h : s₀.Reaches s rows) :
    ListsDeleted s.table rows ∧ ∀ op, s.Fits rows op → (s.step op).isSome = true := by
  have hinv := reaches_invariant hstart h
  refine ⟨hinv.toListsDeleted, fun op hfits ↦ ?_⟩
  obtain ⟨s', hstep, -⟩ := step_lists hinv hfits
  rw [hstep]
  rfl

/-- A row that was added is deleted, another one is, and the first delete is rolled back. -/
theorem listsDeleted_rolledBack :
    ListsDeleted ⟨10, 1, [3, 12], [⟨RowStatus.none.deletedBySelf false, 0, 1, 0⟩,
        ⟨RowStatus.none.deletedBySelf true, 0, 2, 0⟩], none⟩
      (Function.update (Function.update (Function.update (fun _ ↦ none) 12 (some (0, 2, 0))) 3
        (some (0, 1, 0))) 12 none) := by
  let s₀ : DeletedState := ⟨true, 10, by decide, .empty⟩
  have hadded := @DeletedState.Reaches.step s₀ s₀ ⟨true, 10, by decide,
      ⟨10, 1, [12], [⟨RowStatus.none.deletedBySelf true, 0, 2, 0⟩], none⟩⟩ _
    (.add true 12 ⟨.none, 0, 2, 0⟩) .start ⟨rfl, by decide, rfl, by decide⟩ rfl
  have hfetched := @DeletedState.Reaches.step s₀ _ ⟨true, 10, by decide, ⟨10, 2, [3, 12],
      [⟨RowStatus.none.deletedBySelf false, 0, 1, 0⟩, ⟨RowStatus.none.deletedBySelf true, 0, 2, 0⟩],
      none⟩⟩ _
    (.add false 3 ⟨.none, 0, 1, 0⟩) hadded ⟨rfl, by decide, rfl, by decide⟩ rfl
  have hremoved := @DeletedState.Reaches.step s₀ _ ⟨true, 10, by decide, ⟨10, 1, [3, 12],
      [⟨RowStatus.none.deletedBySelf false, 0, 1, 0⟩, ⟨RowStatus.none.deletedBySelf true, 0, 2, 0⟩],
      none⟩⟩ _
    (.remove (-3) (by decide)) hfetched trivial rfl
  exact (reaches_listsDeleted rfl hremoved).1

/-! ## Too many rows -/

/-- Steps one after another, with what they do to the rows that are deleted. -/
def runSteps : List DeletedStep → DeletedState → OwnDeleted → Option (DeletedState × OwnDeleted)
  | [], s, rows => some (s, rows)
  | op :: ops, s, rows => (s.step op).bind fun s' ↦ runSteps ops s' (op.apply s.numRead rows)

theorem runSteps_append (ops ops' : List DeletedStep) (s : DeletedState) (rows : OwnDeleted) :
    runSteps (ops ++ ops') s rows =
      (runSteps ops s rows).bind fun r ↦ runSteps ops' r.1 r.2 := by
  induction ops generalizing s rows with
  | nil => rfl
  | cons op ops ih =>
    rw [List.cons_append, runSteps, runSteps, Option.bind_assoc]
    exact congrArg _ (funext fun s' ↦ ih s' _)

/-- The first `n` rows are deleted. -/
def deleteFirst (n : Nat) : List DeletedStep :=
  (List.range n).map fun i ↦ .add false i ⟨.none, 0, 1, 0⟩

/-- A result with a cursor. -/
def cursorState : DeletedState := ⟨true, 20481, by decide, .empty⟩

theorem deleteFirst_lists {n : Nat} (hn : n ≤ 20480) :
    ∃ s rows, runSteps (deleteFirst n) cursorState (fun _ ↦ none) = some (s, rows) ∧
      s.cursor = true ∧ s.table.count = n ∧ DeletedInvariant s.table rows ∧
      ∀ i : Nat, rows i = if i < n then some (0, 1, 0) else none := by
  induction n with
  | zero => exact ⟨_, _, rfl, rfl, rfl, invariant_empty, fun i ↦ rfl⟩
  | succ n ih =>
    obtain ⟨s, rows, hrun, hcursor, hcount, hinv, hrows⟩ := ih (Nat.le_of_succ_le hn)
    have hnew : rows n = none := by rw [hrows, if_neg (Nat.lt_irrefl n)]
    obtain ⟨t', hadd, hcount', hinv'⟩ := addDeleted_lists hinv (by omega) hnew (by omega) false
      ⟨.none, 0, 1, 0⟩
    refine ⟨{ s with table := t' }, _, ?_, hcursor, hcount'.trans (congrArg (· + 1) hcount), hinv', ?_⟩
    · rw [deleteFirst, List.range_succ, List.map_append, ← deleteFirst, runSteps_append, hrun,
        Option.bind_some, List.map_singleton, runSteps, DeletedState.step, hcursor, hadd]
      rfl
    · intro i
      by_cases hi : i = n
      · rw [hi, Function.update_self, if_pos (Nat.lt_succ_self n)]
        rfl
      · rw [Function.update_of_ne (by omega), hrows]
        by_cases hlt : i < n
        · rw [if_pos hlt, if_pos (by omega)]
        · rw [if_neg hlt, if_neg (by omega)]

/-- With the 20481st row the result is freed, and none of them is listed. -/
theorem not_listsDeleted_20481 :
    ¬∃ s rows, runSteps (deleteFirst 20481) cursorState (fun _ ↦ none) = some (s, rows) ∧
      ListsDeleted s.table rows := by
  rintro ⟨s, rows, hrun, hlists⟩
  obtain ⟨s', rows', hrun', hcursor, hcount, hinv, hrows⟩ := deleteFirst_lists (Nat.le_refl 20480)
  have hcovers := hinv.covers
  have hnull : s'.table.index ≠ [] := by
    intro hnil
    rw [count_of_null hcovers hnil] at hcount
    cases hcount
  have halloc : deletedAlloc (decide (s'.table.index ≠ [])) s'.table.alloc s'.table.count = none := by
    obtain ⟨j, hj, halloc⟩ := hinv.growth hnull
    have hroom := hinv.room
    have hle := (ten_mul_pow_le hj).1
    have htop : s'.table.alloc = 20480 := by omega
    rw [decide_eq_true hnull, htop, hcount]
    decide
  have hguard : ¬(s'.table.count ≥ 2 ^ 15 ∨ s'.table.index.length < s'.table.count ∨
      s'.table.keyset.length < s'.table.count) := by
    have hindex := hcovers.index
    have hkeyset := hcovers.keyset
    omega
  have hfreed : addDeleted true false 20480 ⟨.none, 0, 1, 0⟩ s'.table = some (false, .empty) := by
    rw [addDeleted, if_neg (by decide)]
    dsimp only
    rw [if_neg hnull, if_neg hguard, halloc]
  rw [deleteFirst, List.range_succ, List.map_append, ← deleteFirst, runSteps_append, hrun',
    Option.bind_some, List.map_singleton, runSteps, DeletedState.step, hcursor, hfreed,
    Option.map_some, Option.bind_some, runSteps, Option.some_inj, Prod.mk.injEq] at hrun
  have hfirst : rows 0 = some (0, 1, 0) := by
    rw [← hrun.2]
    exact (Function.update_of_ne (by decide) _ _).trans (hrows 0)
  obtain ⟨r, hr, -⟩ := (hlists.lists 0 _).1 hfirst
  rw [← hrun.1] at hr
  exact absurd hr List.not_mem_nil

end PsqlOdbc
