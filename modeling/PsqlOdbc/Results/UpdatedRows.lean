import Mathlib.Logic.Function.Basic
import PsqlOdbc.Results.TableGrowth
import PsqlOdbc.Results.TableRows

/-!
# The table of updated rows (`results.c`)

What the table says of the last update of each row, over the updates of a result.
-/

namespace PsqlOdbc

open Lib

/-! ## The last updates -/

/-- The last update of each row: its key, and its fields where these are kept. -/
abbrev OwnUpdated := Int → Option (KeySet × Option (List TupleField))

/-- What is found for a row, from the last entry on. -/
def SideTable.latest (t : SideTable) (index : Int) : Option (KeySet × Option (List TupleField)) :=
  (t.rows.reverse.find? fun r ↦ r.index = index).map fun r ↦ (r.keyset, r.tuple)

/-- What the table has to do with the updates: for every row the last one is found, all of its arrays
hold the entries that are counted, and there is room for these. -/
structure RecordsUpdates (t : SideTable) (rows : OwnUpdated) : Prop where
  covers : t.Covers
  room : t.count ≤ t.alloc
  latest : ∀ index, t.latest index = rows index

/-- And what it has to do with its own past. -/
structure UpdatedInvariant (keysetDriven : Bool) (t : SideTable) (rows : OwnUpdated) : Prop extends
    RecordsUpdates t rows where
  growth : t.alloc = 0 ∨ ∃ j ≤ 11, t.alloc = 10 * 2 ^ j
  tuples : t.tuples.isSome = true ↔ keysetDriven = false ∧ t.alloc ≠ 0

/-- A call of `AddUpdated`. -/
structure UpdateCall where
  cursor : Bool
  inTrans : Bool
  index : Int
  keyset : KeySet
  tuple : Option (List TupleField)

namespace UpdateCall

/-- The call. -/
def run (keysetDriven : Bool) (c : UpdateCall) (res : OwnRows) : Option OwnRows :=
  addUpdated c.cursor keysetDriven c.inTrans c.index c.keyset c.tuple res

/-- The key that is recorded. -/
def newKey (c : UpdateCall) : KeySet :=
  { c.keyset with status := c.keyset.status.updatedBySelf c.inTrans }

/-- What it should do to the last updates. -/
def apply (keysetDriven : Bool) (numFields : Nat) (c : UpdateCall) (rows : OwnUpdated) : OwnUpdated :=
  Function.update rows c.index
    (some (c.newKey, if keysetDriven then none else c.tuple.map (List.take numFields)))

/-- A row of a cursor that comes with its fields is updated in a transaction, or outside of one for the
first time and is no row behind the last one, among fewer than 20480 updates; or the cursor is
keyset-driven and the row is still stored where it was. -/
def Fits (keysetDriven : Bool) (c : UpdateCall) (rows : OwnUpdated) (res : OwnRows) : Prop :=
  c.cursor = true ∧ (∃ tuple, c.tuple = some tuple ∧ res.numFields ≤ tuple.length) ∧
    ((c.inTrans = true ∨ rows c.index = none ∧ c.index ≠ res.numTotalTuples) ∧
        res.updated.count < 20480 ∨
      c.inTrans = false ∧ keysetDriven = true ∧
        ∃ k tuple, rows c.index = some (k, tuple) ∧ k.blocknum = c.keyset.blocknum ∧
          k.offset = c.keyset.offset ∧ k.oid = c.keyset.oid)

end UpdateCall

section

variable {keysetDriven : Bool} {t : SideTable} {rows : OwnUpdated}

/-- The loop over the entries from the last on finds the last one. -/
theorem latest_eq (h : t.Covers) (index : Int) :
    t.latest index =
      ((t.lastEntry index).bind fun i ↦ t.rows[i]?).map fun r ↦ (r.keyset, r.tuple) := by
  have hlen := length_rows h
  have hfind := @find?_reverse_take _ t.rows (fun r ↦ r.index = index)
    (fun i ↦ t.index[i]? = some index) ?_ t.count (Nat.le_of_eq hlen.symm)
  · rw [List.take_of_length_le (Nat.le_of_eq hlen)] at hfind
    rw [SideTable.latest, SideTable.lastEntry, hfind]
  · intro i r hr
    obtain ⟨hi, -⟩ := List.getElem?_eq_some_iff.1 hr
    obtain ⟨index', keyset, tuple, hindex, -, hrow⟩ := rows_getElem? h (hlen ▸ hi)
    rw [hr, Option.some_inj] at hrow
    rw [hindex, hrow]
    exact decide_eq_decide.2 Option.some_inj

theorem lastEntry_some {index : Int} {i : Nat} (h : t.lastEntry index = some i) :
    i < t.count ∧ t.index[i]? = some index := by
  rw [SideTable.lastEntry] at h
  have hmem := List.mem_of_find?_eq_some h
  have hindex := List.find?_some h
  rw [List.mem_reverse, List.mem_range] at hmem
  exact ⟨hmem, of_decide_eq_true hindex⟩

theorem lastEntry_eq_none (h : t.Covers) {index : Int} :
    t.latest index = none ↔ t.lastEntry index = none := by
  rw [latest_eq h]
  cases hentry : t.lastEntry index with
  | none => exact iff_of_true rfl rfl
  | some i =>
    obtain ⟨_, _, _, -, -, hrow⟩ := rows_getElem? h (lastEntry_some hentry).1
    rw [Option.bind_some, hrow]
    exact iff_of_false (fun h ↦ nomatch h) fun h ↦ nomatch h

/-! ## Growth -/

/-- Where the tuples are kept and there are none yet, nothing is recorded. -/
theorem count_of_noTuples (h : UpdatedInvariant false t rows) (htuples : t.tuples = none) :
    t.count = 0 := by
  have halloc : t.alloc = 0 := by
    by_contra hne
    have hsome := h.tuples.2 ⟨rfl, hne⟩
    rw [htuples] at hsome
    cases hsome
  exact Nat.le_zero.1 (halloc ▸ h.room)

theorem rows_of_count (h : t.Covers) (hcount : t.count = 0) : t.rows = [] := by
  rw [← List.length_eq_zero_iff, length_rows h, hcount]

/-- What `enlargeUpdated` makes of a table changes no row. -/
theorem enlarged_rows (h : UpdatedInvariant keysetDriven t rows) (alloc : Nat) :
    SideTable.Covers { t with
      alloc, tuples := if keysetDriven then t.tuples else some (t.tuples.getD []) } ∧
    SideTable.rows { t with
      alloc, tuples := if keysetDriven then t.tuples else some (t.tuples.getD []) } = t.rows := by
  cases keysetDriven with
  | true => exact ⟨⟨h.covers.index, h.covers.keyset, h.covers.tuples⟩, rfl⟩
  | false =>
    cases htuples : t.tuples with
    | none =>
      have hcount := count_of_noTuples h htuples
      have hcovers : SideTable.Covers { t with alloc, tuples := some [] } := by
        refine ⟨h.covers.index, h.covers.keyset, fun cells _ ↦ ?_⟩
        exact Nat.le_trans (Nat.le_of_eq hcount) (Nat.zero_le _)
      exact ⟨hcovers, (rows_of_count hcovers hcount).trans (rows_of_count h.covers hcount).symm⟩
    | some cells =>
      refine ⟨⟨h.covers.index, h.covers.keyset, fun cells' hcells' ↦ ?_⟩, ?_⟩
      · exact Option.some_inj.1 hcells' ▸ h.covers.tuples cells htuples
      · rw [SideTable.rows, SideTable.rows, SideTable.tupleCells, SideTable.tupleCells, htuples]
        rfl

/-- Below 20480 entries the table is enlarged, and its rows are as before. -/
theorem enlargeUpdated_rows (h : UpdatedInvariant keysetDriven t rows) (hcount : t.count < 20480) :
    ∃ t', enlargeUpdated keysetDriven (t.count + 1) t = some t' ∧ t'.Covers ∧ t'.count = t.count ∧
      t'.rows = t.rows ∧ t'.count < t'.alloc ∧ (∃ j ≤ 11, t'.alloc = 10 * 2 ^ j) ∧
      t'.tuples.isSome = !keysetDriven := by
  obtain ⟨j, hj, halloc, hroom⟩ := updatedAlloc_room h.growth h.room hcount
  rw [enlargeUpdated, halloc, Option.map_some]
  by_cases hsame : 10 * 2 ^ j = t.alloc
  · rw [if_pos hsame]
    refine ⟨t, rfl, h.covers, rfl, rfl, hsame ▸ hroom, ⟨j, hj, hsame.symm⟩, ?_⟩
    have hne : t.alloc ≠ 0 := by omega
    rw [Bool.eq_iff_iff, h.tuples, Bool.not_eq_true']
    exact and_iff_left hne
  · rw [if_neg hsame]
    obtain ⟨hcovers, hrows⟩ := enlarged_rows h (10 * 2 ^ j)
    refine ⟨_, rfl, hcovers, rfl, hrows, hroom, ⟨j, hj, rfl⟩, ?_⟩
    cases keysetDriven with
    | true =>
      rw [if_pos rfl]
      refine Bool.eq_false_iff.2 fun hsome ↦ ?_
      cases (h.tuples.1 hsome).1
    | false => rfl

/-! ## The two ways of recording -/

/-- A new entry is found for its row, and what was found for the others. -/
theorem latest_append (h : t.Covers) {alloc : Nat} {index : Int} {keyset : KeySet}
    {tuple : List TupleField} (row : Int) :
    (t.insertRow alloc t.count index keyset tuple).latest row =
      Function.update t.latest index (some (keyset, t.tuples.map fun _ ↦ tuple)) row := by
  have hrows := @rows_insertRow t t.count index keyset tuple alloc h (Nat.le_refl _)
  have hlen := length_rows h
  rw [List.take_of_length_le (Nat.le_of_eq hlen), List.drop_eq_nil_of_le (Nat.le_of_eq hlen)] at hrows
  rw [SideTable.latest, hrows, List.reverse_concat, List.find?_cons]
  by_cases hrow : row = index
  · subst hrow
    rw [Function.update_self, decide_eq_true rfl]
    rfl
  · rw [Function.update_of_ne hrow, decide_eq_false (Ne.symm hrow)]
    rfl

/-- The key of one row is replaced. -/
theorem rows_setKey (t : SideTable) (i : Nat) (k : KeySet) :
    SideTable.rows { t with keyset := t.keyset.set i k } =
      t.rows.modify i fun r ↦ { r with keyset := k } := by
  have htuples : SideTable.tupleCells { t with keyset := t.keyset.set i k } = t.tupleCells := rfl
  apply List.ext_getElem?
  intro j
  rw [SideTable.rows, SideTable.rows, htuples, List.getElem?_modify, List.take_set]
  simp only [List.zip, List.getElem?_zipWith, List.getElem?_set]
  by_cases hij : i = j
  · subst hij
    grind
  · simp [hij]

theorem covers_setKey (h : t.Covers) (i : Nat) (k : KeySet) :
    SideTable.Covers { t with keyset := t.keyset.set i k } := by
  refine ⟨h.index, ?_, h.tuples⟩
  dsimp only
  rw [List.length_set]
  exact h.keyset

theorem tuple_of_none (htuples : t.tuples = none) {r : SideRow} (hr : r ∈ t.rows) :
    r.tuple = none := by
  obtain ⟨i, hi, rfl⟩ := List.mem_iff_getElem.1 hr
  simp only [SideTable.rows, List.getElem_zipWith, SideTable.tupleCells, htuples, Option.elim_none,
    List.getElem_take, List.getElem_replicate]

/-- Another key is found for the row of an entry, and what was found for the others. -/
theorem latest_setKey (h : t.Covers) {index : Int} {i : Nat} (hentry : t.lastEntry index = some i)
    {k k' : KeySet} {tuple : Option (List TupleField)} (hlatest : t.latest index = some (k, tuple))
    (row : Int) :
    SideTable.latest { t with keyset := t.keyset.set i k' } row =
      Function.update t.latest index (some (k', tuple)) row := by
  have hsame : SideTable.lastEntry { t with keyset := t.keyset.set i k' } row = t.lastEntry row := rfl
  rw [latest_eq (covers_setKey h i k'), hsame, rows_setKey]
  by_cases hrow : row = index
  · subst hrow
    rw [latest_eq h, hentry, Option.bind_some, Option.map_eq_some_iff] at hlatest
    obtain ⟨r, hr, hkey⟩ := hlatest
    rw [Prod.mk.injEq] at hkey
    rw [Function.update_self, hentry, Option.bind_some, List.getElem?_modify_eq, hr, ← hkey.2]
    rfl
  · rw [Function.update_of_ne hrow, latest_eq h]
    cases hentry' : t.lastEntry row with
    | none => rfl
    | some j =>
      have hne : i ≠ j := by
        rintro rfl
        have hindex := (lastEntry_some hentry).2
        rw [(lastEntry_some hentry').2, Option.some_inj] at hindex
        exact hrow hindex
      rw [Option.bind_some, Option.bind_some, List.getElem?_modify_ne _ _ hne]

variable {res : OwnRows} {c : UpdateCall} {tuple : List TupleField}

/-- A row for which there is no entry, or which is updated in a transaction, gets a new one. -/
theorem run_appends (h : UpdatedInvariant keysetDriven res.updated rows) (hcursor : c.cursor = true)
    (htuple : c.tuple = some tuple) (hfields : res.numFields ≤ tuple.length)
    (hnew : c.inTrans = true ∨ rows c.index = none ∧ c.index ≠ res.numTotalTuples)
    (hcount : res.updated.count < 20480) :
    ∃ res', c.run keysetDriven res = some res' ∧ res'.numFields = res.numFields ∧
      UpdatedInvariant keysetDriven res'.updated (c.apply keysetDriven res.numFields rows) := by
  obtain ⟨t, henlarge, hcovers, hcount', hrows, hroom, hgrowth, hsome⟩ := enlargeUpdated_rows h hcount
  have hguard : ¬((!c.cursor) = true ∨ res.updated.count > 0 ∧ res.updated.alloc = 0) := by
    have hle := h.room
    rw [hcursor]
    simp
    omega
  have hentry : (if c.inTrans = true then none else res.updated.lastEntry c.index) = none := by
    rcases hnew with htrans | ⟨hnone, -⟩
    · exact if_pos htrans
    · rw [← h.latest, lastEntry_eq_none h.covers] at hnone
      rw [hnone, ite_self]
  have hadded : ¬((!c.inTrans) = true ∧
      (if c.inTrans = true then none else res.updated.lastEntry c.index) = none ∧
      c.index = res.numTotalTuples) := by
    rintro ⟨htrans, -, hindex⟩
    rcases hnew with htrans' | ⟨-, hne⟩
    · rw [htrans'] at htrans
      cases htrans
    · exact hne hindex
  have htuples : replaceCachedRow t.count res.numFields tuple t.tuples =
      some (t.tuples.map (openGap t.count 0 (tuple.take res.numFields))) := by
    cases t.tuples with
    | none => rfl
    | some cells => exact if_neg (Nat.not_lt.2 hfields)
  have hmod : (t.count + 1) % 2 ^ 16 = t.count + 1 := by omega
  have hrun : c.run keysetDriven res = some { res with
      updated := t.insertRow t.alloc t.count c.index c.newKey (tuple.take res.numFields) } := by
    unfold UpdateCall.run addUpdated
    dsimp only
    rw [if_neg hguard, htuple]
    dsimp only
    rw [if_neg hadded, hentry]
    dsimp only
    rw [henlarge, Option.bind_some, if_neg (Nat.not_le.2 hroom), htuples, Option.map_some, hmod,
      SideTable.insertRow, Nat.sub_self]
    rfl
  refine ⟨_, hrun, rfl, ⟨covers_insertRow hcovers (Nat.le_refl _), hroom, fun index ↦ ?_⟩, Or.inr hgrowth,
    ?_⟩
  · rw [latest_append hcovers, UpdateCall.apply, htuple]
    have hlatest : t.latest = rows := by
      funext row
      rw [SideTable.latest, hrows]
      exact h.latest row
    have hkept : (t.tuples.map fun _ ↦ tuple.take res.numFields) =
        if keysetDriven = true then none else (some tuple).map (List.take res.numFields) := by
      cases htuples' : t.tuples with
      | none =>
        rw [htuples', Option.isSome_none] at hsome
        cases keysetDriven with
        | true => rfl
        | false => cases hsome
      | some cells =>
        rw [htuples', Option.isSome_some] at hsome
        cases keysetDriven with
        | true => cases hsome
        | false => rfl
    rw [hlatest, hkept]
  · rw [SideTable.insertRow, Option.isSome_map, hsome, Bool.not_eq_true']
    obtain ⟨j, -, halloc⟩ := hgrowth
    have hpos := Nat.two_pow_pos j
    exact (and_iff_left (show t.alloc ≠ 0 by omega)).symm

/-- Of a row that has an entry the status is stored, where the cursor is keyset-driven. -/
theorem run_overwrites (h : UpdatedInvariant true res.updated rows) (hcursor : c.cursor = true)
    (htuple : c.tuple = some tuple) (htrans : c.inTrans = false) {k : KeySet}
    {old : Option (List TupleField)} (hlatest : rows c.index = some (k, old))
    (hsame : k.blocknum = c.keyset.blocknum ∧ k.offset = c.keyset.offset ∧ k.oid = c.keyset.oid) :
    ∃ res', c.run true res = some res' ∧ res'.numFields = res.numFields ∧
      UpdatedInvariant true res'.updated (c.apply true res.numFields rows) := by
  have hguard : ¬((!c.cursor) = true ∨ res.updated.count > 0 ∧ res.updated.alloc = 0) := by
    have hle := h.room
    rw [hcursor]
    simp
    omega
  have hnone : res.updated.tuples = none := by
    refine Option.eq_none_iff_forall_ne_some.2 fun cells hcells ↦ ?_
    have hsome := h.tuples.1 (Option.isSome_iff_exists.2 ⟨cells, hcells⟩)
    cases hsome.1
  rw [← h.latest] at hlatest
  obtain ⟨i, hentry⟩ : ∃ i, res.updated.lastEntry c.index = some i := by
    refine Option.ne_none_iff_exists'.1 fun hnone ↦ ?_
    rw [(lastEntry_eq_none h.covers).2 hnone] at hlatest
    cases hlatest
  obtain ⟨index, keyset, tuple', -, hkeyset, hrow⟩ := rows_getElem? h.covers (lastEntry_some hentry).1
  have hread := hlatest
  rw [latest_eq h.covers, hentry, Option.bind_some, hrow, Option.map_some, Option.some_inj,
    Prod.mk.injEq] at hread
  dsimp only at hread
  have htuple' : tuple' = none := tuple_of_none hnone (List.mem_of_getElem? hrow)
  have hkey : ({ k with status := c.keyset.status.updatedBySelf false } : KeySet) = c.newKey := by
    rw [UpdateCall.newKey, htrans, hsame.1, hsame.2.1, hsame.2.2]
  have hadded : ¬((!c.inTrans) = true ∧
      (if c.inTrans = true then none else res.updated.lastEntry c.index) = none ∧
      c.index = res.numTotalTuples) := by
    rintro ⟨-, hnone, -⟩
    rw [htrans, if_neg Bool.false_ne_true, hentry] at hnone
    cases hnone
  have hrun : c.run true res = some { res with
      updated := { res.updated with keyset := res.updated.keyset.set i c.newKey } } := by
    unfold UpdateCall.run addUpdated
    dsimp only
    rw [if_neg hguard, htuple]
    dsimp only
    rw [if_neg hadded, htrans, if_neg Bool.false_ne_true, hentry]
    dsimp only
    rw [hnone, if_neg (by decide), hkeyset, Option.map_some, hread.1, hkey]
  refine ⟨_, hrun, rfl, ⟨covers_setKey h.covers i _, h.room, fun row ↦ ?_⟩, h.growth, h.tuples⟩
  have hlatest' : res.updated.latest = rows := funext h.latest
  rw [latest_setKey h.covers hentry hlatest row, hlatest', ← hread.2, htuple', UpdateCall.apply,
    if_pos rfl]

/-- A call that fits comes to an end and records its row. -/
theorem run_records (h : UpdatedInvariant keysetDriven res.updated rows)
    (hfits : c.Fits keysetDriven rows res) :
    ∃ res', c.run keysetDriven res = some res' ∧ res'.numFields = res.numFields ∧
      UpdatedInvariant keysetDriven res'.updated (c.apply keysetDriven res.numFields rows) := by
  obtain ⟨hcursor, ⟨tuple, htuple, hfields⟩, ⟨hnew, hcount⟩ | ⟨htrans, rfl, k, old, hlatest, hsame⟩⟩ :=
    hfits
  · exact run_appends h hcursor htuple hfields hnew hcount
  · exact run_overwrites h hcursor htuple htrans hlatest hsame

end

/-! ## Histories -/

/-- The tables of a result, with the last updates, in histories of calls that all fit; between these
whatever else there is of the result may change. -/
inductive Updates (keysetDriven : Bool) (numFields : Nat) : SideTable → OwnUpdated → Prop
  | start : Updates keysetDriven numFields .empty fun _ ↦ none
  | step {res res' : OwnRows} {rows : OwnUpdated} {c : UpdateCall} :
      Updates keysetDriven numFields res.updated rows → res.numFields = numFields →
      c.Fits keysetDriven rows res → c.run keysetDriven res = some res' →
      Updates keysetDriven numFields res'.updated (c.apply keysetDriven numFields rows)

theorem updatedInvariant_empty (keysetDriven : Bool) :
    UpdatedInvariant keysetDriven .empty fun _ ↦ none where
  covers := ⟨Nat.le_refl 0, Nat.le_refl 0, fun _ h ↦ absurd h (Option.not_mem_none _)⟩
  room := Nat.le_refl 0
  latest := fun _ ↦ rfl
  growth := Or.inl rfl
  tuples := iff_of_false (fun h ↦ nomatch h) fun h ↦ h.2 rfl

theorem updates_invariant {keysetDriven : Bool} {numFields : Nat} {t : SideTable} {rows : OwnUpdated}
    (h : Updates keysetDriven numFields t rows) : UpdatedInvariant keysetDriven t rows := by
  induction h with
  | start => exact updatedInvariant_empty keysetDriven
  | step hupdates hfields hfits hrun ih =>
    obtain ⟨res', hrun', -, hinv⟩ := run_records ih hfits
    rw [hrun, Option.some_inj] at hrun'
    rw [hrun', ← hfields]
    exact hinv

/-- In a history of calls that all fit the last update of every row is found, and the next call that
fits comes to an end. -/
theorem updates_recorded {keysetDriven : Bool} {numFields : Nat} {t : SideTable} {rows : OwnUpdated}
    (h : Updates keysetDriven numFields t rows) :
    RecordsUpdates t rows ∧ ∀ (res : OwnRows) (c : UpdateCall), res.updated = t →
      c.Fits keysetDriven rows res → (c.run keysetDriven res).isSome = true := by
  refine ⟨(updates_invariant h).toRecordsUpdates, fun res c htable hfits ↦ ?_⟩
  obtain ⟨res', hrun, -⟩ := run_records (htable ▸ updates_invariant h) hfits
  rw [hrun]
  rfl

/-- Two updates of a row in a transaction, of a cursor that keeps the fields. -/
theorem updates_recorded_twice :
    RecordsUpdates ⟨10, 2, [3, 3],
        [⟨RowStatus.none.updatedBySelf true, 0, 1, 0⟩, ⟨RowStatus.none.updatedBySelf true, 0, 2, 0⟩],
        some [[⟨1, some [0x61]⟩], [⟨1, some [0x62]⟩]]⟩
      (Function.update (Function.update (fun _ ↦ none) 3
          (some (⟨RowStatus.none.updatedBySelf true, 0, 1, 0⟩, some [⟨1, some [0x61]⟩]))) 3
        (some (⟨RowStatus.none.updatedBySelf true, 0, 2, 0⟩, some [⟨1, some [0x62]⟩]))) := by
  have hone := @Updates.step false 1 ⟨1, 5, 0, true, [], none, .empty⟩ ⟨1, 5, 0, true, [], none,
      ⟨10, 1, [3], [⟨RowStatus.none.updatedBySelf true, 0, 1, 0⟩], some [[⟨1, some [0x61]⟩]]⟩⟩ _
    ⟨true, true, 3, ⟨.none, 0, 1, 0⟩, some [⟨1, some [0x61]⟩]⟩ .start rfl
    ⟨rfl, ⟨_, rfl, by decide⟩, Or.inl ⟨Or.inl rfl, by decide⟩⟩ rfl
  have htwo := @Updates.step false 1 ⟨1, 5, 0, true, [], none,
      ⟨10, 1, [3], [⟨RowStatus.none.updatedBySelf true, 0, 1, 0⟩], some [[⟨1, some [0x61]⟩]]⟩⟩
    ⟨1, 5, 0, true, [], none, ⟨10, 2, [3, 3],
        [⟨RowStatus.none.updatedBySelf true, 0, 1, 0⟩, ⟨RowStatus.none.updatedBySelf true, 0, 2, 0⟩],
        some [[⟨1, some [0x61]⟩], [⟨1, some [0x62]⟩]]⟩⟩ _
    ⟨true, true, 3, ⟨.none, 0, 2, 0⟩, some [⟨1, some [0x62]⟩]⟩ hone rfl
    ⟨rfl, ⟨_, rfl, by decide⟩, Or.inl ⟨Or.inl rfl, by decide⟩⟩ rfl
  exact (updates_recorded htwo).1

/-- Calls one after another, and what they should do to the last updates. -/
def runCalls (keysetDriven : Bool) : List UpdateCall → OwnRows → OwnUpdated → Option (OwnRows × OwnUpdated)
  | [], res, rows => some (res, rows)
  | c :: cs, res, rows =>
    (c.run keysetDriven res).bind fun res' ↦
      runCalls keysetDriven cs res' (c.apply keysetDriven res.numFields rows)

/-- Outside of a transaction the second update of a row leaves the key of the first. -/
theorem not_recorded_twice : ¬∃ res rows,
    runCalls true [⟨true, false, 3, ⟨.none, 0, 1, 0⟩, some [⟨1, some [0x61]⟩]⟩,
        ⟨true, false, 3, ⟨.none, 0, 2, 0⟩, some [⟨1, some [0x62]⟩]⟩]
      ⟨1, 5, 0, true, [], none, .empty⟩ (fun _ ↦ none) = some (res, rows) ∧
    RecordsUpdates res.updated rows := by
  rintro ⟨res, rows, hrun, hrecords⟩
  have hlatest := hrecords.latest 3
  obtain ⟨rfl, rfl⟩ := Prod.mk.inj (Option.some_inj.1 hrun)
  exact absurd hlatest (by decide +kernel)

end PsqlOdbc
