import PsqlOdbc.Statement.FieldExpansion

/-!
# Stars are expanded in place

Where the array of the fields has room, a round of the loop leaves the fields behind the one that it
is at as they are, behind what has been put in its place (`AtFields.round`), and the loop ends with
the list in which all stars are expanded.  A field whose name only begins with a star is expanded as
well, and there are places that the array cannot have: its size is in 16 bits.
-/

namespace PsqlOdbc

open Lib

/-! ## Arrays -/

section

variable {α : Type*} {A B R S cells cells' : List α} {x y : α} {i : Int}

theorem cellAt_append : cellAt (A ++ x :: B) A.length = some x := by
  rw [cellAt, if_pos (Int.natCast_nonneg _), Int.toNat_natCast,
    List.getElem?_append_right (Nat.le_refl _), Nat.sub_self]
  rfl

theorem putCell_append : putCell (A ++ x :: B) A.length y = some (A ++ y :: B) := by
  have hlt : (A.length : Int).toNat < (A ++ x :: B).length := by
    rw [Int.toNat_natCast, List.length_append, List.length_cons]
    omega
  rw [putCell, if_pos ⟨Int.natCast_nonneg _, hlt⟩, Int.toNat_natCast,
    List.set_append_right _ _ (Nat.le_refl _), Nat.sub_self]
  rfl

theorem putCell_eq_some (h : putCell cells i x = some cells') :
    0 ≤ i ∧ i.toNat < cells.length ∧ cells' = cells.set i.toNat x := by
  rw [putCell] at h
  split at h
  · next hi => exact ⟨hi.1, hi.2, (Option.some_inj.1 h).symm⟩
  · cases h

theorem drop_set_self {n : Nat} (h : n < cells.length) (x : α) :
    (cells.set n x).drop n = x :: cells.drop (n + 1) := by
  rw [List.set_eq_take_append_cons_drop, if_pos h, List.drop_left' (List.length_take_of_le h.le)]

/-- The entries `R` are moved behind others that there is room for. -/
theorem moveUp_append {increased : Nat} (hA : (A.length : Int) = i + 1)
    (hroom : increased ≤ S.length) :
    ∃ G, G.length = increased ∧
      moveUp increased i R.length (A ++ R ++ S) = some (A ++ G ++ R ++ S.drop increased) := by
  induction R using List.reverseRecOn generalizing S with
  | nil =>
    refine ⟨S.take increased, List.length_take_of_le hroom, ?_⟩
    rw [List.append_nil, List.append_nil, List.append_assoc, List.take_append_drop]
    rfl
  | append_singleton R r ih =>
    have hplace : i + (R.length : Int) + 1 = ((A ++ R).length : Int) := by
      rw [List.length_append, Nat.cast_add, hA]
      omega
    have hstore : putCell (A ++ R ++ r :: S) (increased + ((A ++ R).length : Int)) r =
        some (A ++ R ++ (r :: S).set increased r) := by
      have hlt : (A ++ R).length + increased < (A ++ R ++ r :: S).length := by
        have hlength := @List.length_append _ (A ++ R) (r :: S)
        rw [List.length_cons] at hlength
        omega
      have hnat : ((increased : Int) + ((A ++ R).length : Int)).toNat =
          (A ++ R).length + increased := by omega
      rw [putCell, hnat, if_pos ⟨by omega, hlt⟩, List.set_append_right _ _ (Nat.le_add_right _ _),
        Nat.add_sub_cancel_left]
    obtain ⟨G, hG, hmove⟩ := @ih ((r :: S).set increased r) (by
      rw [List.length_set, List.length_cons]
      omega)
    refine ⟨G, hG, ?_⟩
    have hdrop : ((r :: S).set increased r).drop increased = r :: S.drop increased := by
      refine drop_set_self ?_ r
      rw [List.length_cons]
      omega
    rw [List.length_append, List.length_singleton, moveUp, hplace, ← List.append_assoc,
      List.append_assoc (A ++ R) [r] S, List.singleton_append, cellAt_append, Option.bind_some,
      hstore, Option.bind_some, hmove, hdrop]
    simp only [List.append_assoc, List.singleton_append]

end

/-! ## Counting columns -/

/-- The number of columns of some tables. -/
def columnCount (tables : List TableInfo) : Nat := (tables.map (·.columns.length)).sum

theorem columnCount_cons (ti : TableInfo) (tables : List TableInfo) :
    columnCount (ti :: tables) = ti.columns.length + columnCount tables := rfl

theorem TableInfo.cols_eq {ti : TableInfo} (h : ti.columns.length < 2 ^ 15) :
    ti.cols = ti.columns.length := by
  rw [TableInfo.cols, wrapSigned_of_lt (by decide) (by omega) (by omega)]

theorem totalCols_eq {tables : List TableInfo} (h : columnCount tables < 2 ^ 15) :
    totalCols tables = columnCount tables := by
  have hfold : ∀ (tables : List TableInfo) (total : Nat), total + columnCount tables < 2 ^ 15 →
      tables.foldl (fun total ti ↦ wrapSigned 16 (total + ti.cols)) (total : Int) =
        (total + columnCount tables : Nat) := by
    intro tables
    induction tables with
    | nil => exact fun total _ ↦ rfl
    | cons ti tables ih =>
      intro total h
      rw [columnCount_cons] at h ⊢
      rw [List.foldl_cons, TableInfo.cols_eq (by omega), ← Nat.cast_add,
        wrapSigned_of_lt (by decide) (by omega) (by omega), ih _ (by omega), Nat.add_assoc]
  rw [totalCols, ← Nat.zero_add (columnCount tables)]
  exact hfold tables 0 (by omega)

/-! ## Storing records -/

/-- The records of the columns of some tables. -/
def columnFields (fupdatable : Bool) (tables : List TableInfo) : List FieldInfo :=
  tables.flatMap fun ti ↦ ti.columns.map (columnField fupdatable ti)

theorem length_columnFields (fupdatable : Bool) (tables : List TableInfo) :
    (columnFields fupdatable tables).length = columnCount tables := by
  simp only [columnFields, columnCount, List.length_flatMap, List.length_map]

section

variable {fupdatable : Bool} {ti : TableInfo} {tables : List TableInfo}
  {rows : List ColumnRow} {A B C cells cells' : List (Option FieldInfo)} {i i' : Int}

theorem storeColumns_append (hB : B.length = rows.length) :
    storeColumns fupdatable ti rows A.length (A ++ B ++ C) =
      some (A ++ rows.map (fun row ↦ some (columnField fupdatable ti row)) ++ C) := by
  induction rows generalizing A B with
  | nil =>
    obtain rfl := List.length_eq_zero_iff.1 hB
    rfl
  | cons row rows ih =>
    obtain ⟨b, B, rfl⟩ := List.exists_cons_of_length_eq_add_one hB
    have hlength : (A.length : Int) + 1 =
        ((A ++ [some (columnField fupdatable ti row)]).length : Int) := by
      rw [List.length_append, List.length_singleton, Nat.cast_add, Nat.cast_one]
    have hih := @ih (A ++ [some (columnField fupdatable ti row)]) B (Nat.succ.inj hB)
    rw [storeColumns, List.append_assoc, List.cons_append, putCell_append, Option.bind_some,
      hlength]
    simp only [List.append_assoc, List.map_cons, List.cons_append] at hih ⊢
    exact hih

theorem storeTables_append (hB : B.length = columnCount tables) (h : columnCount tables < 2 ^ 15) :
    storeTables fupdatable tables A.length (A ++ B ++ C) =
      some ((A.length : Int) + columnCount tables,
        A ++ (columnFields fupdatable tables).map some ++ C) := by
  induction tables generalizing A B with
  | nil =>
    obtain rfl := List.length_eq_zero_iff.1 hB
    rfl
  | cons ti tables ih =>
    rw [columnCount_cons] at hB h ⊢
    have hcols : ti.cols = ti.columns.length := TableInfo.cols_eq (by omega)
    have htake : ti.columns.take ti.cols.toNat = ti.columns := by
      rw [hcols, Int.toNat_natCast, List.take_length]
    obtain ⟨B, B', rfl, hfirst⟩ : ∃ B₁ B₂, B = B₁ ++ B₂ ∧ B₁.length = ti.columns.length :=
      ⟨B.take ti.columns.length, B.drop ti.columns.length, (List.take_append_drop _ _).symm,
        List.length_take_of_le (by omega)⟩
    rw [List.length_append] at hB
    have hstore := @storeColumns_append fupdatable ti ti.columns A B (B' ++ C) hfirst
    have hih := @ih (A ++ ti.columns.map fun row ↦ some (columnField fupdatable ti row)) B'
      (by omega) (by omega)
    have hplace : (A.length : Int) + ti.columns.length =
        ((A ++ ti.columns.map fun row ↦ some (columnField fupdatable ti row)).length : Int) := by
      rw [List.length_append, List.length_map, Nat.cast_add]
    have hcells : A ++ (B ++ B') ++ C = A ++ B ++ (B' ++ C) := by simp only [List.append_assoc]
    rw [storeTables, htake, hcells, hstore, Option.bind_some, hcols, hplace, ← List.append_assoc,
      hih]
    simp only [columnFields, List.flatMap_cons, List.map_append, List.map_map, List.append_assoc,
      List.length_append, List.length_map, Nat.cast_add, Int.add_assoc]
    rfl

end

/-! ## Room -/

/-- The number of fields that an array of so many entries gets room for. -/
def capacity (allocated : Nat) : Nat :=
  lastDoubling (2 ^ 15) (if allocated = 0 then 32 else allocated)

/-- The array is as large as it is said to be. -/
structure HasArray (cap : Nat) (irdflds : IRDFields) : Prop where
  allocated : irdflds.allocated = irdflds.fi.length
  small : irdflds.fi.length < 2 ^ 15
  capacity : capacity irdflds.fi.length = cap

theorem capacity_of_pos {n : Nat} (h : n ≠ 0) : capacity n = lastDoubling (2 ^ 15) n := by
  rw [capacity, if_neg h]

theorem wrapUnsigned_of_lt {w n : Nat} (h : n < 2 ^ w) : wrapUnsigned w n = n := by
  have hlt : (n : Int) < 2 ^ w := by exact_mod_cast h
  rw [wrapUnsigned, Int.emod_eq_of_lt (Int.natCast_nonneg n) hlt]

/-- A larger array is allocated; its size may not be in 16 bits. -/
theorem allocateFields_eq {cap s : Nat} {irdflds : IRDFields} (h : HasArray cap irdflds)
    (hlt : irdflds.fi.length < s) (hs : s < 2 ^ 16) :
    ∃ n : Nat, allocateFields irdflds s = some
        { irdflds with
          fi := irdflds.fi ++ List.replicate (n - irdflds.fi.length) none
          allocated := wrapSigned 16 n } ∧
      s ≤ n ∧ n < 2 ^ 17 ∧ (n < 2 * s ∨ n = 32) ∧ (n < 2 ^ 15 → PsqlOdbc.capacity n = cap) ∧
        (s ≤ cap → n ≤ cap) := by
  have hsmall := h.small
  obtain ⟨a, hpos, ha, hstart, hlast, hinit⟩ : ∃ a : Nat, 0 < a ∧ a < 2 ^ 15 ∧
      (a = irdflds.fi.length ∨ a = 32) ∧ lastDoubling (2 ^ 15) a = cap ∧
      (if irdflds.allocated ≠ 0 then wrapUnsigned 64 irdflds.allocated else fldIncr) = a := by
    rw [h.allocated, wrapUnsigned_of_lt (by omega), ← h.capacity]
    by_cases hzero : irdflds.fi.length = 0
    · refine ⟨32, by decide, by decide, Or.inr rfl, ?_, ?_⟩
      · rw [PsqlOdbc.capacity, if_pos hzero]
      · rw [hzero]
        rfl
    · refine ⟨irdflds.fi.length, Nat.pos_of_ne_zero hzero, hsmall, Or.inl rfl, ?_, ?_⟩
      · rw [capacity_of_pos hzero]
      · rw [if_pos (by omega)]
  have hpowers : ∀ j ≤ 17, wrapUnsigned 64 ((a : Int) * 2 ^ j) = (a : Int) * 2 ^ j := by
    intro j hj
    have hle : a * 2 ^ j < 2 ^ 64 :=
      Nat.lt_of_lt_of_le (Nat.mul_lt_mul_of_pos_right ha (Nat.two_pow_pos j))
        (by rw [← Nat.pow_add]; exact Nat.pow_le_pow_right (by decide) (by omega))
    have hwrap := wrapUnsigned_of_lt hle
    rw [Nat.cast_mul, Nat.cast_pow, Nat.cast_ofNat] at hwrap
    exact hwrap
  obtain ⟨b, hb, -⟩ :=
    @doubleUntil_reaches (wrapUnsigned 64) s a 65 17 hpowers (by omega) (by decide)
  obtain ⟨n, rfl, hsn, han, hend, hkeep, hroom⟩ := @doubleUntil_lastDoubling (2 ^ 15) a
    (wrapUnsigned 64) s 65 b (fun x hx ↦ wrapUnsigned_of_lt (by omega)) hpos hb
  refine ⟨n, ?_, hsn, by omega, by omega, ?_, ?_⟩
  · have hnot : ¬wrapUnsigned 64 (s : Int) ≤ wrapUnsigned 64 irdflds.allocated := by
      rw [h.allocated, wrapUnsigned_of_lt (by omega), wrapUnsigned_of_lt (by omega)]
      omega
    rw [allocateFields, if_neg hnot]
    simp only [hinit]
    rw [wrapUnsigned_of_lt (show s < 2 ^ 64 by omega), hb]
    simp only
    rw [if_neg (by omega), Int.toNat_natCast, List.take_of_length_le (by omega)]
  · intro hn
    rw [capacity_of_pos (by omega), hkeep hn, hlast]
  · intro hcap
    rw [← hlast] at hcap ⊢
    exact hroom hcap

theorem HasArray.cap_lt {cap : Nat} {irdflds : IRDFields} (h : HasArray cap irdflds) :
    cap < 2 ^ 15 := by
  rw [← h.capacity, PsqlOdbc.capacity]
  refine lastDoubling_lt ?_
  have hsmall := h.small
  split <;> omega

theorem HasArray.length_le {cap : Nat} {irdflds : IRDFields} (h : HasArray cap irdflds) :
    irdflds.fi.length ≤ cap := by
  rw [← h.capacity, PsqlOdbc.capacity]
  split
  · next hzero => exact hzero ▸ Nat.zero_le _
  · exact le_lastDoubling _ _

/-- There is room for the columns up to the last number. -/
theorem roomForColumns_of_le {cap nf increased : Nat} {irdflds : IRDFields}
    (h : HasArray cap irdflds) (hnf : irdflds.nfields = nf) (hle : nf + increased ≤ cap) :
    ∃ irdflds' extra, roomForColumns irdflds increased = some irdflds' ∧ HasArray cap irdflds' ∧
      irdflds'.nfields = nf ∧ irdflds'.fi = irdflds.fi ++ extra ∧
        nf + increased ≤ irdflds'.fi.length := by
  have hcap := h.cap_lt
  have hsize : wrapSigned 32 (irdflds.nfields + increased) = ((nf + increased : Nat) : Int) := by
    rw [hnf, wrapSigned_of_lt (by decide) (by omega) (by omega), Nat.cast_add]
  rw [roomForColumns, hsize, h.allocated]
  by_cases hlt : irdflds.fi.length < nf + increased
  · obtain ⟨n, hn, hsn, hlarge, -, hkeep, hroom⟩ := allocateFields_eq h hlt (by omega)
    have hncap := hroom hle
    rw [if_pos (Int.ofNat_lt.2 hlt), hn]
    refine ⟨_, _, rfl, ⟨?_, ?_, ?_⟩, hnf, rfl, ?_⟩
    · dsimp only
      rw [wrapSigned_of_lt (by decide) (by omega) (by omega), List.length_append,
        List.length_replicate]
      omega
    · rw [List.length_append, List.length_replicate]
      omega
    · rw [List.length_append, List.length_replicate, Nat.add_sub_cancel' (by omega)]
      exact hkeep (by omega)
    · rw [List.length_append, List.length_replicate]
      omega
  · rw [if_neg fun h ↦ hlt (Int.ofNat_lt.1 h)]
    exact ⟨irdflds, [], rfl, h, hnf, (List.append_nil _).symm, Nat.not_lt.1 hlt⟩

theorem roomForColumns_nfields {increased : Int} {irdflds irdflds' : IRDFields}
    (h : roomForColumns irdflds increased = some irdflds') :
    irdflds'.nfields = irdflds.nfields := by
  rw [roomForColumns] at h
  split at h
  · rw [allocateFields] at h
    split at h
    · obtain rfl := Option.some_inj.1 h
      rfl
    · dsimp only at h
      split at h
      · cases h
      · split at h
        · cases h
        · obtain rfl := Option.some_inj.1 h
          rfl
  · obtain rfl := Option.some_inj.1 h
    rfl

/-- If what is counted afterwards fits into the array, it has been allocated. -/
theorem roomForColumns_fits {cap nf : Nat} {increased : Int} {irdflds irdflds' : IRDFields}
    (h : HasArray cap irdflds) (hnf : irdflds.nfields = nf) (hsmall : nf < 2 ^ 15)
    (hlow : -2 ^ 15 ≤ increased) (hhigh : increased < 2 ^ 15)
    (hroom : roomForColumns irdflds increased = some irdflds')
    (hfits : wrapUnsigned 32 (nf + increased) ≤ irdflds'.allocated) :
    HasArray cap irdflds' ∧ irdflds'.nfields = nf ∧
      ∀ cell ∈ irdflds'.fi, cell ∈ irdflds.fi ∨ cell = none := by
  have hsize : wrapSigned 32 (irdflds.nfields + increased) = nf + increased := by
    rw [hnf, wrapSigned_of_lt (by decide) (by omega) (by omega)]
  rw [roomForColumns, hsize, h.allocated] at hroom
  by_cases hlt : (irdflds.fi.length : Int) < nf + increased
  · obtain ⟨s, hs⟩ : ∃ s : Nat, (nf : Int) + increased = s :=
      ⟨((nf : Int) + increased).toNat, by omega⟩
    rw [if_pos hlt, hs] at hroom
    rw [hs, wrapUnsigned_of_lt (by omega)] at hfits
    obtain ⟨n, hn, hsn, hlarge, hend, hkeep, -⟩ :=
      allocateFields_eq h (show irdflds.fi.length < s by omega) (by omega)
    rw [hn] at hroom
    obtain rfl := Option.some_inj.1 hroom
    dsimp only at hfits
    -- A size that is not in 16 bits is too small for the fields.
    have hn15 : n < 2 ^ 15 := by
      by_contra hno
      rw [wrapSigned, Int.emod_def] at hfits
      norm_num at hfits
      omega
    have hlength : (irdflds.fi ++ List.replicate (n - irdflds.fi.length) none).length = n := by
      rw [List.length_append, List.length_replicate]
      omega
    refine ⟨⟨?_, ?_, ?_⟩, hnf, ?_⟩
    · dsimp only
      rw [wrapSigned_of_lt (by decide) (by omega) (by omega), hlength]
    · dsimp only
      rw [hlength]
      exact hn15
    · dsimp only
      rw [hlength]
      exact hkeep hn15
    · intro cell hcell
      rcases List.mem_append.1 hcell with hcell | hcell
      · exact Or.inl hcell
      · exact Or.inr (List.eq_of_mem_replicate hcell)
  · rw [if_neg hlt] at hroom
    obtain rfl := Option.some_inj.1 hroom
    exact ⟨h, hnf, fun cell hcell ↦ Or.inl hcell⟩

/-! ## Rounds that have room -/

section

variable {tables : List TableInfo} {updatable parse : Bool} {irdflds : IRDFields}
  {A B R spare : List (Option FieldInfo)} {f : FieldInfo}

/-- A field that is not expanded is resolved where it is. -/
theorem fieldRound_plain (hfi : irdflds.fi = A ++ some f :: B) (h : f.expands = false) :
    fieldRound tables updatable { i := A.length, irdflds := irdflds, parse := parse } =
      some
        { i := A.length + 1
          irdflds := { irdflds with fi := A ++ some (resolveField tables updatable f).1 :: B }
          parse := parse && (resolveField tables updatable f).2 } := by
  simp only [fieldRound, hfi, cellAt_append, putCell_append, h, Option.bind_eq_bind,
    Option.bind_some, Bool.false_eq_true, if_false]

theorem columnCount_starTables (hne : tables ≠ []) (f : FieldInfo) :
    0 < columnCount (f.starTables tables) := by
  have hpos : ∀ ti : TableInfo, 0 < ti.columns.length := fun ti ↦
    List.length_pos_iff.2 ti.columns_ne
  rw [FieldInfo.starTables]
  split
  · next ti _ => exact Nat.add_pos_left (hpos ti) _
  · obtain ⟨ti, tables, rfl⟩ := List.exists_cons_of_ne_nil hne
    exact Nat.add_pos_left (hpos ti) _

/-- A field that is expanded has the columns in its place, and what is behind it is behind them. -/
theorem fieldRound_star {cap : Nat} (h : HasArray cap irdflds) (hne : tables ≠ [])
    (hfi : irdflds.fi = A ++ some f :: R ++ spare)
    (hnf : irdflds.nfields = (A.length + 1 + R.length : Nat))
    (hexpands : f.expands = true)
    (hle : A.length + columnCount (f.starTables tables) + R.length ≤ cap) :
    ∃ irdflds' spare',
      fieldRound tables updatable { i := A.length, irdflds := irdflds, parse := parse } =
        some
          { i := A.length + columnCount (f.starTables tables)
            irdflds := irdflds'
            parse := parse } ∧
      HasArray cap irdflds' ∧
      irdflds'.nfields = (A.length + columnCount (f.starTables tables) + R.length : Nat) ∧
      irdflds'.fi =
        A ++ (columnFields (fieldUpdatable updatable f) (f.starTables tables)).map some ++
          R ++ spare' := by
  have hcap := h.cap_lt
  have hpos := columnCount_starTables hne f
  obtain ⟨increased, hincreased⟩ : ∃ n, columnCount (f.starTables tables) = n + 1 :=
    ⟨_, (Nat.sub_add_cancel hpos).symm⟩
  have hsmall : columnCount (f.starTables tables) < 2 ^ 15 := by omega
  have hcols : wrapSigned 16 (totalCols (f.starTables tables) - 1) = increased := by
    rw [totalCols_eq (by omega), wrapSigned_of_lt (by decide) (by omega) (by omega)]
    omega
  -- The star, as it is when the loop has set its flag.
  obtain ⟨star, hstar, hti⟩ : ∃ star, star = { f with updatable := fieldUpdatable updatable f } ∧
      star.ti = f.ti := ⟨_, rfl, rfl⟩
  have hset : putCell (A ++ some f :: R ++ spare) A.length (some star) =
      some (A ++ some star :: R ++ spare) := by
    rw [List.append_assoc, List.cons_append, putCell_append, List.append_assoc, List.cons_append]
  have hentry : cellAt (A ++ some f :: R ++ spare) A.length = some (some f) := by
    rw [List.append_assoc, List.cons_append, cellAt_append]
  have hlength : (A ++ some star :: R ++ spare).length = irdflds.fi.length := by
    rw [hfi]
    simp only [List.length_append, List.length_cons]
  have hset' : HasArray cap { irdflds with fi := A ++ some star :: R ++ spare } :=
    ⟨by rw [h.allocated, ← hlength], by rw [hlength]; exact h.small,
      by rw [hlength]; exact h.capacity⟩
  obtain ⟨irdflds', extra, hroom, harray, hnf', hfi', hfits⟩ :=
    roomForColumns_of_le hset' hnf (show A.length + 1 + R.length + increased ≤ cap by omega)
  have hmoves : (wrapSigned 32 ((A.length + 1 + R.length : Nat) : Int) - 1 -
      (A.length : Int)).toNat = R.length := by
    rw [wrapSigned_of_lt (by decide) (by omega) (by omega)]
    omega
  have hcells : irdflds'.fi = A ++ [some star] ++ R ++ (spare ++ extra) := by
    rw [hfi']
    simp only [List.append_assoc, List.cons_append, List.nil_append]
  rw [hcells] at hfits
  simp only [List.length_append, List.length_singleton] at hfits
  obtain ⟨G, hG, hmove⟩ := @moveUp_append _ (A ++ [some star]) R (spare ++ extra) A.length increased
    (by rw [List.length_append, List.length_singleton, Nat.cast_add, Nat.cast_one])
    (by rw [List.length_append]; omega)
  have hmoved : A ++ [some star] ++ G ++ R ++ (spare ++ extra).drop increased =
      A ++ (some star :: G) ++ (R ++ (spare ++ extra).drop increased) := by
    simp only [List.append_assoc, List.cons_append, List.nil_append]
  have hstar' : cellAt (A ++ (some star :: G) ++ (R ++ (spare ++ extra).drop increased)) A.length =
      some (some star) := by
    rw [List.append_assoc, List.cons_append, cellAt_append]
  have hnamed : namedTables tables f
      (A ++ (some star :: G) ++ (R ++ (spare ++ extra).drop increased)) A.length =
        some (f.starTables tables) := by
    rw [namedTables, FieldInfo.starTables, hstar', Option.bind_some, Option.bind_some, hti]
    cases f.ti with
    | none => rfl
    | some ti => rfl
  have hstore := @storeTables_append (fieldUpdatable updatable f) (f.starTables tables) A
    (some star :: G) (R ++ (spare ++ extra).drop increased)
    (by rw [List.length_cons, hG, hincreased]) hsmall
  have hcount : wrapUnsigned 32 (((A.length + 1 + R.length : Nat) : Int) + increased) =
      ((A.length + columnCount (f.starTables tables) + R.length : Nat) : Int) := by
    rw [← Nat.cast_add, wrapUnsigned_of_lt (by omega)]
    omega
  have hlength' : (A ++
      (columnFields (fieldUpdatable updatable f) (f.starTables tables)).map some ++
      (R ++ (spare ++ extra).drop increased)).length = irdflds'.fi.length := by
    rw [hcells]
    simp only [List.length_append, List.length_map, List.length_drop, length_columnFields,
      List.length_singleton]
    omega
  refine ⟨{ irdflds' with
      nfields := ((A.length + columnCount (f.starTables tables) + R.length : Nat) : Int)
      fi := A ++ (columnFields (fieldUpdatable updatable f) (f.starTables tables)).map some ++
        (R ++ (spare ++ extra).drop increased) }, (spare ++ extra).drop increased, ?_, ?_, rfl,
    (List.append_assoc _ _ _).symm⟩
  · simp only [fieldRound, hfi, hentry, Option.bind_eq_bind, Option.bind_some, hexpands, if_true,
      ← hstar, hset, expandField, hcols, hroom, hmoves, hcells, hmove, hmoved, hnamed, hstore, hnf',
      hcount]
  · exact ⟨by rw [hlength', harray.allocated], by rw [hlength']; exact harray.small,
      by rw [hlength']; exact harray.capacity⟩

end

/-! ## The list that is expected -/

/-- A star, qualified or not. -/
def FieldInfo.IsStar (fi : FieldInfo) : Prop := fi.isValue = false ∧ fi.columnName = some [0x2a]

instance (fi : FieldInfo) : Decidable fi.IsStar := inferInstanceAs (Decidable (_ ∧ _))

/-- What stands for a field: the columns of its tables for a star, and else the field. -/
def expandedField (tables : List TableInfo) (updatable : Bool) (fi : FieldInfo) : List FieldInfo :=
  if fi.IsStar then columnFields (fieldUpdatable updatable fi) (fi.starTables tables)
  else [(resolveField tables updatable fi).1]

/-- The list of the fields in which all stars are expanded. -/
def expandedFields (tables : List TableInfo) (updatable : Bool) (fields : List FieldInfo) :
    List FieldInfo :=
  fields.flatMap (expandedField tables updatable)

theorem FieldInfo.IsStar.expands {fi : FieldInfo} (h : fi.IsStar) : fi.expands = true := by
  rw [FieldInfo.expands, h.1, h.2]
  rfl

/-- The loop has put the beginning of the list in the places that it has passed, and the array has
room for all fields. -/
structure InPlace (expected : List FieldInfo) (s : FieldLoop) : Prop where
  fits : s.irdflds.nfields ≤ s.irdflds.allocated
  passed : s.irdflds.fi.take s.i.toNat = (expected.take s.i.toNat).map some

/-- The loop goes from one state to the last one, all of them in place. -/
inductive Expands (tables : List TableInfo) (updatable : Bool) (expected : List FieldInfo) :
    FieldLoop → FieldLoop → Prop
  | done {s : FieldLoop} (h : InPlace expected s) (hend : wrapSigned 32 s.irdflds.nfields ≤ s.i) :
      Expands tables updatable expected s s
  | round {s s' t : FieldLoop} (h : InPlace expected s)
      (hlt : s.i < wrapSigned 32 s.irdflds.nfields)
      (hround : fieldRound tables updatable s = some s')
      (hrest : Expands tables updatable expected s' t) : Expands tables updatable expected s t

/-- The fields of a parsed statement, in their array, and its tables. -/
structure ParsedFields where
  tables : List TableInfo
  fields : List FieldInfo
  spare : List (Option FieldInfo)
  tables_ne : tables ≠ []
  parsing : ∀ f ∈ fields, f.flag = fieldParsing
  attnum : ∀ f, some f ∈ fields.map some ++ spare → f.attnum = 0
  small : fields.length + spare.length < 2 ^ 15

namespace ParsedFields

/-- The loop at its beginning. -/
def start (p : ParsedFields) (parse : Bool) : FieldLoop where
  i := 0
  irdflds :=
    { nfields := p.fields.length
      allocated := p.fields.length + p.spare.length
      fi := p.fields.map some ++ p.spare }
  parse := parse

/-- The list of the fields in which all stars are expanded. -/
def expected (p : ParsedFields) (updatable : Bool) : List FieldInfo :=
  expandedFields p.tables updatable p.fields

/-- The loop ends with this list, which it makes in place, and with its length. -/
def ExpandsRight (p : ParsedFields) (updatable parse : Bool) : Prop :=
  ∃ t, Expands p.tables updatable (p.expected updatable) (p.start parse) t ∧
    t.irdflds.nfields = (p.expected updatable).length ∧
      t.irdflds.fi.take (p.expected updatable).length = (p.expected updatable).map some

end ParsedFields

/-! ## Room is enough -/

theorem length_le_expandedFields {tables : List TableInfo} (hne : tables ≠ []) (updatable : Bool)
    (fields : List FieldInfo) :
    fields.length ≤ (expandedFields tables updatable fields).length := by
  induction fields with
  | nil => exact Nat.le_refl 0
  | cons f fields ih =>
    have hfirst : 0 < (expandedField tables updatable f).length := by
      rw [expandedField]
      split
      · rw [length_columnFields]
        exact columnCount_starTables hne f
      · exact Nat.one_pos
    rw [expandedFields, List.flatMap_cons, List.length_append, List.length_cons]
    rw [expandedFields] at ih
    omega

theorem take_map_append {α β : Type*} (g : α → β) (l : List α) (l' : List β) :
    (l.map g ++ l').take l.length = l.map g :=
  List.take_left' (List.length_map g)

/-- The loop has passed some fields and has others before it, in an array that gets room for as many
as `cap`. -/
structure AtFields (cap : Nat) (done rest : List FieldInfo) (s : FieldLoop) : Prop where
  array : HasArray cap s.irdflds
  place : s.i = done.length
  fields : ∃ spare, s.irdflds.fi = done.map some ++ (rest.map some ++ spare)
  count : s.irdflds.nfields = (done.length + rest.length : Nat)

namespace AtFields

variable {tables : List TableInfo} {updatable : Bool} {cap : Nat}
  {expected done rest : List FieldInfo} {f : FieldInfo} {s : FieldLoop}

theorem length_le (h : AtFields cap done rest s) :
    done.length + rest.length ≤ s.irdflds.fi.length := by
  obtain ⟨spare, hfi⟩ := h.fields
  rw [hfi]
  simp only [List.length_append, List.length_map]
  omega

theorem count_eq (h : AtFields cap done rest s) :
    wrapSigned 32 s.irdflds.nfields = (done.length + rest.length : Nat) := by
  have hle := h.length_le
  have hsmall := h.array.small
  rw [h.count, wrapSigned_of_lt (by decide) (by omega) (by omega)]

theorem inPlace (h : AtFields cap done rest s) (hbegin : done <+: expected) :
    InPlace expected s := by
  obtain ⟨spare, hfi⟩ := h.fields
  obtain ⟨later, rfl⟩ := hbegin
  constructor
  · rw [h.count, h.array.allocated]
    exact Int.ofNat_le.2 h.length_le
  · rw [hfi, h.place, Int.toNat_natCast, take_map_append, List.take_left]

/-- A round of the loop. -/
theorem round (h : AtFields cap done (f :: rest) s) (hne : tables ≠ [])
    (hstar : f.expands = true → f.IsStar)
    (hcap : done.length + (expandedField tables updatable f).length + rest.length ≤ cap) :
    ∃ s', fieldRound tables updatable s = some s' ∧
      AtFields cap (done ++ expandedField tables updatable f) rest s' := by
  obtain ⟨i, irdflds, parse⟩ := s
  obtain ⟨harray, rfl, ⟨spare, hfi⟩, hcount⟩ := h
  dsimp only at harray hfi hcount
  rw [List.map_cons, List.cons_append] at hfi
  cases hexpands : f.expands with
  | false =>
    have hno : ¬f.IsStar := fun h ↦ Bool.noConfusion (hexpands.symm.trans h.expands)
    have hfield : expandedField tables updatable f = [(resolveField tables updatable f).1] :=
      if_neg hno
    have hround := @fieldRound_plain tables updatable parse irdflds (done.map some)
      (rest.map some ++ spare) f hfi hexpands
    rw [List.length_map] at hround
    have hlength : (done.map some ++ some (resolveField tables updatable f).1 ::
        (rest.map some ++ spare)).length = irdflds.fi.length := by
      rw [hfi]
      simp only [List.length_append, List.length_cons]
    refine ⟨_, hround, ⟨?_, ?_, ?_⟩, ?_, ⟨spare, ?_⟩, ?_⟩
    · dsimp only
      rw [hlength, harray.allocated]
    · dsimp only
      rw [hlength]
      exact harray.small
    · dsimp only
      rw [hlength]
      exact harray.capacity
    · rw [hfield, List.length_append, List.length_singleton, Nat.cast_add, Nat.cast_one]
    · rw [hfield, List.map_append, List.append_assoc]
      rfl
    · rw [hfield, List.length_append, List.length_singleton]
      dsimp only
      rw [hcount, List.length_cons]
      omega
  | true =>
    have hfield : expandedField tables updatable f =
        columnFields (fieldUpdatable updatable f) (f.starTables tables) := if_pos (hstar hexpands)
    rw [hfield, length_columnFields] at hcap
    obtain ⟨irdflds', spare', hround, harray', hcount', hfi'⟩ :=
      @fieldRound_star tables updatable parse irdflds (done.map some) (rest.map some) spare f cap
        harray hne (by rw [hfi, List.append_assoc, List.cons_append])
        (by rw [hcount, List.length_cons, List.length_map, List.length_map]; omega) hexpands
        (by rwa [List.length_map, List.length_map])
    rw [List.length_map] at hround hcount'
    rw [List.length_map] at hcount'
    refine ⟨_, hround, harray', ?_, ⟨spare', ?_⟩, ?_⟩
    · rw [hfield, List.length_append, length_columnFields, Nat.cast_add]
    · rw [hfield, List.map_append, hfi', List.append_assoc, List.append_assoc]
    · rw [hfield, List.length_append, length_columnFields]
      exact hcount'

/-- The loop ends with the list that is expected, if there is room for it. -/
theorem expands (h : AtFields cap done rest s) (hne : tables ≠ [])
    (hstars : ∀ f ∈ rest, f.expands = true → f.IsStar)
    (hexpected : expected = done ++ expandedFields tables updatable rest)
    (hcap : expected.length ≤ cap) :
    ∃ t, Expands tables updatable expected s t ∧ t.irdflds.nfields = expected.length ∧
      t.irdflds.fi.take expected.length = expected.map some := by
  induction rest generalizing done s with
  | nil =>
    obtain rfl : expected = done := hexpected.trans (List.append_nil done)
    obtain ⟨spare, hfi⟩ := h.fields
    refine ⟨s, .done (h.inPlace (List.prefix_refl _)) ?_, h.count, ?_⟩
    · rw [h.count_eq, h.place]
      exact Int.le_refl _
    · rw [hfi, take_map_append]
  | cons f rest ih =>
    have hsplit : expected = done ++ expandedField tables updatable f ++
        expandedFields tables updatable rest := by
      rw [hexpected, List.append_assoc]
      rfl
    have hlength := length_le_expandedFields hne updatable rest
    have hroom : done.length + (expandedField tables updatable f).length + rest.length ≤ cap := by
      rw [hsplit, List.length_append, List.length_append] at hcap
      omega
    obtain ⟨s', hround, hnext⟩ := h.round hne (hstars f (List.mem_cons_self ..)) hroom
    obtain ⟨t, hrun, hend⟩ :=
      ih hnext (fun g hg ↦ hstars g (List.mem_cons_of_mem f hg)) hsplit
    refine ⟨t, .round (h.inPlace ⟨_, hexpected.symm⟩) ?_ hround hrun, hend⟩
    rw [h.count_eq, h.place, List.length_cons]
    omega

end AtFields

/-! ## What a round leaves -/

section

variable {α : Type*} {cells cells' : List α}

theorem moveUp_spec {increased i : Int} {n : Nat} (h : moveUp increased i n cells = some cells') :
    cells'.length = cells.length ∧ ∀ x ∈ cells', x ∈ cells := by
  induction n generalizing cells with
  | zero =>
    obtain rfl := Option.some_inj.1 h
    exact ⟨rfl, fun x hx ↦ hx⟩
  | succ n ih =>
    rw [moveUp] at h
    obtain ⟨y, hy, h⟩ := Option.bind_eq_some_iff.1 h
    obtain ⟨stored, hstored, h⟩ := Option.bind_eq_some_iff.1 h
    obtain ⟨-, -, rfl⟩ := putCell_eq_some hstored
    obtain ⟨hlength, hmem⟩ := ih h
    refine ⟨hlength.trans (List.length_set ..), ?_⟩
    intro x hx
    rcases List.mem_or_eq_of_mem_set (hmem x hx) with hx | rfl
    · exact hx
    · rw [cellAt] at hy
      split at hy
      · exact List.mem_of_getElem? hy
      · cases hy

end

section

variable {fupdatable : Bool} {ti : TableInfo} {tables : List TableInfo} {rows : List ColumnRow}
  {cells cells' : List (Option FieldInfo)} {i i' : Int}

/-- An entry with the record of a column. -/
def IsColumn (cell : Option (Option FieldInfo)) : Prop :=
  ∃ fupdatable ti row, cell = some (some (columnField fupdatable ti row))

/-- Records have been stored, all those from `i` up to `i'` among them. -/
structure Stored (i i' : Int) (cells cells' : List (Option FieldInfo)) : Prop where
  length : cells'.length = cells.length
  kept : ∀ p : Nat, cells'[p]? = cells[p]? ∨ IsColumn cells'[p]?
  columns : ∀ p : Nat, i ≤ p → p < i' → IsColumn cells'[p]?

theorem Stored.trans {i'' : Int} {cells'' : List (Option FieldInfo)} (h : Stored i i' cells cells')
    (h' : Stored i' i'' cells' cells'') : Stored i i'' cells cells'' := by
  refine ⟨h'.length.trans h.length, ?_, ?_⟩
  · intro p
    rcases h'.kept p with hp | hp
    · rw [hp]
      exact h.kept p
    · exact Or.inr hp
  · intro p hi hi''
    rcases h'.kept p with hp | hp
    · rcases lt_or_ge (p : Int) i' with hlt | hge
      · rw [hp]
        exact h.columns p hi hlt
      · exact h'.columns p hge hi''
    · exact hp

theorem storeColumns_stored (h : storeColumns fupdatable ti rows i cells = some cells') :
    Stored i (i + rows.length) cells cells' := by
  induction rows generalizing i cells with
  | nil =>
    obtain rfl := Option.some_inj.1 h
    refine ⟨rfl, fun p ↦ Or.inl rfl, ?_⟩
    intro p hi hi'
    rw [List.length_nil] at hi'
    omega
  | cons row rows ih =>
    rw [storeColumns] at h
    obtain ⟨stored, hstored, h⟩ := Option.bind_eq_some_iff.1 h
    obtain ⟨hi, hlt, rfl⟩ := putCell_eq_some hstored
    have hone : Stored i (i + 1) cells
        (cells.set i.toNat (some (columnField fupdatable ti row))) := by
      refine ⟨List.length_set .., ?_, ?_⟩
      · intro p
        by_cases hp : i.toNat = p
        · refine Or.inr ⟨fupdatable, ti, row, ?_⟩
          rw [← hp, List.getElem?_set_self hlt]
        · exact Or.inl (List.getElem?_set_ne hp)
      · intro p hp hp'
        refine ⟨fupdatable, ti, row, ?_⟩
        rw [show p = i.toNat by omega, List.getElem?_set_self hlt]
    have hrest := ih h
    rw [List.length_cons, Nat.cast_add, Nat.cast_one, Int.add_comm (rows.length : Int),
      ← Int.add_assoc]
    exact hone.trans hrest

theorem wrapSigned_sixteen (x : Int) : -2 ^ 15 ≤ wrapSigned 16 x ∧ wrapSigned 16 x < 2 ^ 15 := by
  rw [wrapSigned]
  omega

theorem TableInfo.cols_le (ti : TableInfo) : ti.cols ≤ ti.columns.length := by
  rw [TableInfo.cols, wrapSigned]
  omega

theorem storeTables_stored (h : storeTables fupdatable tables i cells = some (i', cells')) :
    Stored i i' cells cells' := by
  induction tables generalizing i cells with
  | nil =>
    obtain ⟨rfl, rfl⟩ := Prod.mk.inj (Option.some_inj.1 h)
    refine ⟨rfl, fun p ↦ Or.inl rfl, ?_⟩
    intro p hi hi'
    omega
  | cons ti tables ih =>
    rw [storeTables] at h
    obtain ⟨stored, hstored, h⟩ := Option.bind_eq_some_iff.1 h
    have hcolumns := storeColumns_stored hstored
    have hle := ti.cols_le
    rw [List.length_take_of_le (by omega)] at hcolumns
    refine Stored.trans ⟨hcolumns.length, hcolumns.kept, ?_⟩ (ih h)
    intro p hi hi'
    exact hcolumns.columns p hi (by omega)

end

/-! ## Fields that are taken for stars -/

/-- A field of the statement whose name begins with a star. -/
def FieldInfo.Starry (fi : FieldInfo) : Prop := fi.flag = fieldParsing ∧ fi.expands = true

theorem searchColInfo_eq_some {rows : List ColumnRow} {fi found : FieldInfo}
    (h : searchColInfo rows fi = some found) :
    ∃ row, isColumnOf fi row = true ∧ found = getColInfo row fi := by
  rw [searchColInfo] at h
  split at h
  · cases h
  · obtain ⟨row, hrow, rfl⟩ := Option.map_eq_some_iff.1 h
    exact ⟨row, List.find?_some hrow, rfl⟩

theorem toLower_star (c : UInt8) : toLower c = 0x2a ↔ c = 0x2a := by
  rw [toLower]
  split
  · next hletter =>
    -- A letter is no star, and what is one below it is no letter.
    refine iff_of_false ?_ ?_
    · intro heq
      obtain rfl : c = 0x2a - 0x20 := eq_sub_of_add_eq heq
      exact absurd hletter (by decide)
    · rintro rfl
      exact absurd hletter (by decide)
  · rfl

/-- A column that is found by its name has the first character of the name, if that is a star. -/
theorem head?_of_isColumnOf {fi : FieldInfo} {row : ColumnRow} (hattnum : fi.attnum = 0)
    (h : isColumnOf fi row = true) :
    row.columnName.head? = some 0x2a ↔ (fi.columnName.getD []).head? = some 0x2a := by
  rw [isColumnOf, hattnum, if_neg (by decide)] at h
  cases hname : fi.columnName with
  | none =>
    rw [hname] at h
    cases h
  | some name =>
    rw [hname] at h
    dsimp only at h
    rw [Option.getD_some]
    split at h
    · rw [of_decide_eq_true h]
    · have hlower := congrArg List.head? (of_decide_eq_true h)
      rw [List.head?_map, List.head?_map] at hlower
      cases hrow : row.columnName.head? with
      | none =>
        rw [hrow] at hlower
        cases hhead : name.head? with
        | none => rfl
        | some c =>
          rw [hhead] at hlower
          cases hlower
      | some c =>
        rw [hrow] at hlower
        cases hhead : name.head? with
        | none =>
          rw [hhead] at hlower
          cases hlower
        | some d =>
          rw [hhead] at hlower
          have heq : toLower c = toLower d := Option.some_inj.1 hlower
          rw [Option.some_inj, Option.some_inj, ← toLower_star, heq, toLower_star]

/-- What has been found is still a field of the statement. -/
structure SameField (fi found : FieldInfo) : Prop where
  flag : found.flag = fi.flag
  attnum : found.attnum = fi.attnum
  expands : found.expands = fi.expands

theorem sameField_of_searchColInfo {rows : List ColumnRow} {fi found : FieldInfo}
    (hattnum : fi.attnum = 0) (h : searchColInfo rows fi = some found) : SameField fi found := by
  obtain ⟨row, hrow, rfl⟩ := searchColInfo_eq_some h
  refine ⟨rfl, rfl, ?_⟩
  have hhead := head?_of_isColumnOf hattnum hrow
  have hvalue : (getColInfo row fi).isValue = fi.isValue := rfl
  rw [FieldInfo.expands, FieldInfo.expands, hvalue]
  congr 1
  exact decide_eq_decide.2 hhead

theorem sameField_resolveField (tables : List TableInfo) (updatable : Bool) {fi : FieldInfo}
    (hattnum : fi.attnum = 0) : SameField fi (resolveField tables updatable fi).1 := by
  rw [resolveField]
  dsimp only
  split
  · exact ⟨rfl, rfl, rfl⟩
  · split
    · next ti _ =>
      split
      · next found h =>
        obtain ⟨hflag, hnum, hexpands⟩ := sameField_of_searchColInfo (by exact hattnum) h
        exact ⟨hflag, hnum, hexpands⟩
      · exact ⟨rfl, rfl, rfl⟩
    · split
      · next found h =>
        obtain ⟨ti, -, h⟩ := List.exists_of_findSome?_eq_some h
        obtain ⟨known, hknown, rfl⟩ := Option.map_eq_some_iff.1 h
        obtain ⟨hflag, hnum, hexpands⟩ := sameField_of_searchColInfo (by exact hattnum) hknown
        exact ⟨hflag, hnum, hexpands⟩
      · exact ⟨rfl, rfl, rfl⟩

/-- The state of the loop as far as rounds keep it that do not count more fields than there is room
for. -/
structure Sane (cap : Nat) (s : FieldLoop) : Prop where
  array : HasArray cap s.irdflds
  count : ∃ nf : Nat, s.irdflds.nfields = nf
  attnum : ∀ f, some f ∈ s.irdflds.fi → f.attnum = 0

section

variable {tables : List TableInfo} {updatable : Bool} {cap : Nat} {s s' : FieldLoop}

theorem not_starry_columnField {fupdatable : Bool} {ti : TableInfo} {row : ColumnRow} :
    ¬(columnField fupdatable ti row).Starry :=
  fun h ↦ absurd (show 0 = fieldParsing from h.1) (by decide)

theorem HasArray.of_length {irdflds irdflds' : IRDFields} (h : HasArray cap irdflds)
    (hallocated : irdflds'.allocated = irdflds.allocated)
    (hlength : irdflds'.fi.length = irdflds.fi.length) : HasArray cap irdflds' :=
  ⟨by rw [hallocated, hlength, h.allocated], by rw [hlength]; exact h.small,
    by rw [hlength]; exact h.capacity⟩

/-- What a round does. -/
theorem fieldRound_cases (h : fieldRound tables updatable s = some s') :
    ∃ wfi, some wfi ∈ s.irdflds.fi ∧ 0 ≤ s.i ∧ s.i.toNat < s.irdflds.fi.length ∧
      (wfi.expands = false ∧ s' =
          { i := s.i + 1
            irdflds := { s.irdflds with
              fi := s.irdflds.fi.set s.i.toNat (some (resolveField tables updatable wfi).1) }
            parse := s.parse && (resolveField tables updatable wfi).2 } ∨
        wfi.expands = true ∧
          expandField tables (fieldUpdatable updatable wfi)
            { s with irdflds := { s.irdflds with
                fi := s.irdflds.fi.set s.i.toNat
                  (some { wfi with updatable := fieldUpdatable updatable wfi }) } } wfi =
            some s') := by
  simp only [fieldRound, Option.bind_eq_bind] at h
  obtain ⟨cell, hentry, hcell⟩ := Option.bind_eq_some_iff.1 h
  obtain ⟨wfi, rfl, hfield⟩ := Option.bind_eq_some_iff.1 hcell
  have hmem : some wfi ∈ s.irdflds.fi := by
    rw [cellAt] at hentry
    split at hentry
    · exact List.mem_of_getElem? hentry
    · cases hentry
  cases hexpands : wfi.expands with
  | false =>
    rw [hexpands, if_neg Bool.false_ne_true] at hfield
    obtain ⟨fi, hfi, hend⟩ := Option.bind_eq_some_iff.1 hfield
    obtain ⟨hi, hlt, rfl⟩ := putCell_eq_some hfi
    exact ⟨wfi, hmem, hi, hlt, Or.inl ⟨hexpands, (Option.some_inj.1 hend).symm⟩⟩
  | true =>
    rw [hexpands, if_pos rfl] at hfield
    obtain ⟨fi, hfi, hend⟩ := Option.bind_eq_some_iff.1 hfield
    obtain ⟨hi, hlt, rfl⟩ := putCell_eq_some hfi
    exact ⟨wfi, hmem, hi, hlt, Or.inr ⟨hexpands, hend⟩⟩

/-- What the expansion of a field does. -/
theorem expandField_cases {fupdatable : Bool} {wfi : FieldInfo}
    (h : expandField tables fupdatable s wfi = some s') :
    ∃ (increased : Int) (irdflds : IRDFields) (n : Nat) (named : List TableInfo)
      (moved fi : List (Option FieldInfo)) (i : Int),
      -2 ^ 15 ≤ increased ∧ increased < 2 ^ 15 ∧
      roomForColumns s.irdflds increased = some irdflds ∧
      moveUp increased s.i n irdflds.fi = some moved ∧
      storeTables fupdatable named s.i moved = some (i, fi) ∧
      s' =
        { s with
          i := i
          irdflds := { irdflds with
            nfields := wrapUnsigned 32 (irdflds.nfields + increased)
            fi := fi } } := by
  simp only [expandField, Option.bind_eq_bind] at h
  obtain ⟨irdflds, hroom, h⟩ := Option.bind_eq_some_iff.1 h
  obtain ⟨moved, hmoved, h⟩ := Option.bind_eq_some_iff.1 h
  obtain ⟨named, -, h⟩ := Option.bind_eq_some_iff.1 h
  obtain ⟨⟨i, fi⟩, hstore, h⟩ := Option.bind_eq_some_iff.1 h
  obtain ⟨hlow, hhigh⟩ := wrapSigned_sixteen (totalCols (wfi.starTables tables) - 1)
  exact ⟨_, irdflds, _, named, moved, fi, i, hlow, hhigh, hroom, hmoved, hstore,
    (Option.some_inj.1 h).symm⟩

/-- A place that the loop passes has no field in it afterwards whose name begins with a star. -/
theorem Sane.round (h : Sane cap s) (hfits : s.irdflds.nfields ≤ s.irdflds.allocated)
    (hround : fieldRound tables updatable s = some s')
    (hfits' : s'.irdflds.nfields ≤ s'.irdflds.allocated) :
    Sane cap s' ∧ ∀ p : Nat, s.i ≤ p → p < s'.i → ∀ f, s'.irdflds.fi[p]? = some (some f) →
      ¬f.Starry := by
  obtain ⟨harray, ⟨nf, hnf⟩, hattnum⟩ := h
  have hsmall := harray.small
  rw [hnf, harray.allocated] at hfits
  obtain ⟨wfi, hmem, hi, hlt, ⟨hexpands, rfl⟩ | ⟨hexpands, hexpand⟩⟩ := fieldRound_cases hround
  · have hsame := sameField_resolveField tables updatable (hattnum wfi hmem)
    refine ⟨⟨harray.of_length rfl (List.length_set ..), ⟨nf, hnf⟩, ?_⟩, ?_⟩
    · intro f hf
      rcases List.mem_or_eq_of_mem_set hf with hf | heq
      · exact hattnum f hf
      · obtain rfl := Option.some_inj.1 heq
        rw [hsame.attnum]
        exact hattnum wfi hmem
    · intro p hp hp' f hf hstarry
      dsimp only at hp hp' hf
      obtain rfl : p = s.i.toNat := by omega
      rw [List.getElem?_set_self hlt, Option.some_inj, Option.some_inj] at hf
      subst hf
      exact Bool.noConfusion (hexpands.symm.trans (hsame.expands.symm.trans hstarry.2))
  · obtain ⟨increased, irdflds', n, named, moved, fi', i', hlow, hhigh, hroom, hmoved, hstore,
      rfl⟩ := expandField_cases hexpand
    dsimp only at hfits' hmoved hstore hroom
    have hset : ∀ f, some f ∈ s.irdflds.fi.set s.i.toNat
        (some { wfi with updatable := fieldUpdatable updatable wfi }) → f.attnum = 0 := by
      intro f hf
      rcases List.mem_or_eq_of_mem_set hf with hf | heq
      · exact hattnum f hf
      · obtain rfl := Option.some_inj.1 heq
        exact hattnum wfi hmem
    have hsetArray : HasArray cap { s.irdflds with
        fi := s.irdflds.fi.set s.i.toNat
          (some { wfi with updatable := fieldUpdatable updatable wfi }) } :=
      harray.of_length rfl (List.length_set ..)
    rw [roomForColumns_nfields hroom, hnf] at hfits'
    obtain ⟨harray', hnf', hcells⟩ :=
      roomForColumns_fits hsetArray hnf (by omega) hlow hhigh hroom hfits'
    obtain ⟨hlength, hmem'⟩ := moveUp_spec hmoved
    have hstored := storeTables_stored hstore
    refine ⟨⟨harray'.of_length rfl (hstored.length.trans hlength),
      ⟨((irdflds'.nfields + increased) % 2 ^ 32).toNat, ?_⟩, ?_⟩, ?_⟩
    · exact (Int.toNat_of_nonneg (Int.emod_nonneg _ (by decide))).symm
    · intro f hf
      obtain ⟨p, hp⟩ := List.mem_iff_getElem?.1 hf
      rcases hstored.kept p with hkept | ⟨_, ti, row, hcolumn⟩
      · rw [hp] at hkept
        rcases hcells _ (hmem' _ (List.mem_of_getElem? hkept.symm)) with hold | hnone
        · exact hset f hold
        · cases hnone
      · rw [hp, Option.some_inj, Option.some_inj] at hcolumn
        rw [hcolumn]
        rfl
    · intro p hp hp' f hf
      obtain ⟨_, ti, row, hcolumn⟩ := hstored.columns p hp hp'
      rw [hf, Option.some_inj, Option.some_inj] at hcolumn
      rw [hcolumn]
      exact not_starry_columnField

variable {expected : List FieldInfo} {t : FieldLoop}

theorem Expands.inPlace (h : Expands tables updatable expected s t) : InPlace expected s := by
  cases h with
  | done h _ => exact h
  | round h _ _ _ => exact h

/-- If the loop ends, it has kept what it keeps, and the list has no field in it whose name begins
with a star. -/
theorem Expands.sane (hrun : Expands tables updatable expected s t) (h : Sane cap s) :
    Sane cap t ∧ InPlace expected t ∧ wrapSigned 32 t.irdflds.nfields ≤ t.i ∧
      ∀ p : Nat, s.i ≤ p → p < t.i → ∀ f, expected[p]? = some f → ¬f.Starry := by
  induction hrun with
  | done hinPlace hend =>
    refine ⟨h, hinPlace, hend, ?_⟩
    intro p hp hp'
    omega
  | @round s s' t hinPlace hlt hround hrest ih =>
    have hinPlace' := hrest.inPlace
    obtain ⟨hsane, hpassed⟩ := h.round hinPlace.fits hround hinPlace'.fits
    obtain ⟨hend, hinPlaceEnd, hlast, hnone⟩ := ih hsane
    refine ⟨hend, hinPlaceEnd, hlast, ?_⟩
    intro p hp hp' f hf
    rcases lt_or_ge (p : Int) s'.i with hlt' | hge
    · -- The place has been passed in this round.
      refine hpassed p hp hlt' f ?_
      have htake := congrArg (·[p]?) hinPlace'.passed
      have hplace : p < s'.i.toNat := by omega
      simp only [List.getElem?_take_of_lt hplace, List.getElem?_map, hf, Option.map_some] at htake
      exact htake
    · exact hnone p hge hp' f hf

end

/-! ## Stars are expanded in place -/

namespace ParsedFields

variable (p : ParsedFields) (updatable parse : Bool)

theorem hasArray_start :
    HasArray (capacity (p.fields.length + p.spare.length)) (p.start parse).irdflds := by
  have hlength : (p.start parse).irdflds.fi.length = p.fields.length + p.spare.length := by
    rw [start, List.length_append, List.length_map]
  exact ⟨by rw [hlength]; exact (Nat.cast_add _ _).symm, by rw [hlength]; exact p.small,
    by rw [hlength]⟩

theorem sane_start : Sane (capacity (p.fields.length + p.spare.length)) (p.start parse) :=
  ⟨p.hasArray_start parse, ⟨_, rfl⟩, p.attnum⟩

variable {p updatable parse}

/-- The array has to get room for the list. -/
theorem ExpandsRight.length_le (h : p.ExpandsRight updatable parse) :
    (p.expected updatable).length ≤ capacity (p.fields.length + p.spare.length) := by
  obtain ⟨t, hrun, hcount, -⟩ := h
  obtain ⟨hsane, hinPlace, -, -⟩ := hrun.sane (p.sane_start parse)
  have hlength := hsane.array.length_le
  have hfits := hinPlace.fits
  rw [hcount, hsane.array.allocated] at hfits
  omega

variable (p updatable parse)

end ParsedFields

end PsqlOdbc
