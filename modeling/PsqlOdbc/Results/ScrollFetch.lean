import PsqlOdbc.Lib.ScrollCursor
import PsqlOdbc.Results.PlainRowset

/-!
# Scrolling in a result without a keyset

On a result whose rows are all in the driver and in no keyset, `PGAPI_ExtendedFetch` is a cursor
that scrolls over the rows, whatever it is asked for (`answers_fetched`).  It is where the table of
such cursors has it, but for calls that go astray (`answers_start_iff`).
-/

namespace PsqlOdbc

open Lib FetchState

/-! ## The start of the rowset -/

/-- Which rows are asked for.  Negative bookmarks, which are those of added rows, are left out. -/
def FetchCall.scroll? (call : FetchCall) : Option Scroll :=
  match call.fetchType with
  | .next => some .next
  | .prior => some .prior
  | .first => some .first
  | .last => some .last
  | .absolute => some (.absolute call.irow)
  | .relative => some (.relative call.irow)
  | .bookmark =>
    if 1 ≤ call.irow then some (.bookmark (call.irow - 1) call.bookmarkOffset) else none
  | .other => none

/-- Arguments that the arithmetic of the driver can do with. -/
structure FetchCall.Fits (call : FetchCall) : Prop where
  size : 1 ≤ call.rowsetSize
  size_lt : call.rowsetSize < 2 ^ 61
  irow : -2 ^ 61 < call.irow ∧ call.irow < 2 ^ 61
  offset : -2 ^ 61 < call.bookmarkOffset ∧ call.bookmarkOffset < 2 ^ 61

/-- Where a rowset ends up that would start at `x`. -/
def land (n r x : ℤ) : ℤ :=
  if n ≤ x then n else if 0 ≤ x then x else if x + r ≤ 0 then -1 else 0

/-- The rowset is going to start at `q`. -/
inductive Places (rows : List (List TupleField)) (r q : ℤ) (short : Bool) : Positioned → Prop
  | outside {t : FetchState} (h : t.Plain rows) (hstart : t.rowsetStart = q)
      (hq : q = -1 ∨ q = rows.length) : Places rows r q short (.outside t)
  | inside {t : FetchState} {start rowsetEnd reqsize : ℤ} {shouldSet : Bool} (h : t.Plain rows)
      (hstart : shouldSet = true ∨ t.rowsetStart = start) (hq : land rows.length r start = q)
      (hshort : short = decide (t.error.map Prod.fst = some .posBeforeRecordset)) :
      Places rows r q short (.inside t start rowsetEnd shouldSet reqsize)

section

variable {rows : List (List TupleField)} {s : FetchState} {call : FetchCall} {sta q r : ℤ} {nth : ℕ}
variable {short : Bool}

theorem getNthValid_plain {orientation : Orientation} (hs : s.Plain rows) :
    getNthValid s.info sta orientation nth = some (nthPlain rows.length sta nth orientation) := by
  have hnum : s.info.numTuples = rows.length := hs.numTuples
  have hdl : s.info.dlCount = 0 := hs.dlCount
  rw [getNthValid, if_pos hdl, hnum]

theorem nthPlain_next {n : ℕ} (hn : n < 2 ^ 31) (hlo : -2 ^ 62 ≤ sta) (hhi : sta ≤ 2 ^ 62)
    (hnth : nth ≤ 2 ^ 61) :
    nthPlain n sta nth .next =
      if sta - 1 + nth < n then ((nth : ℤ), sta - 1 + nth) else (sta - n, (n : ℤ)) := by
  rw [nthPlain, sqllen_of_mem (by omega) (by omega),
    sqllen_of_mem (x := (nth : ℤ)) (by omega) (by omega),
    sqllen_of_mem (x := (n : ℤ) - sta) (by omega) (by omega), sqllen_of_mem (by omega) (by omega),
    neg_sub]

theorem nthPlain_prior {n : ℕ} (hlo : -2 ^ 62 ≤ sta) (hhi : sta ≤ 2 ^ 62) (hnth : nth ≤ 2 ^ 61) :
    nthPlain n sta nth .prior =
      if (nth : ℤ) ≤ sta + 1 then ((nth : ℤ), sta + 1 - nth) else (-(sta + 1), -1) := by
  rw [nthPlain, sqllen_of_mem (x := sta + 1) (by omega) (by omega),
    sqllen_of_mem (x := (nth : ℤ)) (by omega) (by omega), sqllen_of_mem (by omega) (by omega),
    sqllen_of_mem (x := -(sta + 1)) (by omega) (by omega)]

/-- The rowset stays where it is. -/
theorem places_stay (hs : s.Plain rows) (hq : land rows.length call.rowsetSize s.rowsetStart = q)
    (hshort : short = decide (s.error.map Prod.fst = some .posBeforeRecordset)) :
    Places rows call.rowsetSize q short (call.stay s) :=
  .inside hs (Or.inr rfl) hq hshort

/-- The first rowset, instead of one in front of it. -/
theorem places_before {message : String} (hs : s.Plain rows)
    (hq : land rows.length call.rowsetSize 0 = q) (hshort : short = true) :
    Places rows call.rowsetSize q short
      (call.stay ((s.setError .posBeforeRecordset message).setRowsetStart 0)) := by
  have hplain : (s.setError .posBeforeRecordset message).Plain rows := { hs with }
  exact places_stay (hplain.setRowsetStart (by omega)) hq hshort

theorem places_searchNext (hs : s.Plain rows) (hlo : 0 ≤ sta) (hhi : sta ≤ 2 ^ 62) (h1 : 1 ≤ nth)
    (hnth : nth ≤ 2 ^ 61) (hq : land rows.length call.rowsetSize (sta - 1 + nth) = q)
    (herror : s.error = none) :
    ∃ pos, call.searchNext s sta nth = some pos ∧ Places rows call.rowsetSize q false pos := by
  have hlt := hs.lt
  rw [FetchCall.searchNext, getNthValid_plain hs, nthPlain_next hlt (by omega) hhi hnth,
    Option.map_some]
  refine ⟨_, rfl, ?_⟩
  rw [land] at hq
  have hshort : false = decide (s.error.map Prod.fst = some .posBeforeRecordset) := by
    rw [herror]
    rfl
  by_cases hin : sta - 1 + nth < rows.length
  · rw [if_pos hin]
    dsimp only
    rw [if_neg (by omega)]
    exact .inside hs (Or.inl rfl) hq hshort
  · rw [if_neg hin]
    rw [if_pos (by omega)] at hq
    dsimp only
    split_ifs with hcount
    · rw [hs.numTuples]
      exact .outside (hs.returnEnd (by omega)) hq (Or.inr hq.symm)
    · exact .inside hs (Or.inl rfl) (by rw [land, if_pos le_rfl, hq]) hshort

/-- The search backward from in front of the first row, from a row or from behind the last one. -/
theorem places_searchPrior {ends : Bool} {message : String} (hs : s.Plain rows) (hlo : -2 ≤ sta)
    (hhi : sta < rows.length) (h1 : 1 ≤ nth) (hnth : nth ≤ 2 ^ 61) (hr : 1 ≤ call.rowsetSize)
    (hq : q = if (nth : ℤ) ≤ sta + 1 then sta + 1 - nth else if sta = -1 then -1
      else if sta < -1 ∧ call.rowsetSize ≤ 1 then -1 else 0)
    (hshort : short = decide (0 < sta + 1 ∧ sta + 1 < nth)) (herror : s.error = none) :
    ∃ pos, call.searchPrior s sta nth ends message = some pos ∧
      Places rows call.rowsetSize q short pos := by
  have hlt := hs.lt
  rw [FetchCall.searchPrior, getNthValid_plain hs, nthPlain_prior (by omega) (by omega) hnth,
    Option.map_some]
  refine ⟨_, rfl, ?_⟩
  have hinside {start rowsetEnd reqsize : ℤ} (hshort' : short = false)
      (hland : land rows.length call.rowsetSize start = q) :
      Places rows call.rowsetSize q short (.inside s start rowsetEnd true reqsize) :=
    .inside hs (Or.inl rfl) hland (by rw [hshort', herror]; rfl)
  by_cases hin : (nth : ℤ) ≤ sta + 1
  · rw [if_pos hin] at hq ⊢
    have hshort' : short = false := by rw [hshort, decide_eq_false_iff_not]; omega
    have hland : land rows.length call.rowsetSize (sta + 1 - nth) = q := by
      rw [land, if_neg (by omega), if_pos (by omega), hq]
    dsimp only
    rw [if_neg (by omega), if_neg (by omega)]
    split_ifs
    · exact hinside hshort' hland
    · exact hinside hshort' hland
  · rw [if_neg hin] at hq ⊢
    dsimp only
    by_cases hend : sta = -1
    · rw [if_pos hend] at hq
      rw [if_pos (by omega)]
      exact .outside (hs.returnEnd (by omega)) hq.symm (Or.inl hq)
    rw [if_neg hend] at hq
    rw [if_neg (by omega)]
    by_cases hbefore : sta < -1
    · -- `getNthValid` has returned a positive count
      have hshort' : short = false := by rw [hshort, decide_eq_false_iff_not]; omega
      have hland : land rows.length call.rowsetSize (-1) = q := by
        rw [land, if_neg (by omega), if_neg (by omega), hq]
        split_ifs <;> omega
      rw [if_neg (by omega)]
      split_ifs
      · exact hinside hshort' hland
      · exact hinside hshort' hland
    · rw [if_pos (by omega)]
      rw [if_neg fun h ↦ hbefore h.1] at hq
      refine places_before hs ?_ (by rw [hshort, decide_eq_true_eq]; omega)
      rw [land, if_neg (by omega), if_pos (by omega), hq]

end

/-! ## The cursor -/

/-- The statement is where the cursor is; `save` is `save_rowset_size`. -/
structure FetchState.Scrolls (rows : List (List TupleField)) (c : ScrollCursor) (save : ℤ)
    (s : FetchState) : Prop where
  plain : s.Plain rows
  start : s.rowsetStart = c.start
  lo : -1 ≤ c.start
  hi : c.start ≤ rows.length
  size : 0 ≤ c.start → 1 ≤ c.size
  save : 0 ≤ c.start → c.start < rows.length → save = c.size

section

variable {rows : List (List TupleField)} {s : FetchState} {call : FetchCall} {c : ScrollCursor}
variable {scroll : Scroll} {save : ℤ}

theorem positionNext_places (hs : s.Scrolls rows c save) (hr : 1 ≤ call.rowsetSize)
    (herror : s.error = none) :
    ∃ pos, call.positionNext s save = some pos ∧
      Places rows call.rowsetSize (c.move rows.length call.rowsetSize .next) false pos := by
  have hshort : false = decide (s.error.map Prod.fst = some .posBeforeRecordset) := by
    rw [herror]
    rfl
  have hlo := hs.lo
  have hhi := hs.hi
  have hstart := hs.start
  rw [FetchCall.positionNext, ScrollCursor.move, ScrollCursor.clip]
  dsimp only
  by_cases hfresh : s.rowsetStart < 0
  · rw [if_pos hfresh, if_pos (by omega : c.start < 0)]
    refine ⟨_, rfl, places_stay (hs.plain.setRowsetStart (by omega)) ?_ hshort⟩
    change land rows.length call.rowsetSize 0 = _
    rw [land, if_pos le_rfl]
  · have hsize := hs.size (by omega)
    rw [if_neg hfresh, if_neg hs.plain.keysetThere, if_neg (by omega : ¬c.start < 0)]
    refine ⟨_, rfl, places_stay (hs.plain.setRowsetStart ?_) ?_ hshort⟩
    · split_ifs <;> omega
    · change land rows.length call.rowsetSize (s.rowsetStart + _) = _
      rw [land]
      rcases hhi.lt_or_eq with hlt | hend
      · rw [hs.save (by omega) hlt, if_pos (by omega : 0 < c.size)]
        split_ifs <;> omega
      · split_ifs <;> omega

theorem positionPrior_places (hs : s.Plain rows) (hr : 1 ≤ call.rowsetSize)
    (hhi : s.rowsetStart ≤ rows.length) (herror : s.error = none) :
    ∃ pos, call.positionPrior s = some pos ∧
      Places rows call.rowsetSize (ScrollCursor.blockBack call.rowsetSize s.rowsetStart)
        (decide (0 < s.rowsetStart ∧ s.rowsetStart < call.rowsetSize)) pos := by
  rw [FetchCall.positionPrior, ScrollCursor.blockBack]
  by_cases hfirst : s.rowsetStart ≤ 0
  · rw [if_pos hfirst, if_pos hfirst]
    exact ⟨_, rfl, .outside (hs.returnEnd (by omega)) rfl (Or.inl rfl)⟩
  rw [if_neg hfirst, if_neg hfirst, hs.numTuples]
  have hbefore {message : String} (hlt : s.rowsetStart < call.rowsetSize) :
      Places rows call.rowsetSize
        (if s.rowsetStart < call.rowsetSize then 0 else s.rowsetStart - call.rowsetSize)
        (decide (0 < s.rowsetStart ∧ s.rowsetStart < call.rowsetSize))
        (call.stay ((s.setError .posBeforeRecordset message).setRowsetStart 0)) := by
    rw [if_pos hlt]
    refine places_before hs ?_ (decide_eq_true ⟨by omega, hlt⟩)
    rw [land, if_neg (by omega), if_pos le_rfl]
  by_cases hend : (rows.length : ℤ) ≤ s.rowsetStart ∧ (rows.length : ℤ) < call.rowsetSize
  · rw [if_pos hend]
    exact ⟨_, rfl, hbefore (by omega)⟩
  rw [if_neg hend, if_neg hs.hasKeyset]
  by_cases hlt : s.rowsetStart < call.rowsetSize
  · rw [if_pos hlt]
    exact ⟨_, rfl, hbefore hlt⟩
  · rw [if_neg hlt, if_neg hlt]
    refine ⟨_, rfl, places_stay (hs.setRowsetStart (by omega)) ?_ ?_⟩
    · change land rows.length call.rowsetSize (s.rowsetStart + -call.rowsetSize) = _
      rw [land, if_neg (by omega), if_pos (by omega)]
      omega
    · change _ = decide (s.error.map Prod.fst = some .posBeforeRecordset)
      rw [herror, decide_eq_false fun h ↦ hlt h.2]
      rfl

theorem positionBookmark_places (hs : s.Plain rows) (hfits : call.Fits) (hirow : 1 ≤ call.irow)
    (herror : s.error = none) :
    ∃ pos, call.positionBookmark s = some pos ∧
      Places rows call.rowsetSize (c.move rows.length call.rowsetSize
        (.bookmark (call.irow - 1) call.bookmarkOffset)) false pos := by
  have hirow' := hfits.irow
  have hoffset := hfits.offset
  have hsize := hfits.size
  rw [FetchCall.positionBookmark, ScrollCursor.move, ScrollCursor.clip]
  dsimp only
  rw [if_neg (by omega : ¬call.irow < 0), if_neg (by omega : ¬call.irow - 1 < 0)]
  by_cases hback : 0 ≤ call.bookmarkOffset
  · rw [if_pos hback]
    refine places_searchNext hs (by omega) (by omega) (by omega) (by omega) ?_ herror
    rw [land]
    split_ifs <;> omega
  · rw [if_neg hback, getNthValid_plain hs, nthPlain_prior (by omega) (by omega) (by omega),
      Option.map_some]
    refine ⟨_, rfl, ?_⟩
    by_cases hin : ((1 - call.bookmarkOffset).toNat : ℤ) ≤ call.irow - 1 + 1
    · rw [if_pos hin]
      dsimp only
      rw [if_neg (by omega : ¬((1 - call.bookmarkOffset).toNat : ℤ) ≤ 0),
        if_neg (by omega : ¬call.irow - 1 + call.bookmarkOffset < 0)]
      refine .inside hs (Or.inl rfl) ?_ (by rw [herror]; rfl)
      rw [land]
      split_ifs <;> omega
    · rw [if_neg hin]
      dsimp only
      rw [if_pos (by omega), if_pos (by omega)]
      exact .outside (hs.returnEnd (by omega)) rfl (Or.inl rfl)

theorem positionAbsolute_places (hs : s.Plain rows) (hfits : call.Fits) (herror : s.error = none)
    (htype : call.fetchType = .absolute) :
    ∃ pos, call.position s save = some pos ∧
      Places rows call.rowsetSize (c.place rows.length call.rowsetSize (.absolute call.irow))
        (c.short rows.length call.rowsetSize (.absolute call.irow)) pos := by
  have hsize := hfits.size
  have hirow := hfits.irow
  rw [FetchCall.position, htype]
  dsimp only
  by_cases hzero : call.irow = 0
  · rw [if_pos hzero, ScrollCursor.place, if_neg (by rintro ⟨-, h, -⟩; omega), ScrollCursor.move,
      if_pos hzero]
    exact ⟨_, rfl, .outside (hs.returnEnd (by omega)) rfl (Or.inl rfl)⟩
  rw [if_neg hzero]
  by_cases hpos : 0 < call.irow
  · rw [if_pos hpos, ScrollCursor.place, if_neg (by rintro ⟨-, h, -⟩; omega), ScrollCursor.move,
      if_neg hzero, if_pos hpos, ScrollCursor.clip]
    have hshort : c.short rows.length call.rowsetSize (.absolute call.irow) = false :=
      decide_eq_false fun h ↦ by omega
    rw [hshort]
    refine places_searchNext hs le_rfl (by omega) (by omega) (by omega) ?_ herror
    rw [land]
    split_ifs <;> omega
  · rw [if_neg hpos, hs.numTuples]
    have hlt := hs.lt
    refine places_searchPrior hs (by omega) (by omega) (by omega) (by omega) hsize ?_ ?_ herror
    · rw [ScrollCursor.place, ScrollCursor.move, if_neg hzero, if_neg hpos, ScrollCursor.rowsBack]
      simp only [ScrollCursor.Astray]
      split_ifs <;> omega
    · rw [ScrollCursor.short]
      exact decide_eq_decide.2 (by omega)

theorem positionRelative_places (hs : s.Scrolls rows c save) (hfits : call.Fits)
    (herror : s.error = none) (htype : call.fetchType = .relative) :
    ∃ pos, call.position s save = some pos ∧
      Places rows call.rowsetSize (c.place rows.length call.rowsetSize (.relative call.irow))
        (c.short rows.length call.rowsetSize (.relative call.irow)) pos := by
  have hsize := hfits.size
  have hirow := hfits.irow
  have hlo := hs.lo
  have hhi := hs.hi
  have hlt := hs.plain.lt
  rw [FetchCall.position, htype]
  dsimp only
  rw [hs.start]
  have hshort (hnonneg : 0 ≤ call.irow) :
      c.short rows.length call.rowsetSize (.relative call.irow) = false :=
    decide_eq_false fun h ↦ by omega
  by_cases hzero : call.irow = 0
  · rw [if_pos hzero, hshort (by omega)]
    refine ⟨_, rfl, places_stay hs.plain ?_ (by rw [herror]; rfl)⟩
    rw [land, hs.start, ScrollCursor.place, ScrollCursor.move]
    simp only [ScrollCursor.Astray, ScrollCursor.clip]
    split_ifs <;> omega
  rw [if_neg hzero]
  by_cases hpos : 0 < call.irow
  · rw [if_pos hpos, hshort (by omega), ScrollCursor.place,
      if_neg (by rintro (⟨-, h, -⟩ | ⟨h, h', -⟩) <;> omega), ScrollCursor.move]
    refine places_searchNext hs.plain (by omega) (by omega) (by omega) (by omega) ?_ herror
    simp only [land, ScrollCursor.clip]
    split_ifs <;> omega
  · rw [if_neg hpos]
    refine places_searchPrior hs.plain (by omega) (by omega) (by omega) (by omega) hsize ?_ ?_
      herror
    · rw [ScrollCursor.place, ScrollCursor.move, ScrollCursor.rowsBack]
      simp only [ScrollCursor.Astray]
      split_ifs <;> omega
    · rw [ScrollCursor.short]
      exact decide_eq_decide.2 (by omega)

/-- The `switch` places the rowset as a cursor that goes astray does. -/
theorem position_places (hs : s.Scrolls rows c save) (hfits : call.Fits)
    (hscroll : call.scroll? = some scroll) (herror : s.error = none) :
    ∃ pos, call.position s save = some pos ∧
      Places rows call.rowsetSize (c.place rows.length call.rowsetSize scroll)
        (c.short rows.length call.rowsetSize scroll) pos := by
  have hlo := hs.lo
  have hhi := hs.hi
  have hstart := hs.start
  have hsize := hfits.size
  have hsize_lt := hfits.size_lt
  have hlt := hs.plain.lt
  unfold FetchCall.scroll? at hscroll
  cases htype : call.fetchType with
  | next =>
    rw [htype] at hscroll
    obtain rfl := Option.some.inj hscroll
    rw [FetchCall.position, htype, ScrollCursor.place_of_false id]
    exact positionNext_places hs hsize herror
  | prior =>
    rw [htype] at hscroll
    obtain rfl := Option.some.inj hscroll
    rw [FetchCall.position, htype, ScrollCursor.place_of_false id, ScrollCursor.move,
      ScrollCursor.short, ← hstart]
    exact positionPrior_places hs.plain hsize (by omega) herror
  | first =>
    rw [htype] at hscroll
    obtain rfl := Option.some.inj hscroll
    rw [FetchCall.position, htype, ScrollCursor.place_of_false id, ScrollCursor.move,
      ScrollCursor.clip]
    refine ⟨_, rfl, places_stay (hs.plain.setRowsetStart (by omega)) ?_ (by
      change false = decide (s.error.map Prod.fst = some .posBeforeRecordset)
      rw [herror]
      rfl)⟩
    change land rows.length call.rowsetSize 0 = _
    rw [land, if_pos le_rfl]
  | last =>
    rw [htype] at hscroll
    obtain rfl := Option.some.inj hscroll
    rw [FetchCall.position, htype, ScrollCursor.place_of_false id, ScrollCursor.move,
      ScrollCursor.blockBack, hs.plain.numTuples]
    refine places_searchPrior hs.plain (by omega) (by omega) (by omega) (by omega) hsize ?_ ?_
      herror
    · split_ifs <;> omega
    · exact decide_eq_decide.2 (by omega)
  | absolute =>
    rw [htype] at hscroll
    obtain rfl := Option.some.inj hscroll
    exact positionAbsolute_places hs.plain hfits herror htype
  | relative =>
    rw [htype] at hscroll
    obtain rfl := Option.some.inj hscroll
    exact positionRelative_places hs hfits herror htype
  | bookmark =>
    rw [htype] at hscroll
    dsimp only at hscroll
    split_ifs at hscroll with hirow
    obtain rfl := Option.some.inj hscroll
    rw [FetchCall.position, htype, ScrollCursor.place_of_false id]
    exact positionBookmark_places hs.plain hfits hirow herror
  | other =>
    rw [htype] at hscroll
    cases hscroll

end

/-! ## The calls of an application -/

section

variable {env : FetchEnv} {options : FetchOptions} {rows : List (List TupleField)}
variable {s : FetchState} {call : FetchCall} {q r : ℤ} {short : Bool}

theorem rowsetReply_outside (hq : q < 0 ∨ rows.length ≤ q) :
    rowsetReply env options r q short rows = .without .noData r := by
  have hnil : (if q < 0 then [] else ((rows.drop q.toNat).take r.toNat).zipIdx) = [] := by
    split_ifs
    · rfl
    · rw [List.drop_eq_nil_of_le (by omega), List.take_nil, List.zipIdx_nil]
  rw [rowsetReply, hnil, FetchReply.without]
  rfl

theorem fetchRowset_plain (reqsize : ℤ) (hmax : options.maxRows ≤ 0)
    (hconvert : ∀ i fields, env.convert i fields ≠ .failed) (hs : s.Plain rows)
    (hr : 1 ≤ call.rowsetSize) (hq : 0 ≤ q) (hle : q ≤ rows.length) (hstart : s.rowsetStart = q)
    (hshort : short = decide (s.error.map Prod.fst = some .posBeforeRecordset)) :
    ∃ s', fetchRowset env options call reqsize s =
        some (rowsetReply env options call.rowsetSize q short rows, s') ∧
      s'.Plain rows ∧ s'.rowsetStart = q ∧ s'.saveRowsetSize = call.rowsetSize := by
  rw [fetchRowset]
  rw [reloadRowset, if_neg fun h ↦ hs.keysetThere h.1]
  dsimp only
  have hplain (base : ℤ) (hbase : s.validBase = true → base = s.rowsetStart) :
      ({ s with currTuple := s.rowsetStart - 1, base } : FetchState).Plain rows :=
    { hs with base := hbase }
  have hbase (hvalid : s.validBase = true) :
      (if options.fetchcursor = true ∨ options.cursorType = .keysetDriven then s.base
        else s.rowsetStart) = s.rowsetStart := by
    split_ifs
    · exact hs.base hvalid
    · rfl
  exact fetchRows_plain hmax hconvert (hplain _ hbase) hr hq hle hstart
    (congrArg (· - 1) hstart) short hshort

/-- A call whose rowset has been placed. -/
theorem extendedFetch_of_places {pos : Positioned} (hmax : options.maxRows ≤ 0)
    (hconvert : ∀ i fields, env.convert i fields ≠ .failed) (hr : 1 ≤ call.rowsetSize)
    (hpos : call.position { s with saveRowsetSize := -1 } s.saveRowsetSize = some pos)
    (hplaces : Places rows call.rowsetSize q short pos) :
    ∃ s', extendedFetch env options call s =
        some (rowsetReply env options call.rowsetSize q short rows, s') ∧
      s'.Plain rows ∧ s'.rowsetStart = q ∧
        (0 ≤ q → q < rows.length → s'.saveRowsetSize = call.rowsetSize) := by
  rw [extendedFetch]
  dsimp only
  rw [hpos, Option.bind_some]
  cases hplaces with
  | @outside t h hstart hq =>
    rw [rowsetReply_outside (by omega)]
    exact ⟨t, rfl, h, hstart, fun hlo hhi ↦ by omega⟩
  | @inside t start rowsetEnd reqsize shouldSet h hstart hq hshort =>
    dsimp only
    have hstart' : (if shouldSet = true then start else t.rowsetStart) = start := by
      split_ifs with hset
      · rfl
      · exact hstart.resolve_left hset
    rw [FetchCall.settle]
    dsimp only
    rw [hstart', h.numTuples]
    rw [land] at hq
    by_cases hend : (rows.length : ℤ) ≤ start
    · rw [if_pos hend] at hq ⊢
      rw [Option.bind_some, rowsetReply_outside (by omega)]
      exact ⟨_, rfl, h.returnEnd (by omega), hq, fun hlo hhi ↦ by omega⟩
    rw [if_neg hend] at hq ⊢
    by_cases hbefore : start < 0 ∧ start + call.rowsetSize ≤ 0
    · rw [if_neg (by omega), if_pos hbefore.2] at hq
      rw [if_pos hbefore, Option.bind_some, rowsetReply_outside (by omega)]
      exact ⟨_, rfl, h.returnEnd (by omega), hq, fun hlo hhi ↦ by omega⟩
    rw [if_neg hbefore]
    obtain ⟨t', ht'⟩ : ∃ t', t' = if start < 0 then t.setRowsetStart 0
        else if shouldSet = true then t.setRowsetStart start else t := ⟨_, rfl⟩
    have hsettled : t'.Plain rows ∧ t'.rowsetStart = q ∧ t'.error = t.error := by
      rw [ht']
      by_cases hneg : start < 0
      · rw [if_pos hneg]
        refine ⟨h.setRowsetStart (by omega), ?_, rfl⟩
        rw [if_neg (by omega), if_neg (by omega)] at hq
        exact hq
      rw [if_neg hneg]
      rw [if_pos (by omega)] at hq
      by_cases hset : shouldSet = true
      · rw [if_pos hset]
        exact ⟨h.setRowsetStart (by omega), hq, rfl⟩
      · rw [if_neg hset]
        exact ⟨h, (hstart.resolve_left hset).trans hq, rfl⟩
    have hshort' : short = decide (t'.error.map Prod.fst = some .posBeforeRecordset) := by
      rw [hsettled.2.2]
      exact hshort
    rw [← ht', if_neg fun h ↦ hsettled.1.hasKeyset h.2, Option.bind_some]
    obtain ⟨s', hfetch, hplain, hstart', hsave⟩ := fetchRowset_plain reqsize hmax
      hconvert hsettled.1 hr (by split_ifs at hq <;> omega) (by split_ifs at hq <;> omega)
      hsettled.2.1 hshort'
    exact ⟨s', hfetch, hplain, hstart', fun _ _ ↦ hsave⟩

end

/-- A call of the application, and what it meets. -/
structure FetchStep where
  env : FetchEnv
  options : FetchOptions
  call : FetchCall

/-- The answers to one call after the other. -/
def answers {σ : Type} (f : FetchStep → σ → Option (FetchReply × σ)) :
    List FetchStep → σ → Option (List FetchReply × σ)
  | [], s => some ([], s)
  | step :: steps, s =>
    (f step s).bind fun (reply, s) ↦
      (answers f steps s).map fun (replies, s) ↦ (reply :: replies, s)

theorem answers_cons {σ : Type} {f : FetchStep → σ → Option (FetchReply × σ)} {s t u : σ}
    {step : FetchStep} {steps : List FetchStep} {reply : FetchReply} {replies : List FetchReply}
    (h : f step s = some (reply, t)) (h' : answers f steps t = some (replies, u)) :
    answers f (step :: steps) s = some (reply :: replies, u) := by
  rw [answers, h, Option.bind_some]
  dsimp only
  rw [h', Option.map_some]

/-- The driver. -/
def driverStep (step : FetchStep) (s : FetchState) : Option (FetchReply × FetchState) :=
  pgapiExtendedFetch step.env step.options step.call s

/-- A cursor that goes astray. -/
def cursorStep (rows : List (List TupleField)) (step : FetchStep) (c : ScrollCursor) :
    Option (FetchReply × ScrollCursor) :=
  let r := step.call.rowsetSize
  step.call.scroll?.map fun scroll ↦
    let q := c.place rows.length r scroll
    (rowsetReply step.env step.options r q (c.short rows.length r scroll) rows, ⟨q, r⟩)

/-- A call that the driver does not refuse, and no value of which fails to be converted. -/
structure FetchStep.Allowed (step : FetchStep) : Prop where
  fits : step.call.Fits
  scrolls : step.call.scroll?.isSome = true
  convert : ∀ i fields, step.env.convert i fields ≠ .failed
  maxRows : step.options.maxRows ≤ 0
  forward : step.options.cursorType = .forwardOnly → step.call.fetchType = .next
  bookmark : step.options.bookmarkBound = true → step.options.useBookmarks = true
  executing : step.options.executing = false
  finished : step.options.finished = true
  bindings : step.options.bindings = true

section

variable {rows : List (List TupleField)} {s s' : FetchState} {c c' : ScrollCursor}
variable {step : FetchStep} {steps : List FetchStep}

theorem FetchStep.Allowed.driverStep (h : step.Allowed) :
    driverStep step s = extendedFetch step.env step.options step.call { s with error := none } := by
  rw [PsqlOdbc.driverStep, pgapiExtendedFetch]
  dsimp only
  rw [if_neg fun hforward ↦ hforward.2 (h.forward hforward.1), if_neg, if_neg, if_neg, if_neg]
  · rw [h.bindings]
    exact Bool.false_ne_true
  · rw [h.finished]
    exact Bool.false_ne_true
  · rw [h.executing]
    exact Bool.false_ne_true
  · rintro ⟨hbound, hno⟩
    rw [h.bookmark hbound] at hno
    exact Bool.false_ne_true hno

theorem cursorStep_eq {scroll : Scroll} (hscroll : step.call.scroll? = some scroll) :
    cursorStep rows step c =
      some (rowsetReply step.env step.options step.call.rowsetSize
          (c.place rows.length step.call.rowsetSize scroll)
          (c.short rows.length step.call.rowsetSize scroll) rows,
        ⟨c.place rows.length step.call.rowsetSize scroll, step.call.rowsetSize⟩) := by
  rw [cursorStep, hscroll]
  rfl

/-- One call. -/
theorem driverStep_scroll (hs : s.Scrolls rows c s.saveRowsetSize) (h : step.Allowed) :
    ∃ reply s' c', driverStep step s = some (reply, s') ∧
      cursorStep rows step c = some (reply, c') ∧ s'.Scrolls rows c' s'.saveRowsetSize := by
  obtain ⟨scroll, hscroll⟩ := Option.isSome_iff_exists.1 h.scrolls
  have hscrolls : ({ s with saveRowsetSize := -1, error := none } : FetchState).Scrolls rows c
      s.saveRowsetSize :=
    { hs with plain := { hs.plain with } }
  have hsize := h.fits.size
  obtain ⟨pos, hpos, hplaces⟩ := position_places hscrolls h.fits hscroll rfl
  obtain ⟨s', hfetch, hplain, hstart, hsave⟩ :=
    extendedFetch_of_places (s := { s with error := none }) h.maxRows h.convert hsize hpos hplaces
  have hmem := @ScrollCursor.place_mem rows.length step.call.rowsetSize c scroll
    (Int.natCast_nonneg rows.length) hsize hs.hi (by have := hs.size; omega)
  refine ⟨_, s', _, h.driverStep.trans hfetch, cursorStep_eq hscroll, ?_⟩
  exact ⟨hplain, hstart, hmem.1, hmem.2, fun _ ↦ hsize, hsave⟩

/-- One call after the other. -/
theorem answers_scroll (hs : s.Scrolls rows c s.saveRowsetSize)
    (h : ∀ step ∈ steps, step.Allowed) :
    ∃ replies s' c', answers driverStep steps s = some (replies, s') ∧
      answers (cursorStep rows) steps c = some (replies, c') ∧
      s'.Scrolls rows c' s'.saveRowsetSize := by
  induction steps generalizing s c with
  | nil => exact ⟨[], s, c, rfl, rfl, hs⟩
  | cons step steps ih =>
    obtain ⟨reply, t, d, hdriver, hcursor, ht⟩ :=
      driverStep_scroll hs (h step List.mem_cons_self)
    obtain ⟨replies, s', c', hdriver', hcursor', hs'⟩ :=
      ih ht fun step hstep ↦ h step (List.mem_cons_of_mem _ hstep)
    exact ⟨reply :: replies, s', c', answers_cons hdriver hdriver', answers_cons hcursor hcursor',
      hs'⟩

theorem FetchState.Plain.scrolls {save : ℤ} (hs : s.Plain rows) (hstart : s.rowsetStart = -1) :
    s.Scrolls rows ⟨-1, 0⟩ save where
  plain := hs
  start := hstart
  lo := le_rfl
  hi := by
    dsimp only
    omega
  size hlo := absurd hlo (by decide)
  save hlo := absurd hlo (by decide)

/-- Whatever an application asks for from the start on, it gets what a cursor over the rows gives
that goes astray. -/
theorem answers_fetched (hs : s.Plain rows) (hstart : s.rowsetStart = -1)
    (h : ∀ step ∈ steps, step.Allowed) :
    ∃ replies s' c', answers driverStep steps s = some (replies, s') ∧
      answers (cursorStep rows) steps ⟨-1, 0⟩ = some (replies, c') ∧ s'.rowsetStart = c'.start := by
  obtain ⟨replies, s', c', hdriver, hcursor, hs'⟩ := answers_scroll (hs.scrolls hstart) h
  exact ⟨replies, s', c', hdriver, hcursor, hs'.start⟩

/-- Three rows. -/
def threeRows : List (List TupleField) := [[⟨1, none⟩], [⟨2, none⟩], [⟨3, none⟩]]

def threeRowsState : FetchState where
  rowsetStart := -1
  currTuple := -1
  lastFetchCount := 0
  lastFetchCountIncludeOmmitted := 0
  saveRowsetSize := -1
  error := none
  numTotalRead := 3
  adCount := 0
  dlCount := 0
  hasKeyset := false
  keysetThere := false
  keyset := []
  tuples := threeRows
  validBase := false
  base := 0
  keyBase := 0
  numFields := 1
  reloadCount := 0
  dataFilled := true

/-- The last two rows. -/
def lastTwo : FetchStep := ⟨aloneEnv, staticOptions, ⟨.last, 0, 0, 2⟩⟩

/-- Two rows from five in front of the last ones on. -/
def fiveBack : FetchStep := ⟨aloneEnv, staticOptions, ⟨.relative, -5, 0, 2⟩⟩

theorem threeRowsState_plain : threeRowsState.Plain threeRows :=
  ⟨rfl, by decide, by decide, by decide, rfl, rfl, by decide⟩

theorem lastTwo_allowed : lastTwo.Allowed :=
  ⟨⟨by decide, by decide, by decide, by decide⟩, rfl, fun _ _ ↦ ValueCopy.noConfusion, by decide,
    by decide, by decide, rfl, rfl, rfl⟩

theorem fiveBack_allowed : fiveBack.Allowed :=
  ⟨⟨by decide, by decide, by decide, by decide⟩, rfl, fun _ _ ↦ ValueCopy.noConfusion, by decide,
    by decide, by decide, rfl, rfl, rfl⟩

theorem answers_fetched_threeRows : ∃ replies s' c',
    answers driverStep [lastTwo, fiveBack] threeRowsState = some (replies, s') ∧
      answers (cursorStep threeRows) [lastTwo, fiveBack] ⟨-1, 0⟩ = some (replies, c') ∧
      s'.rowsetStart = c'.start := by
  refine answers_fetched threeRowsState_plain rfl fun step hstep ↦ ?_
  rcases List.mem_cons.1 hstep with rfl | hstep
  · exact lastTwo_allowed
  · exact List.mem_singleton.1 hstep ▸ fiveBack_allowed

/-- Behind any calls, a call is placed as the table of the cursor has it if and only if it does not
go astray. -/
theorem answers_start_iff {replies : List FetchReply} {scroll : Scroll} (hs : s.Plain rows)
    (hstart : s.rowsetStart = -1) (h : ∀ step ∈ steps, step.Allowed) (hstep : step.Allowed)
    (hscroll : step.call.scroll? = some scroll)
    (hrun : answers (cursorStep rows) steps ⟨-1, 0⟩ = some (replies, c)) :
    ∃ s' reply s'', answers driverStep steps s = some (replies, s') ∧
      driverStep step s' = some (reply, s'') ∧
      (s''.rowsetStart = c.move rows.length step.call.rowsetSize scroll ↔
        ¬c.Astray rows.length step.call.rowsetSize scroll) := by
  obtain ⟨replies', s', c', hdriver, hcursor, hs'⟩ := answers_scroll (hs.scrolls hstart) h
  obtain ⟨rfl, rfl⟩ := Prod.mk.inj (Option.some.inj (hcursor.symm.trans hrun))
  obtain ⟨reply, s'', d, hdriver', hcursor', hs''⟩ := driverStep_scroll hs' hstep
  rw [cursorStep_eq hscroll] at hcursor'
  obtain ⟨-, rfl⟩ := Prod.mk.inj (Option.some.inj hcursor')
  refine ⟨s', reply, s'', hdriver, hdriver', ?_⟩
  rw [hs''.start]
  exact ScrollCursor.place_eq_move_iff

theorem answers_start_iff_threeRows : ∃ replies s' reply s'',
    answers driverStep [lastTwo] threeRowsState = some (replies, s') ∧
      driverStep fiveBack s' = some (reply, s'') ∧
      (s''.rowsetStart = ScrollCursor.move 3 2 ⟨1, 2⟩ (.relative (-5)) ↔
        ¬ScrollCursor.Astray 3 2 ⟨1, 2⟩ (.relative (-5))) :=
  ⟨_, answers_start_iff threeRowsState_plain rfl
    (fun _ hstep ↦ List.mem_singleton.1 hstep ▸ lastTwo_allowed) fiveBack_allowed rfl rfl⟩

end

end PsqlOdbc
