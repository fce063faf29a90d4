import PsqlOdbc.Results.ExtendedFetch

/-!
# The rows of a result without a keyset

Where the rows of a result are all in the driver and in no keyset, a rowset consists of the rows
from its start on, whatever the buffers are (`fetchRows_plain`).
-/

namespace PsqlOdbc

open Lib

/-! ## The result -/

/-- A result that consists of these rows and has no keyset. -/
structure FetchState.Plain (rows : List (List TupleField)) (s : FetchState) : Prop where
  numTuples : s.numTuples = rows.length
  lt : rows.length < 2 ^ 31
  hasKeyset : ¬s.hasKeyset
  keysetThere : ¬s.keysetThere
  dlCount : s.dlCount = 0
  tuples : s.tuples = rows
  base : s.validBase = true → s.base = s.rowsetStart

/-- What the application gets of the rows from `q` on. -/
def rowsetReply (env : FetchEnv) (options : FetchOptions) (r q : ℤ) (short : Bool)
    (rows : List (List TupleField)) : FetchReply :=
  let rowset := if q < 0 then [] else ((rows.drop q.toNat).take r.toNat).zipIdx
  { retcode :=
      if rowset.isEmpty then .noData
      else if short || options.retrieveData &&
          rowset.any fun row ↦ env.convert row.2 row.1 = .truncated then .successWithInfo
      else .success
    pcrow := rowset.length
    rowStatus := List.replicate rowset.length 0 ++ List.replicate (r.toNat - rowset.length) rowNorow
    fetched := rowset.map fun row ↦
      ⟨row.2, q + row.2, if options.retrieveData then some row.1 else none⟩ }

namespace FetchState

variable {rows : List (List TupleField)} {s : FetchState} {q : ℤ}

theorem Plain.setRowsetStart (hs : s.Plain rows) (hq : -1 ≤ q) :
    (s.setRowsetStart q).Plain rows where
  __ := hs
  base _ := by
    change (if s.validBase = true then s.base + (q - s.rowsetStart)
      else if q < 0 then -1 else q) = q
    split_ifs with hvalid
    · rw [hs.base hvalid]
      omega
    · omega
    · rfl

theorem Plain.returnEnd (hs : s.Plain rows) (hq : -1 ≤ q) : (s.returnEnd q).Plain rows :=
  { hs.setRowsetStart hq with }

theorem Plain.cacheIdx (hs : s.Plain rows) : s.cacheIdx q = q := by
  rw [FetchState.cacheIdx]
  split_ifs with hvalid
  · rw [hs.base hvalid]
    omega
  · omega

theorem Plain.wrap (hs : s.Plain rows) : wrapSigned 32 s.numTuples = s.numTuples := by
  have hlt := hs.lt
  rw [hs.numTuples, wrapSigned]
  omega

end FetchState

open FetchState

/-! ## The rows of a rowset -/

section

variable {env : FetchEnv} {options : FetchOptions} {rows : List (List TupleField)}
variable {s s' : FetchState} {q r : ℤ}

/-- The rows behind the first `i` of a rowset that starts at `q`. -/
def rowsFrom (rows : List (List TupleField)) (r q : ℤ) (i : ℕ) : List (List TupleField × ℕ) :=
  ((rows.drop (q.toNat + i)).take (r.toNat - i)).zipIdx i

theorem rowsFrom_end {i : ℕ} (h : rows.length ≤ q.toNat + i) : rowsFrom rows r q i = [] := by
  rw [rowsFrom, List.drop_eq_nil_of_le h, List.take_nil, List.zipIdx_nil]

theorem rowsFrom_full {i : ℕ} (h : r ≤ i) : rowsFrom rows r q i = [] := by
  rw [rowsFrom, show r.toNat - i = 0 by omega, List.take_zero, List.zipIdx_nil]

theorem rowsFrom_succ {i : ℕ} {fields : List TupleField} (hi : (i : ℤ) < r)
    (h : rows[q.toNat + i]? = some fields) :
    rowsFrom rows r q i = (fields, i) :: rowsFrom rows r q (i + 1) := by
  obtain ⟨hlt, rfl⟩ := List.getElem?_eq_some_iff.1 h
  obtain ⟨m, hm⟩ : ∃ m, r.toNat - i = m + 1 := ⟨r.toNat - i - 1, by omega⟩
  rw [rowsFrom, List.drop_eq_getElem_cons hlt, hm, List.take_succ_cons, List.zipIdx_cons, rowsFrom,
    show r.toNat - (i + 1) = m by omega, add_assoc]

/-- What `SC_fetch` does not change. -/
structure FetchState.Beside (rows : List (List TupleField)) (s t : FetchState) : Prop where
  plain : t.Plain rows
  rowsetStart : t.rowsetStart = s.rowsetStart
  error : t.error = s.error

theorem FetchState.Beside.trans {t u : FetchState} (h : s.Beside rows t) (h' : t.Beside rows u) :
    s.Beside rows u :=
  ⟨h'.plain, h'.rowsetStart.trans h.rowsetStart, h'.error.trans h.error⟩

/-- The result of a row that is fetched. -/
def rowRetcode (env : FetchEnv) (options : FetchOptions) (row : List TupleField × ℕ) : Retcode :=
  if options.retrieveData then (env.convert row.2 row.1).retcode else .success

/-- `SC_fetch` at a row of the result. -/
theorem scFetch_plain {i : ℕ} {g : ℤ} {fields : List TupleField} (hs : s.Plain rows)
    (hmax : options.maxRows ≤ 0) (hcurr : s.currTuple = g - 1) (hg : 0 ≤ g)
    (hrow : rows[g.toNat]? = some fields) :
    ∃ t, scFetch env options i s = some (rowRetcode env options (fields, i), t,
        if options.retrieveData then some fields else none) ∧
      s.Beside rows t ∧ t.currTuple = g := by
  have hlt := (List.getElem?_eq_some_iff.1 hrow).1
  rw [scFetch]
  dsimp only
  change ∃ t, (if wrapSigned 32 s.numTuples - 1 ≤ s.currTuple ∨ _ then _ else _) = _ ∧ _
  rw [hs.wrap, hs.numTuples, hcurr, if_neg (by omega), sub_add_cancel,
    if_neg fun h ↦ hs.hasKeyset h.1]
  have hbeside {t : FetchState} (ht : t = { s with
      currTuple := g, lastFetchCount := 1, lastFetchCountIncludeOmmitted := 1 }) :
      s.Beside rows t := by
    subst ht
    exact ⟨{ hs with }, rfl, rfl⟩
  dsimp only [fetchRow]
  rw [rowRetcode]
  by_cases hdata : options.retrieveData = true
  · have hcache : s.cacheIdx g = g := hs.cacheIdx
    change ∃ t, (if options.retrieveData = false then _ else if s.cacheIdx g < 0 then _ else
      s.tuples[(s.cacheIdx g).toNat]?.map _) = _ ∧ _
    have hget : s.tuples[g.toNat]? = some fields := hs.tuples.symm ▸ hrow
    rw [if_neg (by rw [hdata]; exact Bool.noConfusion), hcache, if_neg (Int.not_lt.2 hg), hget,
      if_pos hdata, if_pos hdata]
    exact ⟨_, rfl, hbeside rfl, rfl⟩
  · rw [if_pos (Bool.eq_false_iff.2 hdata), if_neg hdata, if_neg hdata]
    exact ⟨_, rfl, hbeside rfl, rfl⟩

/-- `SC_fetch` behind the last row. -/
theorem scFetch_plain_end {i : ℕ} (hs : s.Plain rows)
    (hcurr : s.currTuple = rows.length - 1) :
    ∃ t, scFetch env options i s = some (.noData, t, none) ∧ s.Beside rows t := by
  rw [scFetch]
  dsimp only
  change ∃ t, (if wrapSigned 32 s.numTuples - 1 ≤ s.currTuple ∨ _ then _ else _) = _ ∧ _
  rw [hs.wrap, hs.numTuples, hcurr, if_pos (Or.inl le_rfl)]
  exact ⟨_, rfl, { hs with }, rfl, rfl⟩

theorem rowRetcode_ne_noData {row : List TupleField × ℕ} :
    rowRetcode env options row ≠ .noData := by
  rw [rowRetcode]
  split_ifs
  · cases env.convert row.2 row.1 <;> exact Retcode.noConfusion
  · exact Retcode.noConfusion

theorem rowRetcode_ne_error {row : List TupleField × ℕ} (h : env.convert row.2 row.1 ≠ .failed) :
    rowRetcode env options row ≠ .error := by
  rw [rowRetcode]
  split_ifs
  · cases hconvert : env.convert row.2 row.1 with
    | failed => exact absurd hconvert h
    | copied | truncated => exact Retcode.noConfusion
  · exact Retcode.noConfusion

theorem any_rowRetcode {rowset : List (List TupleField × ℕ)} :
    rowset.any (fun row ↦ rowRetcode env options row = .successWithInfo) =
      (options.retrieveData && rowset.any fun row ↦ env.convert row.2 row.1 = .truncated) := by
  cases hdata : options.retrieveData with
  | false =>
    rw [Bool.false_and, List.any_eq_false]
    intro row _
    simp [rowRetcode, hdata]
  | true =>
    rw [Bool.true_and]
    congr 1
    funext row
    rw [rowRetcode, if_pos hdata]
    cases env.convert row.2 row.1 <;> rfl

/-- What the loop does with the rows from `i` on. -/
structure FetchLoop.Takes (env : FetchEnv) (options : FetchOptions)
    (rows : List (List TupleField)) (r q : ℤ) (l l' : FetchLoop) : Prop where
  result : l'.result ≠ .error
  i : l'.i = l.i + (rowsFrom rows r q l.i).length
  rowStatus : l'.rowStatus = l.rowStatus ++ List.replicate (rowsFrom rows r q l.i).length 0
  fetched : l'.fetched = l.fetched ++ (rowsFrom rows r q l.i).map fun row ↦
    ⟨row.2, q + row.2, if options.retrieveData then some row.1 else none⟩
  truncated : l'.truncated = (l.truncated ||
    (rowsFrom rows r q l.i).any fun row ↦ rowRetcode env options row = .successWithInfo)
  beside : l.state.Beside rows l'.state

namespace FetchLoop

variable {l m l' : FetchLoop}

/-- Nothing is left. -/
theorem Takes.nil (hnil : rowsFrom rows r q l.i = []) (hresult : l'.result ≠ .error)
    (hi : l'.i = l.i) (hstatus : l'.rowStatus = l.rowStatus) (hfetched : l'.fetched = l.fetched)
    (htruncated : l'.truncated = l.truncated) (hbeside : l.state.Beside rows l'.state) :
    Takes env options rows r q l l' where
  result := hresult
  i := by rw [hnil, hi, List.length_nil, Nat.add_zero]
  rowStatus := by rw [hnil, hstatus, List.length_nil, List.replicate_zero, List.append_nil]
  fetched := by rw [hnil, hfetched, List.map_nil, List.append_nil]
  truncated := by rw [hnil, htruncated, List.any_nil, Bool.or_false]
  beside := hbeside

/-- One row in front. -/
theorem Takes.cons {fields : List TupleField}
    (hcons : rowsFrom rows r q l.i = (fields, l.i) :: rowsFrom rows r q (l.i + 1))
    (hi : m.i = l.i + 1) (hstatus : m.rowStatus = l.rowStatus ++ [0])
    (hfetched : m.fetched = l.fetched ++
      [⟨l.i, q + l.i, if options.retrieveData then some fields else none⟩])
    (htruncated : m.truncated =
      (l.truncated || decide (rowRetcode env options (fields, l.i) = .successWithInfo)))
    (hbeside : l.state.Beside rows m.state) (h : Takes env options rows r q m l') :
    Takes env options rows r q l l' where
  result := h.result
  i := by
    rw [hcons, h.i, hi, List.length_cons]
    omega
  rowStatus := by
    rw [hcons, h.rowStatus, hstatus, hi, List.length_cons, List.replicate_succ, List.append_assoc]
    rfl
  fetched := by
    rw [hcons, h.fetched, hfetched, hi, List.map_cons, List.append_assoc]
    rfl
  truncated := by
    rw [hcons, h.truncated, htruncated, hi, List.any_cons, Bool.or_assoc]
  beside := hbeside.trans h.beside

/-- The loop, from an `SC_fetch` on. -/
theorem run_plain {rounds : ℕ} (hmax : options.maxRows ≤ 0)
    (hconvert : ∀ i fields, env.convert i fields ≠ .failed) (hs : l.state.Plain rows)
    (hq : 0 ≤ q) (hcurr : l.state.currTuple = q + l.i - 1) (hi : (l.i : ℤ) < r)
    (hle : q + l.i ≤ rows.length) (hrounds : rows.length - (q + l.i) < rounds) :
    ∃ result t row, scFetch env options l.i l.state = some (result, t, row) ∧
      l.state.Beside rows t ∧ ∀ currp, ∃ l',
        run env options r rounds { l with state := t, result, row, currp } = some l' ∧
          Takes env options rows r q l l' := by
  induction rounds generalizing l with
  | zero => omega
  | succ rounds ih =>
    rcases hle.eq_or_lt with hend | hlt
    · obtain ⟨t, hfetch, hbeside⟩ : ∃ t, scFetch env options l.i l.state = some (.noData, t, none) ∧
          l.state.Beside rows t := scFetch_plain_end hs (by omega)
      refine ⟨_, t, _, hfetch, hbeside, fun currp ↦ ⟨_, by rw [run, if_pos (Or.inl rfl)], ?_⟩⟩
      exact .nil (rowsFrom_end (by omega)) Retcode.noConfusion rfl rfl rfl rfl hbeside
    · obtain ⟨fields, hrow⟩ : ∃ fields, rows[q.toNat + l.i]? = some fields :=
        ⟨_, List.getElem?_eq_getElem (by omega)⟩
      have hplace : (q + l.i).toNat = q.toNat + l.i := by omega
      obtain ⟨t, hfetch, hbeside, hcurr'⟩ : ∃ t, scFetch env options l.i l.state =
            some (rowRetcode env options (fields, l.i), t,
              if options.retrieveData then some fields else none) ∧
          l.state.Beside rows t ∧ t.currTuple = q + l.i :=
        scFetch_plain hs hmax hcurr (by omega) (hplace.symm ▸ hrow)
      have hthere := hbeside.plain.keysetThere
      refine ⟨_, t, _, hfetch, hbeside, fun currp ↦ ?_⟩
      have herror : rowRetcode env options (fields, l.i) ≠ .error :=
        rowRetcode_ne_error (hconvert _ _)
      rw [run, if_neg (not_or.2 ⟨rowRetcode_ne_noData, herror⟩)]
      dsimp only
      rw [if_neg fun h ↦ hthere h.1, if_neg fun h ↦ hthere h.1]
      obtain ⟨m, hm⟩ : ∃ m, m = take { l with
          state := t
          result := rowRetcode env options (fields, l.i)
          row := if options.retrieveData then some fields else none
          currp
          fcIo := l.fcIo + 1 } := ⟨_, rfl⟩
      have hstate : m.state = t := by
        rw [hm, take]
        dsimp only
        rw [if_neg hthere]
      have hmi : m.i = l.i + 1 := by rw [hm, take]
      have hcons {l' : FetchLoop} (h : Takes env options rows r q m l') :
          Takes env options rows r q l l' := by
        refine .cons (rowsFrom_succ hi hrow) hmi ?_ ?_ ?_ (hstate ▸ hbeside) h
        · rw [hm, take]
          dsimp only
          rw [if_neg hthere]
        · rw [hm, take]
          dsimp only
          rw [hcurr']
        · rw [hm, take]
      rw [← hm]
      split_ifs with hfull
      · refine ⟨m, rfl, hcons (.nil (rowsFrom_full hfull) ?_ rfl rfl rfl rfl ?_)⟩
        · rw [hm]
          exact herror
        · exact ⟨hstate ▸ hbeside.plain, rfl, rfl⟩
      · obtain ⟨result, u, row, hfetch', -, hrun⟩ := ih (l := m) (hstate ▸ hbeside.plain)
          (by rw [hstate, hcurr', hmi]; omega) (by omega) (by omega) (by omega)
        obtain ⟨l', hl', htakes⟩ := hrun (m.currp + 1)
        rw [step, hfetch', Option.map_some, Option.bind_some]
        exact ⟨l', hl', hcons htakes⟩

end FetchLoop

/-- The rows of a rowset that starts at a row, or behind the last one. -/
theorem fetchRows_plain (hmax : options.maxRows ≤ 0)
    (hconvert : ∀ i fields, env.convert i fields ≠ .failed) (hs : s.Plain rows) (hr : 1 ≤ r)
    (hq : 0 ≤ q) (hle : q ≤ rows.length) (hstart : s.rowsetStart = q)
    (hcurr : s.currTuple = q - 1) (short : Bool)
    (hshort : short = decide (s.error.map Prod.fst = some .posBeforeRecordset)) :
    ∃ s', fetchRows env options r s = some (rowsetReply env options r q short rows, s') ∧
      s'.Plain rows ∧ s'.rowsetStart = q ∧ s'.saveRowsetSize = r := by
  obtain ⟨result, t, row, hfetch, hbeside, hrun⟩ := @FetchLoop.run_plain env options rows q r
    ⟨s, .success, none, 0, 0, -1, false, [], []⟩ (rows.length + 1) hmax hconvert hs hq
    (by simp [hcurr]) (by simp; omega) (by simp; omega) (by simp; omega)
  obtain ⟨l, hrun, htakes⟩ := hrun (-1)
  dsimp only at hfetch
  have hthere := hbeside.plain.keysetThere
  rw [fetchRows, hfetch, Option.bind_some]
  dsimp only
  rw [if_neg hthere, if_neg fun h ↦ hthere h.2.2.1, hbeside.plain.numTuples, Int.toNat_natCast]
  dsimp only at hrun
  rw [hrun, Option.map_some, finishFetch, if_neg htakes.result]
  obtain ⟨rowset, hrowset⟩ : ∃ rowset, rowset = ((rows.drop q.toNat).take r.toNat).zipIdx :=
    ⟨_, rfl⟩
  have hrows : rowsFrom rows r q 0 = rowset := hrowset.symm
  have hi : l.i = rowset.length := by
    have hi := htakes.i
    dsimp only at hi
    rw [hi, hrows, Nat.zero_add]
  have hstatus : l.rowStatus = List.replicate rowset.length 0 := by
    have hstatus := htakes.rowStatus
    dsimp only at hstatus
    rw [hstatus, hrows, List.nil_append]
  have hfetched := htakes.fetched
  have htruncated := htakes.truncated
  dsimp only at hfetched htruncated
  rw [hrows, List.nil_append] at hfetched
  rw [hrows, Bool.false_or] at htruncated
  have hlast := htakes.beside
  refine ⟨_, congrArg some (Prod.ext ?_ rfl), ?_, hlast.rowsetStart.trans hstart, rfl⟩
  · rw [rowsetReply, ← hrowset, if_neg (Int.not_lt.2 hq)]
    dsimp only
    rw [hi, hstatus, hfetched, htruncated, hlast.error]
    congr 1
    rw [any_rowRetcode]
    cases rowset with
    | nil => rfl
    | cons row rowset =>
      rw [if_neg (by simp), List.isEmpty_cons, if_neg Bool.false_ne_true, hshort]
      by_cases hcut : (options.retrieveData &&
          (row :: rowset).any fun row ↦ env.convert row.2 row.1 = .truncated) = true
      · rw [if_pos hcut, hcut, Bool.or_true, if_pos rfl]
      · rw [if_neg hcut, Bool.eq_false_iff.2 hcut, Bool.or_false]
        simp only [decide_eq_true_eq]
  · exact { hlast.plain with }

end

end PsqlOdbc
