import PsqlOdbc.Results.ResultListKept

/-!
# The results of a statement are a list

The links of a statement make up the list of what it has kept, from `rhold.first` to `rhold.last`,
through every run of calls that meet what the code takes for granted.
-/

namespace PsqlOdbc

open Lib

/-! ## Statements -/

/-- The results of a statement without their addresses, and the place of the current one. -/
structure ResultView where
  results : List ResultData
  cur : Option ℕ

/-- The links of a statement are these. -/
structure ResultStatement.Lists (stmt : ResultStatement) (view : ResultView)
    (cells : List (ℕ × ResultData)) : Prop where
  seg : Seg stmt.heap stmt.rhold.first cells none
  results : cells.map Prod.snd = view.results
  last : stmt.rhold.last = (cells.map Prod.fst).getLast?
  curres : stmt.curres = view.cur.bind fun i ↦ (cells.map Prod.fst)[i]?
  cur_lt : ∀ i ∈ view.cur, i < view.results.length

/-- From `rhold.first` on there are links, none twice and none released, with the results in order;
they end in `rhold.last`, and `curres` is null or one of them. -/
def ResultStatement.Right (stmt : ResultStatement) (view : ResultView) : Prop :=
  ∃ cells, stmt.Lists view cells ∧ (cells.map Prod.fst).Nodup

namespace ResultStatement

variable {self : ResultStatement} {view : ResultView} {cells added : List (ℕ × ResultData)}
  {heap : Links ResultData} {p : Option ℕ}

theorem Lists.right (h : self.Lists view cells) : self.Right view := ⟨cells, h, h.seg.nodup⟩

theorem new_right : ResultStatement.new.Right ⟨[], none⟩ :=
  @Lists.right .new ⟨[], none⟩ [] ⟨rfl, rfl, rfl, rfl, nofun⟩

/-- The heap goes on. -/
theorem Lists.frame (h : self.Lists view cells) (hframe : self.heap.Frame heap) :
    { self with heap := heap }.Lists view cells :=
  ⟨h.seg.frame hframe, h.results, h.last, h.curres, h.cur_lt⟩

theorem Lists.cur_eq_none (h : self.Lists view []) : view.cur = none := by
  cases hcur : view.cur with
  | none => rfl
  | some i =>
    have hlt := h.cur_lt i hcur
    rw [← h.results] at hlt
    exact absurd hlt (Nat.not_lt_zero i)

/-- Behind the last result there is none. -/
theorem Right.nextr_last {addr : ℕ} (h : self.Right view) (hlast : self.rhold.last = some addr) :
    self.heap.nextr (some addr) = some none := by
  obtain ⟨cells, h, -⟩ := h
  rcases List.eq_nil_or_concat' cells with rfl | ⟨front, cell, rfl⟩
  · exact absurd (hlast.symm.trans h.last) nofun
  · rw [h.last, List.map_append, List.map_singleton, List.getLast?_concat] at hlast
    rw [← Option.some.inj hlast]
    exact h.seg.nextr_middle

/-- A list that is all there is, with the first result as the current one. -/
theorem lists_first {last : Option ℕ} (h : Seg heap p cells none)
    (hlast : last = (cells.map Prod.fst).getLast?) :
    ResultStatement.Lists ⟨heap, ⟨p, last⟩, p⟩
      ⟨cells.map Prod.snd, if cells = [] then none else some 0⟩ cells := by
  refine ⟨h, rfl, hlast, ?_, ?_⟩
  · cases cells with
    | nil => exact h
    | cons cell cells => exact h.1
  · cases cells with
    | nil => exact nofun
    | cons cell cells =>
      rintro _ ⟨⟩
      exact Nat.succ_pos _

/-- `SC_set_Result` with another list. -/
theorem scSetResult_eq (h : Seg self.heap self.rhold.first cells none)
    (hadded : Seg self.heap p added none) (hne : p ≠ self.rhold.first)
    (hdisjoint : ∀ addr ∈ cells.map Prod.fst, addr ∉ added.map Prod.fst) :
    ∃ self', self.scSetResult p = some self' ∧ self'.rhold.first = p ∧
      self'.Lists ⟨added.map Prod.snd, if added = [] then none else some 0⟩ added := by
  have hadded' := hadded.without hdisjoint
  refine ⟨⟨_, ⟨p, (added.map Prod.fst).getLast?⟩, p⟩, ?_, rfl, lists_first hadded' rfl⟩
  rw [scSetResult, if_neg hne, h.destroy, Option.bind_some]
  exact congrArg (Option.map _) hadded'.last

/-- A list for a statement without results. -/
theorem scSetResult_none (h : Seg self.heap p cells none) (hne : p ≠ none)
    (hnone : self.rhold.first = none) :
    self.scSetResult p = some ⟨self.heap, ⟨p, (cells.map Prod.fst).getLast?⟩, p⟩ := by
  rw [scSetResult, hnone, if_neg hne, Links.destroy_none, Option.bind_some, h.last,
    Option.map_some]

end ResultStatement

/-! ## What is put behind -/

namespace Execution

variable {execution : Execution} {self : ResultStatement} {view : ResultView}
  {rhold : QResultHold} {cells added : List (ℕ × ResultData)} {heap : Links ResultData}
  {p : Option ℕ}

/-- `curres` where it was null. -/
def withCurres (self : ResultStatement) : ResultStatement :=
  { self with
    curres := match self.curres with
      | none => self.rhold.first
      | some res => some res }

/-- The place of the current result behind an execution. -/
def curAfter (view : ResultView) (results : List ResultData) : Option ℕ :=
  view.cur.or (if view.results ++ results = [] then none else some 0)

/-- New results become those of a statement without any. -/
theorem addResults_nil (h : self.Lists view []) (hadded : NewList self.heap heap rhold.first added)
    (hlast : rhold.last = (added.map Prod.fst).getLast?) :
    ∃ self', addResults { self with heap := heap } rhold = some self' ∧
      withCurres self' = ⟨heap, rhold, rhold.first⟩ := by
  have hcurres : self.curres = none := by rw [h.curres, h.cur_eq_none]; rfl
  obtain ⟨base, ⟨first, last⟩, curres⟩ := self
  obtain rfl : first = none := h.seg
  obtain rfl : last = none := h.last
  obtain rfl : curres = none := hcurres
  obtain ⟨newFirst, newLast⟩ := rhold
  cases newFirst with
  | none =>
    obtain rfl : added = [] := hadded.seg.eq_nil_iff.2 rfl
    obtain rfl : newLast = none := hlast
    exact ⟨_, rfl, rfl⟩
  | some newFirst =>
    refine ⟨⟨heap, ⟨some newFirst, newLast⟩, some newFirst⟩, ?_, rfl⟩
    rw [addResults]
    dsimp only
    rw [ResultStatement.scSetResultHold, if_neg (Option.some_ne_none newFirst),
      Links.destroy_none, Option.map_some]

/-- New results go behind those of a statement that has some. -/
theorem addResults_cons (h : self.Lists view cells) (hcells : cells ≠ [])
    (hadded : NewList self.heap heap rhold.first added) :
    ∃ heap', addResults { self with heap := heap } rhold =
        some ⟨heap', ⟨self.rhold.first, rhold.last⟩, self.curres⟩ ∧
      Seg heap' self.rhold.first (cells ++ added) none := by
  obtain ⟨front, last, rfl⟩ := List.eq_nil_or_concat' cells |>.resolve_left hcells
  have hselfLast : self.rhold.last = some last.1 := by
    rw [h.last, List.map_append, List.map_singleton, List.getLast?_concat]
  obtain ⟨heap', hset, hseg⟩ := (NewList.of_seg h.seg).setNext hadded
  have hfirst : self.rhold.first ≠ none := fun hnone ↦ hcells (h.seg.eq_nil_iff.2 hnone)
  obtain ⟨first, hfirst⟩ := Option.ne_none_iff_exists'.1 hfirst
  have hdifferent : some last.1 ≠ rhold.first := by
    rw [hadded.seg.eq_head]
    intro heq
    have hmem := List.mem_of_mem_head? (Option.mem_def.2 heq.symm)
    exact hadded.notMem (h.seg.lt_next (by simp)) hmem
  refine ⟨heap', ?_, ?_⟩
  · rw [addResults]
    dsimp only
    rw [hfirst]
    dsimp only
    rw [hselfLast, if_neg hdifferent, hset, Option.map_some]
  · rw [List.append_assoc]
    exact hseg.seg

/-- New results go behind those there are. -/
theorem addResults_eq (h : self.Lists view cells)
    (hadded : NewList self.heap heap rhold.first added)
    (hlast : rhold.last = (added.map Prod.fst).getLast?) (hempty : added = [] → cells = []) :
    ∃ self', addResults { self with heap := heap } rhold = some self' ∧
      (withCurres self').Lists ⟨view.results ++ added.map Prod.snd,
        curAfter view (added.map Prod.snd)⟩ (cells ++ added) := by
  by_cases hcells : cells = []
  · subst hcells
    obtain ⟨self', hadd, hself'⟩ := addResults_nil h hadded hlast
    have hview : ⟨view.results ++ added.map Prod.snd, curAfter view (added.map Prod.snd)⟩ =
        (⟨added.map Prod.snd, if added = [] then none else some 0⟩ : ResultView) := by
      rw [curAfter, h.cur_eq_none, Option.none_or, ← h.results, List.map_nil, List.nil_append]
      cases added <;> rfl
    refine ⟨self', hadd, ?_⟩
    rw [hview, hself']
    exact ResultStatement.lists_first hadded.seg hlast
  · have hne : added ≠ [] := fun hnil ↦ hcells (hempty hnil)
    obtain ⟨heap', hadd, hseg⟩ := addResults_cons h hcells hadded
    have hlength : 0 < cells.length := List.length_pos_iff.2 hcells
    have hresults : ¬view.results ++ added.map Prod.snd = [] := by
      rw [← h.results, ← List.map_append, List.map_eq_nil_iff, List.append_eq_nil_iff]
      exact fun hnil ↦ hcells hnil.1
    have hcurAfter : (withCurres ⟨heap', ⟨self.rhold.first, rhold.last⟩, self.curres⟩).curres =
          (curAfter view (added.map Prod.snd)).bind
            (fun i ↦ ((cells ++ added).map Prod.fst)[i]?) ∧
        ∀ i ∈ curAfter view (added.map Prod.snd), i < cells.length := by
      rw [curAfter, withCurres]
      cases hcur : view.cur with
      | none =>
        have hcurres : self.curres = none := by rw [h.curres, hcur]; rfl
        rw [hcurres, Option.none_or, if_neg hresults]
        refine ⟨?_, ?_⟩
        · rw [Option.bind_some, ← List.head?_eq_getElem?, ← hseg.eq_head]
        · rintro _ ⟨⟩
          exact hlength
      | some i =>
        have hlt := h.cur_lt i hcur
        rw [← h.results, List.length_map] at hlt
        obtain ⟨addr, haddr⟩ : ∃ addr, (cells.map Prod.fst)[i]? = some addr :=
          ⟨_, List.getElem?_eq_getElem (by rwa [List.length_map])⟩
        have hcurres : self.curres = some addr := by rw [h.curres, hcur, Option.bind_some, haddr]
        rw [hcurres, Option.some_or]
        refine ⟨?_, ?_⟩
        · rw [Option.bind_some, List.map_append,
            List.getElem?_append_left (by rwa [List.length_map]), haddr]
        · rintro _ ⟨⟩
          exact hlt
    refine ⟨_, hadd, hseg, ?_, ?_, hcurAfter.1, fun i hi ↦ ?_⟩
    · rw [List.map_append, h.results]
    · obtain ⟨back, last, rfl⟩ := (List.eq_nil_or_concat' added).resolve_left hne
      rw [withCurres, hlast, ← List.append_assoc]
      simp only [List.map_append, List.map_singleton, List.getLast?_concat]
    · have hlt := hcurAfter.2 i hi
      rw [List.length_append, ← h.results, List.length_map]
      omega

/-! ## The cursors of a procedure -/

variable {data : ResultData} {cols : List ℕ}

/-- A column with a cursor has a value. -/
theorem value_of_row (hrow : ∀ i, data.fields[i]? = some pgTypeRefcursor → i < data.firstRow.length)
    {i : ℕ} (htype : data.fields[i]? = some pgTypeRefcursor) :
    ∃ value, data.firstRow[i]? = some value :=
  ⟨_, List.getElem?_eq_getElem (hrow i htype)⟩

/-- Where nothing is fetched the statement stays as it is. -/
theorem refcursorLoop_none (state : FetchState)
    (hrow : ∀ i, data.fields[i]? = some pgTypeRefcursor → i < data.firstRow.length)
    (hnone : (execution.fetched data cols).lists = []) :
    ∃ heap', execution.refcursorLoop data cols state =
        some ⟨{ state.self with heap := heap' }, state.last,
          state.refcursorFound || (execution.fetched data cols).found,
          state.failed || (execution.fetched data cols).failed⟩ ∧
      state.self.heap.Frame heap' := by
  induction cols generalizing state with
  | nil =>
    refine ⟨state.self.heap, ?_, .refl _⟩
    rw [refcursorLoop, fetched, Bool.or_false, Bool.or_false]
  | cons i cols ih =>
    rw [refcursorLoop]
    rw [fetched] at hnone ⊢
    by_cases htype : data.fields[i]? = some pgTypeRefcursor
    · obtain ⟨value, hvalue⟩ := value_of_row hrow htype
      simp only [if_pos htype, hvalue, Option.join_some, Option.bind_some] at hnone ⊢
      cases htrans : execution.inTrans i with
      | false =>
        refine ⟨state.self.heap, ?_, .refl _⟩
        simp only [Bool.not_false, if_true, Bool.or_false, Bool.or_true]
      | true =>
        simp only [htrans, Bool.not_true, Bool.false_eq_true, if_false] at hnone ⊢
        cases value with
        | none =>
          obtain ⟨heap', hloop, hframe⟩ := ih { state with refcursorFound := true } hnone
          refine ⟨heap', ?_, hframe⟩
          dsimp only at hloop ⊢
          rw [hloop, Bool.true_or, Bool.or_true]
        | some name =>
          cases hreceived : receivedOf (execution.fetches i) with
          | nil =>
            rw [hreceived] at hnone
            obtain ⟨hold, heap₁, cells, hsend, hlist, hcells, -⟩ :=
              ccSendQuery_eq (execution.fetches i) state.self.heap
            rw [hreceived, List.map_eq_nil_iff] at hcells
            have hfirst : hold.first = none := hlist.seg.eq_nil_iff.1 hcells
            obtain ⟨heap', hloop, hframe⟩ :=
              ih ⟨{ state.self with heap := heap₁ }, state.last, true, state.failed⟩ hnone
            refine ⟨heap', ?_, hlist.frame.trans hframe⟩
            dsimp only at hloop ⊢
            rw [hsend, Option.bind_some]
            dsimp only
            rw [hfirst]
            dsimp only
            rw [hloop, Bool.true_or, Bool.or_true]
          | cons res more =>
            simp only [hreceived] at hnone
            split_ifs at hnone
    · rw [if_neg htype] at hnone ⊢
      rw [if_neg htype]
      exact ih state hnone

/-- The results of the one cursor that is there to be fetched from become those of the
statement. -/
theorem refcursorLoop_one (state : FetchState) (hlast : state.last = none)
    (hrow : ∀ i, data.fields[i]? = some pgTypeRefcursor → i < data.firstRow.length)
    {results : List ResultData} (hone : (execution.fetched data cols).lists = [results]) :
    ∃ self' res cells, execution.refcursorLoop data cols state =
        some ⟨self', some res, true, state.failed || (execution.fetched data cols).failed⟩ ∧
      (execution.fetched data cols).found = true ∧
      NewList state.self.heap self'.heap self'.rhold.first cells ∧ cells ≠ [] ∧
      cells.map Prod.snd = results ∧ self'.rhold.last = (cells.map Prod.fst).getLast? ∧
      self'.curres = self'.rhold.first := by
  induction cols generalizing state with
  | nil =>
    rw [fetched] at hone
    exact absurd hone nofun
  | cons i cols ih =>
    rw [refcursorLoop]
    rw [fetched] at hone ⊢
    by_cases htype : data.fields[i]? = some pgTypeRefcursor
    · obtain ⟨value, hvalue⟩ := value_of_row hrow htype
      simp only [if_pos htype, hvalue, Option.join_some, Option.bind_some] at hone ⊢
      cases htrans : execution.inTrans i with
      | false =>
        rw [htrans] at hone
        exact absurd hone nofun
      | true =>
        simp only [htrans, Bool.not_true, Bool.false_eq_true, if_false] at hone ⊢
        cases value with
        | none =>
          obtain ⟨self', res, cells, hloop, -, hrest⟩ :=
            ih { state with refcursorFound := true } hlast hone
          exact ⟨self', res, cells, hloop, rfl, hrest⟩
        | some name =>
          obtain ⟨hold, heap₁, cells, hsend, hlist, hcells, -⟩ :=
            ccSendQuery_eq (execution.fetches i) state.self.heap
          dsimp only
          rw [hsend, Option.bind_some]
          dsimp only
          cases hreceived : receivedOf (execution.fetches i) with
          | nil =>
            rw [hreceived] at hone hcells
            rw [List.map_eq_nil_iff] at hcells
            have hfirst : hold.first = none := hlist.seg.eq_nil_iff.1 hcells
            obtain ⟨self', res, cells', hloop, -, hlist', hrest⟩ :=
              ih ⟨{ state.self with heap := heap₁ }, state.last, true, state.failed⟩ hlast hone
            rw [hfirst]
            exact ⟨self', res, cells', hloop, rfl,
              ⟨hlist'.seg, hlist.frame.trans hlist'.frame,
                fun cell hcell ↦ Nat.le_trans hlist.frame.next_le (hlist'.le_addr cell hcell)⟩,
              hrest⟩
          | cons res more =>
            simp only [hreceived] at hone ⊢
            obtain ⟨cell, rest, rfl⟩ : ∃ cell rest, cells = cell :: rest := by
              cases cells with
              | nil => exact absurd (hcells.trans hreceived) nofun
              | cons cell rest => exact ⟨cell, rest, rfl⟩
            rw [hreceived, List.map_cons] at hcells
            injection hcells with hres hmore
            obtain ⟨hfirst, next, hcell, -⟩ := id hlist.seg
            have hset : { state.self with heap := heap₁ }.scInitResult.scSetResult hold.first =
                some ⟨heap₁, ⟨hold.first, ((cell :: rest).map Prod.fst).getLast?⟩, hold.first⟩ :=
              ResultStatement.scSetResult_none hlist.seg
                (by rw [hfirst]; exact Option.some_ne_none _) rfl
            rw [hfirst] at hset hlist ⊢
            dsimp only
            rw [hlast]
            dsimp only
            rw [hset, Option.bind_some, hcell, Option.bind_some]
            dsimp only
            rw [hres]
            cases hfailed : res.failed with
            | true =>
              simp only [hfailed, if_true] at hone ⊢
              refine ⟨⟨heap₁, ⟨some cell.1, ((cell :: rest).map Prod.fst).getLast?⟩, some cell.1⟩,
                cell.1, cell :: rest, ?_, trivial, hlist, List.cons_ne_nil _ _, ?_, rfl, rfl⟩
              · rw [Bool.or_true]
              · rw [List.map_cons, hres, hmore]
                exact List.singleton_inj.1 hone
            | false =>
              simp only [hfailed, Bool.false_eq_true, if_false] at hone ⊢
              injection hone with hresults hnone
              obtain ⟨heap', hloop, hframe⟩ := @refcursorLoop_none execution data cols
                ⟨⟨heap₁, ⟨some cell.1, ((cell :: rest).map Prod.fst).getLast?⟩, some cell.1⟩,
                  some cell.1, true, state.failed⟩ hrow hnone
              rw [Bool.true_or] at hloop
              refine ⟨_, cell.1, cell :: rest, hloop, trivial, hlist.mono hframe,
                List.cons_ne_nil _ _, ?_, rfl, rfl⟩
              rw [List.map_cons, hres, hmore, hresults]
    · rw [if_neg htype] at hone ⊢
      rw [if_neg htype]
      exact ih state hlast hone

/-- What a statement without other results has got from the cursors. -/
theorem right_instead {results : List ResultData} (h : Seg heap p cells none)
    (hcells : cells.map Prod.snd = results) (hne : cells ≠ []) (hview : view.results = [])
    (hcur : view.cur = none) :
    ResultStatement.Right ⟨heap, ⟨p, (cells.map Prod.fst).getLast?⟩, p⟩
      ⟨view.results ++ results, curAfter view results⟩ := by
  have hlists := ResultStatement.lists_first h rfl
  have hresults : results ≠ [] := by
    rw [← hcells]
    exact fun hnil ↦ hne (List.map_eq_nil_iff.1 hnil)
  rw [hcells, if_neg hne] at hlists
  rw [curAfter, hview, hcur, List.nil_append, Option.none_or, if_neg hresults]
  exact hlists.right

/-- The results of the cursors stand for those of the procedure. -/
theorem fetchResults_eq {cell : ℕ × ResultData} {rest : List (ℕ × ResultData)}
    (h : self.Lists ⟨view.results ++ (cell :: rest).map Prod.snd,
      curAfter view ((cell :: rest).map Prod.snd)⟩ (cells ++ cell :: rest))
    (hfirst : rhold.first = some cell.1) (hcells : cells.map Prod.snd = view.results)
    (hcur : view.results = [] → view.cur = none)
    (hrow : ∀ i, cell.2.fields[i]? = some pgTypeRefcursor → i < cell.2.firstRow.length)
    (hone : (execution.fetchedAll cell.2).lists.length ≤ 1)
    (hold : (execution.fetchedAll cell.2).found = true → view.results = []) :
    ∃ self', execution.fetchResults self rhold =
        some (self', (execution.fetchedAll cell.2).failed) ∧
      self'.Right ⟨view.results ++ execution.instead cell.2 ((cell :: rest).map Prod.snd),
        curAfter view (execution.instead cell.2 ((cell :: rest).map Prod.snd))⟩ := by
  obtain ⟨q, -, hq, next, hcell, hrest⟩ := h.seg.split
  have hadded : Seg self.heap (some cell.1) (cell :: rest) none := ⟨rfl, next, hcell, hrest⟩
  rw [fetchResults, hfirst, Option.bind_some, hcell, Option.bind_some]
  dsimp only
  rcases hlists : (execution.fetchedAll cell.2).lists with - | ⟨results, - | ⟨more, others⟩⟩
  · obtain ⟨heap', hloop, hframe⟩ :=
      refcursorLoop_none ⟨self, none, false, false⟩ hrow hlists
    rw [Bool.false_or, Bool.false_or] at hloop
    rw [hloop, Option.bind_some]
    dsimp only
    rw [show (execution.fetched cell.2 (List.range cell.2.fields.length)).found =
      (execution.fetchedAll cell.2).found from rfl]
    rw [instead, hlists]
    cases hfound : (execution.fetchedAll cell.2).found with
    | false =>
      refine ⟨_, rfl, ?_⟩
      rw [if_neg Bool.false_ne_true]
      exact (h.frame hframe).right
    | true =>
      have hview := hold hfound
      obtain rfl : cells = [] := List.map_eq_nil_iff.1 (hcells.trans hview)
      have hselfFirst : self.rhold.first = some cell.1 := h.seg.1
      have hlt : ∀ addr ∈ (cell :: rest).map Prod.fst, addr < heap'.next := fun addr haddr ↦
        Nat.lt_of_lt_of_le (hadded.lt_next haddr) hframe.next_le
      have hempty := NewList.alloc (.refl heap') qrConstructor
      obtain ⟨self', hset, -, hself'⟩ := @ResultStatement.scSetResult_eq
        { self with heap := heap'.alloc ⟨qrConstructor, none⟩ } (cell :: rest)
        [(heap'.next, qrConstructor)] (some heap'.next)
        (hselfFirst ▸ (hadded.frame hframe).frame (.alloc heap' _)) hempty.seg
        (by
          rw [hselfFirst]
          intro heq
          have := hlt cell.1 List.mem_cons_self
          have := Option.some.inj heq
          omega)
        (fun addr haddr ↦ hempty.notMem (hlt addr haddr))
      rw [if_pos rfl, if_pos rfl]
      refine ⟨self', ?_, ?_⟩
      · rw [hset]
        rfl
      · rw [curAfter, hview, hcur hview]
        exact hself'.right
  · obtain ⟨self', res, cells', hloop, hfound, hlist, hne, hcells', hlast, hcurres⟩ :=
      refcursorLoop_one ⟨self, none, false, false⟩ rfl hrow hlists
    replace hfound : (execution.fetchedAll cell.2).found = true := hfound
    have hview := hold hfound
    rw [Bool.false_or] at hloop
    have hdestroy := (hadded.frame hlist.frame).destroy
    have hseg := hlist.seg.without fun addr haddr ↦ hlist.notMem (hadded.lt_next haddr)
    obtain ⟨heap', ⟨first, last⟩, curres⟩ := self'
    obtain rfl : last = _ := hlast
    obtain rfl : curres = first := hcurres
    rw [hloop, Option.bind_some]
    dsimp only
    rw [if_pos rfl, hdestroy, Option.map_some, instead, hlists, if_pos hfound,
      if_neg (List.cons_ne_nil _ _), List.flatten_singleton]
    exact ⟨_, rfl, right_instead hseg hcells' hne hview (hcur hview)⟩
  · rw [hlists, List.length_cons, List.length_cons] at hone
    omega

/-! ## The end of `SC_execute` -/

/-- Behind the results a statement has there are those of the execution. -/
theorem finish_eq {failed : Bool} {self' : ResultStatement}
    (hadd : addResults self rhold = some self')
    (h : (withCurres self').Lists ⟨view.results ++ added.map Prod.snd,
      curAfter view (added.map Prod.snd)⟩ (cells ++ added))
    (hfirst : rhold.first = (added.map Prod.fst).head?) (hcells : cells.map Prod.snd = view.results)
    (hcur : view.results = [] → view.cur = none) (hfailed : added = [] → failed = true)
    (hfetch : execution.MeetsFetch view.results (added.map Prod.snd) failed) :
    ∃ self', execution.finish self rhold failed =
        some (self', (execution.finished (added.map Prod.snd) failed).2) ∧
      self'.Right ⟨view.results ++ (execution.finished (added.map Prod.snd) failed).1,
        curAfter view (execution.finished (added.map Prod.snd) failed).1⟩ := by
  rw [finish, hadd, Option.bind_some, finished]
  dsimp only
  cases hproc : execution.procCall && !failed with
  | false =>
    rw [if_neg Bool.false_ne_true, if_neg Bool.false_ne_true]
    exact ⟨_, rfl, h.right⟩
  | true =>
    rw [if_pos rfl, if_pos rfl]
    cases hcursors : execution.fetchRefcursors with
    | false =>
      rw [if_neg Bool.false_ne_true, if_neg Bool.false_ne_true]
      exact ⟨_, rfl, h.right⟩
    | true =>
      obtain ⟨cell, rest, rfl⟩ : ∃ cell rest, added = cell :: rest := by
        cases added with
        | nil =>
          rw [hfailed rfl, Bool.not_true, Bool.and_false] at hproc
          exact absurd hproc Bool.false_ne_true
        | cons cell rest => exact ⟨cell, rest, rfl⟩
      obtain ⟨hrow, hone, hold⟩ := hfetch
        (by rw [fetchesCursors, hproc, hcursors]; rfl) cell.2 rfl
      obtain ⟨self'', hresults, hright⟩ :=
        fetchResults_eq h hfirst hcells hcur hrow hone hold
      rw [if_pos rfl, if_pos rfl]
      refine ⟨self'', ?_, hright⟩
      exact congrArg (Option.map _) hresults

/-- The second of two results that are all there is stands for both. -/
theorem swapKeyset_eq {first tres : ℕ × ResultData} (h : self.Lists view [])
    (hadded : NewList self.heap heap rhold.first [first, tres]) :
    ∃ heap', swapKeyset { self with heap := heap } rhold =
        some (⟨some tres.1, some tres.1⟩, ⟨heap', ⟨some tres.1, some tres.1⟩, some tres.1⟩) ∧
      Seg heap' (some tres.1) [(tres.1, { tres.2 with fields := first.2.fields })] none := by
  obtain ⟨hfirst, next, hcell, htres⟩ := id hadded.seg
  obtain rfl : next = some tres.1 := htres.1
  obtain ⟨heap₁, hset₁, h₁⟩ := @NewList.setData _ _ _ _ tres [first] [] hadded
    fun data ↦ { data with fields := first.2.fields }
  obtain ⟨heap₂, hset₂, h₂⟩ := @NewList.setData _ _ _ _ first [] _ h₁
    fun data ↦ { data with fields := [] }
  obtain ⟨-, next, hcell₂, htres₂⟩ := id h₂.seg
  obtain rfl : next = some tres.1 := htres₂.1
  obtain ⟨heap₃, heap₄, hset₃, hdestroy, h₄⟩ := h₂.dropFirst hcell₂
  have hset := @ResultStatement.scSetResult_none ⟨heap₄, self.rhold, self.curres⟩ _ _ h₄.seg
    (Option.some_ne_none _) h.seg
  refine ⟨heap₄, ?_, h₄.seg⟩
  rw [swapKeyset, Links.nextr, hfirst, Option.bind_some, hcell, Option.map_some, Option.bind_some]
  dsimp only
  rw [Option.bind_some, hcell, Option.bind_some]
  dsimp only
  rw [hfirst] at hset₃ hdestroy
  rw [hset₁, Option.bind_some, hset₂, Option.bind_some, hset₃, Option.bind_some, hdestroy,
    Option.bind_some, hset]
  rfl

/-- One result is not swapped. -/
theorem swapKeyset_one {cell : ℕ × ResultData} (hseg : Seg self.heap rhold.first [cell] none) :
    swapKeyset self rhold = some (rhold, self) := by
  obtain ⟨hfirst, next, hcell, hnext⟩ := hseg
  obtain rfl : next = none := hnext
  rw [swapKeyset, Links.nextr, hfirst, Option.bind_some, hcell]
  rfl

/-- New results and the end of `SC_execute`. -/
theorem finish_added {failed : Bool} (h : self.Lists view cells)
    (hadded : NewList self.heap heap rhold.first added)
    (hlast : rhold.last = (added.map Prod.fst).getLast?) (hempty : added = [] → cells = [])
    (hfailed : added = [] → failed = true)
    (hfetch : execution.MeetsFetch view.results (added.map Prod.snd) failed) :
    ∃ self', execution.finish { self with heap := heap } rhold failed =
        some (self', (execution.finished (added.map Prod.snd) failed).2) ∧
      self'.Right ⟨view.results ++ (execution.finished (added.map Prod.snd) failed).1,
        curAfter view (execution.finished (added.map Prod.snd) failed).1⟩ := by
  obtain ⟨self', hadd, h'⟩ := addResults_eq h hadded hlast hempty
  refine finish_eq hadd h' hadded.seg.eq_head h.results (fun hview ↦ ?_) hfailed hfetch
  obtain rfl : cells = [] := List.map_eq_nil_iff.1 (h.results.trans hview)
  exact h.cur_eq_none

/-- `SC_execute` puts behind the results of a statement those of the execution. -/
theorem scExecute_eq (h : self.Lists view cells) (hmeets : execution.Meets view.results) :
    ∃ self', execution.scExecute self = some (self', execution.outcome.2) ∧
      self'.Right ⟨view.results ++ execution.outcome.1,
        if execution.reaching.isSome then curAfter view execution.outcome.1 else view.cur⟩ := by
  have hcut : ResultStatement.Right self ⟨view.results ++ [], view.cur⟩ := by
    rw [List.append_nil]
    exact h.right
  rw [scExecute, outcome]
  cases hinUse : execution.inUse with
  | true =>
    have hreaching : execution.reaching = none := by rw [reaching, if_pos hinUse]
    rw [hreaching, if_pos rfl]
    exact ⟨self, rfl, hcut⟩
  | false =>
    rw [if_neg Bool.false_ne_true]
    cases hquery : execution.query with
    | none =>
      have hreaching : execution.reaching = none := by
        rw [reaching, if_neg (by rw [hinUse]; exact Bool.false_ne_true), hquery]
      rw [hreaching, sendQuery_none self.heap hquery]
      exact ⟨self, rfl, hcut⟩
    | some query =>
      obtain ⟨results, right⟩ := query
      obtain ⟨rfl, hempty, hswap, hfetch⟩ := hmeets hinUse results right hquery
      obtain ⟨rhold, heap, added, hsend, hadded, hresults, hlast⟩ := sendQuery_eq self.heap hquery
      rw [hsend, Option.bind_some]
      cases added with
      | nil =>
        obtain rfl : results = [] := hresults.symm
        have hfirst : rhold.first = none := hadded.seg
        have hreaching : execution.reaching = some ([], true) := by
          rw [reaching, if_neg (by rw [hinUse]; exact Bool.false_ne_true), hquery]
        obtain ⟨self', hfinish, hright⟩ := finish_added h hadded hlast
          (fun _ ↦ List.map_eq_nil_iff.1 (h.results.trans (hempty rfl))) (fun _ ↦ rfl)
          (hfetch [] true hreaching)
        dsimp only
        rw [hfirst, hreaching]
        exact ⟨self', hfinish, hright⟩
      | cons cell rest =>
        obtain ⟨hfirst, next, hcell, hrest⟩ := id hadded.seg
        rw [List.map_cons] at hresults
        subst hresults
        have hreaching := reaching_cons hinUse hquery
        dsimp only
        rw [hfirst]
        dsimp only
        rw [hcell, Option.bind_some]
        dsimp only
        have hplain {failed : Bool}
            (hreaching : execution.reaching = some ((cell :: rest).map Prod.snd, failed)) :=
          @finish_added execution self view rhold cells (cell :: rest) heap failed h hadded hlast
            (by rintro ⟨⟩) (by rintro ⟨⟩) (hfetch _ _ hreaching)
        cases haborted : cell.2.aborted with
        | true =>
          rw [haborted, if_pos rfl] at hreaching
          obtain ⟨self', hfinish, hright⟩ := hplain hreaching
          rw [if_pos rfl, hreaching]
          exact ⟨self', hfinish, hright⟩
        | false =>
          rw [haborted, if_neg Bool.false_ne_true] at hreaching
          rw [if_neg Bool.false_ne_true]
          cases hmemory : execution.outOfMemory with
          | true =>
            rw [hmemory, if_pos rfl] at hreaching
            obtain ⟨heap', hdestroy, hframe, -⟩ := hadded.destroy
            rw [if_pos rfl, hreaching, ← hfirst, hdestroy, Option.map_some]
            refine ⟨_, rfl, ?_⟩
            rw [Option.elim_none, List.append_nil]
            exact (h.frame hframe).right
          | false =>
            rw [hmemory, if_neg Bool.false_ne_true] at hreaching
            rw [if_neg Bool.false_ne_true]
            cases hkeyset : execution.keysetDriven && !execution.useCursor with
            | false =>
              rw [swaps, hkeyset, Bool.false_and, if_neg Bool.false_ne_true] at hreaching
              obtain ⟨self', hfinish, hright⟩ := hplain hreaching
              rw [if_neg Bool.false_ne_true, hreaching]
              exact ⟨self', hfinish, hright⟩
            | true =>
              rw [if_pos rfl]
              cases rest with
              | nil =>
                have hswaps : execution.swaps [cell.2] = false := by
                  rw [swaps, hkeyset]
                  rfl
                rw [List.map_nil, hswaps, if_neg Bool.false_ne_true] at hreaching
                obtain ⟨self', hfinish, hright⟩ := hplain hreaching
                rw [swapKeyset_one hadded.seg, Option.bind_some, hreaching]
                exact ⟨self', hfinish, hright⟩
              | cons tres rest =>
                have hswaps : execution.swaps (cell.2 :: (tres :: rest).map Prod.snd) = true := by
                  rw [swaps, hkeyset]
                  rfl
                obtain ⟨hview, hlength⟩ := hswap
                  (by
                    rw [List.head?_cons, Option.any_some, haborted]
                    rfl) hmemory hswaps
                obtain rfl : rest = [] := by
                  rw [List.length_cons, List.length_map, List.length_cons] at hlength
                  exact List.length_eq_zero_iff.1 (by omega)
                obtain rfl : cells = [] := List.map_eq_nil_iff.1 (h.results.trans hview)
                rw [if_pos hswaps] at hreaching
                obtain ⟨heap', hswapped, hseg⟩ := swapKeyset_eq h hadded
                have hlists := ResultStatement.lists_first hseg rfl
                have hadd : addResults ⟨heap', ⟨some tres.1, some tres.1⟩, some tres.1⟩
                    ⟨some tres.1, some tres.1⟩ =
                  some ⟨heap', ⟨some tres.1, some tres.1⟩, some tres.1⟩ := if_pos rfl
                have hview' : ⟨view.results ++ [{ tres.2 with fields := cell.2.fields }],
                      curAfter view [{ tres.2 with fields := cell.2.fields }]⟩ =
                    (⟨[{ tres.2 with fields := cell.2.fields }], some 0⟩ : ResultView) := by
                  rw [curAfter, hview, h.cur_eq_none]
                  rfl
                obtain ⟨self', hfinish, hright⟩ := @finish_eq execution _ view _ []
                  [(tres.1, { tres.2 with fields := cell.2.fields })]
                  (execution.sendError || cell.2.failed) _ hadd (hview' ▸ hlists) rfl hview.symm
                  (fun _ ↦ h.cur_eq_none) (by rintro ⟨⟩) (hfetch _ _ hreaching)
                rw [hswapped, Option.bind_some, hreaching]
                exact ⟨self', hfinish, hright⟩

/-- The view behind an execution. -/
def after (execution : Execution) (view : ResultView) : ResultView :=
  ⟨view.results ++ execution.outcome.1,
    if execution.reaching.isSome then curAfter view execution.outcome.1 else view.cur⟩

/-- What is fetched from a cursor has results. -/
theorem ne_nil_of_mem_fetched {results : List ResultData}
    (h : results ∈ (execution.fetched data cols).lists) : results ≠ [] := by
  induction cols with
  | nil => exact absurd h List.not_mem_nil
  | cons i cols ih =>
    rw [fetched] at h
    split_ifs at h with htype htrans
    · exact absurd h List.not_mem_nil
    · split at h
      · exact ih h
      · exact ih h
      · split_ifs at h with hfailed
        · rw [List.mem_singleton.1 h]
          exact List.cons_ne_nil _ _
        · rcases List.mem_cons.1 h with rfl | hmem
          · exact List.cons_ne_nil _ _
          · exact ih hmem
    · exact ih h

theorem instead_ne_nil {results : List ResultData} (hne : results ≠ []) :
    execution.instead data results ≠ [] := by
  rw [instead]
  split_ifs with hfound hlists
  · exact List.cons_ne_nil _ _
  · obtain ⟨first, hfirst⟩ := List.exists_mem_of_ne_nil _ hlists
    intro hflatten
    exact ne_nil_of_mem_fetched hfirst (List.flatten_eq_nil_iff.1 hflatten first hfirst)
  · exact hne

/-- What reaches the end of `SC_execute` without an error has results. -/
theorem ne_nil_of_reaching {results : List ResultData} {failed : Bool}
    (h : execution.reaching = some (results, failed)) (hfailed : failed = false) :
    results ≠ [] := by
  cases hinUse : execution.inUse with
  | true =>
    rw [reaching, if_pos hinUse] at h
    cases h
  | false =>
    cases hquery : execution.query with
    | none =>
      rw [reaching, hinUse, if_neg Bool.false_ne_true, hquery] at h
      cases h
    | some query =>
      obtain ⟨received, right⟩ := query
      cases received with
      | nil =>
        rw [reaching, hinUse, if_neg Bool.false_ne_true, hquery] at h
        injection Option.some.inj h with hresults htrue
        cases htrue.trans hfailed
      | cons first rest =>
        rw [reaching_cons hinUse hquery] at h
        split_ifs at h with haborted hmemory hswaps
        · injection Option.some.inj h with hresults
          exact hresults ▸ List.cons_ne_nil _ _
        · injection Option.some.inj h with hresults
          rw [← hresults]
          cases rest <;> exact List.cons_ne_nil _ _
        · injection Option.some.inj h with hresults
          exact hresults ▸ List.cons_ne_nil _ _

/-- An execution that does not fail has results. -/
theorem outcome_ne_nil (h : execution.outcome.2 = false) : execution.outcome.1 ≠ [] := by
  rw [outcome] at h ⊢
  cases hreaching : execution.reaching with
  | none =>
    rw [hreaching] at h
    exact absurd h nofun
  | some reached =>
    obtain ⟨results, failed⟩ := reached
    rw [hreaching, Option.elim_some] at h
    rw [Option.elim_some]
    dsimp only at h ⊢
    rw [finished] at h ⊢
    split_ifs at h ⊢ with hproc hcursors
    · have hne := ne_nil_of_reaching hreaching (by simpa using (Bool.and_eq_true_iff.1 hproc).2)
      cases results with
      | nil => exact absurd rfl hne
      | cons data rest => exact instead_ne_nil hne
    · exact ne_nil_of_reaching hreaching (by simpa using (Bool.and_eq_true_iff.1 hproc).2)
    · exact ne_nil_of_reaching hreaching h

/-- `Exec_with_parameters_resolved` leaves what `SC_execute` has made. -/
theorem execWithParametersResolved_eq (h : self.Right view)
    (hmeets : execution.MeetsExec view.results) :
    ∃ self', execWithParametersResolved (some execution) self = some self' ∧
      self'.Right (execution.after view) := by
  obtain ⟨cells, h, -⟩ := h
  obtain ⟨self', hexecute, hright⟩ := scExecute_eq h hmeets.1
  rw [execWithParametersResolved, hexecute, Option.bind_some]
  cases hfailed : execution.outcome.2 with
  | true => exact ⟨self', rfl, hright⟩
  | false =>
    dsimp only
    cases hkeyset : execution.keysetDriven with
    | false => exact ⟨self', if_neg Bool.false_ne_true, hright⟩
    | true =>
      obtain ⟨cells', h', -⟩ := id hright
      have hlength := hmeets.2 hfailed hkeyset
      have hne := outcome_ne_nil hfailed
      obtain ⟨cell, rfl⟩ : ∃ cell, cells' = [cell] := by
        refine List.length_eq_one_iff.1 (Nat.le_antisymm ?_ ?_)
        · rw [← List.length_map Prod.snd, h'.results]
          exact hlength
        · rw [← List.length_map Prod.snd, h'.results, List.length_append]
          have := List.length_pos_iff.2 hne
          omega
      have hnext := @Seg.nextr_middle _ _ _ cell [] [] h'.seg
      rw [if_pos rfl, h'.seg.1, hnext]
      exact ⟨self', rfl, hright⟩

end Execution

/-! ## Calls -/

namespace ResultCall

/-- What a call makes of the results. -/
def after (call : ResultCall) (view : ResultView) : ResultView :=
  match call with
  | .scExecute execution => execution.after view
  | .execWithParametersResolved execution =>
    execution.elim view fun execution ↦ execution.after view
  | .scResetResultForRerun =>
    match view.results with
    | [] => ⟨[], none⟩
    | first :: _ =>
      if first.fields = [] then ⟨[], none⟩
      else
        ⟨[{ first with command := none, failed := false, aborted := false, firstRow := [] }], none⟩
  | .scRecycleStatement => ⟨[], none⟩
  | .sqlClose => ⟨[], none⟩
  | .moreResults =>
    match view.cur with
    | none => ⟨[], none⟩
    | some i => if i + 1 < view.results.length then ⟨view.results, some (i + 1)⟩ else ⟨[], none⟩

/-- What a call takes for granted.  A prepared statement that is executed again without being
recycled has one result. -/
def Meets (call : ResultCall) (view : ResultView) : Prop :=
  match call with
  | .scExecute execution => execution.Meets view.results
  | .execWithParametersResolved execution =>
    ∀ e ∈ execution, e.MeetsExec view.results
  | .scResetResultForRerun =>
    ∀ first ∈ view.results.head?, first.fields ≠ [] → view.results.length = 1
  | .scRecycleStatement => True
  | .sqlClose => True
  | .moreResults => True

end ResultCall

namespace ResultStatement

variable {self : ResultStatement} {view : ResultView}

/-- No results are left. -/
theorem scSetResult_null (h : self.Right view) (hne : self.rhold.first ≠ none) :
    ∃ self', self.scSetResult none = some self' ∧ self'.Right ⟨[], none⟩ ∧
      self'.curres = none := by
  obtain ⟨cells, h, -⟩ := h
  obtain ⟨self', hset, -, hlists⟩ :=
    @scSetResult_eq self cells [] none h.seg rfl hne.symm fun _ _ ↦ List.not_mem_nil
  exact ⟨self', hset, hlists.right, hlists.curres⟩

theorem right_nil (h : self.Right view) (hfirst : self.rhold.first = none) :
    self.Right ⟨[], none⟩ ∧ self.curres = none := by
  obtain ⟨cells, h, -⟩ := h
  obtain rfl : cells = [] := h.seg.eq_nil_iff.2 hfirst
  have hcur := h.cur_eq_none
  obtain ⟨results, cur⟩ := view
  obtain rfl : cur = none := hcur
  obtain rfl : results = [] := h.results.symm
  exact ⟨h.right, h.curres⟩

theorem scRecycleStatement_eq (h : self.Right view) :
    ∃ self', self.scRecycleStatement = some self' ∧ self'.Right ⟨[], none⟩ ∧
      self'.curres = none := by
  rw [scRecycleStatement]
  cases hfirst : self.rhold.first with
  | none => exact ⟨self, rfl, right_nil h hfirst⟩
  | some first => exact scSetResult_null h (hfirst ▸ Option.some_ne_none first)

theorem sqlClose_eq (h : self.Right view) :
    ∃ self', self.sqlClose = some self' ∧ self'.Right ⟨[], none⟩ := by
  obtain ⟨self', hrecycle, hright, hcurres⟩ := scRecycleStatement_eq h
  refine ⟨self', ?_, hright⟩
  rw [sqlClose, hrecycle, Option.map_some, ← hcurres]

/-- `curres` set to null. -/
theorem Right.curres_none (h : self.Right view) :
    { self with curres := none }.Right ⟨view.results, none⟩ := by
  obtain ⟨cells, h, -⟩ := h
  exact Lists.right ⟨h.seg, h.results, h.last, rfl, nofun⟩

/-- The current result is the next one, or there are no results left. -/
theorem moreResults_eq (h : self.Right view) :
    ∃ self', self.moreResults = some self' ∧ self'.Right (ResultCall.moreResults.after view) := by
  rw [moreResults, ResultCall.after]
  obtain ⟨cells, hlists, -⟩ := id h
  cases hcur : view.cur with
  | none =>
    rw [show self.curres = none by rw [hlists.curres, hcur]; rfl]
    exact sqlClose_eq h
  | some i =>
    have hlt := hlists.cur_lt i hcur
    rw [← hlists.results, List.length_map] at hlt
    obtain ⟨front, cell, back, rfl, rfl⟩ : ∃ front cell back,
        cells = front ++ cell :: back ∧ i = front.length :=
      ⟨cells.take i, cells[i], cells.drop (i + 1), by
        rw [List.getElem_cons_drop, List.take_append_drop], by rw [List.length_take]; omega⟩
    have hcurres : self.curres = some cell.1 := by
      rw [hlists.curres, hcur, Option.bind_some, List.map_append,
        List.getElem?_append_right (by rw [List.length_map]), List.length_map, Nat.sub_self]
      rfl
    rw [hcurres]
    dsimp only
    rw [hlists.seg.nextr_middle, Option.bind_some, ← hlists.results, List.length_map,
      List.length_append]
    cases back with
    | nil =>
      rw [if_neg (by simp)]
      exact sqlClose_eq h.curres_none
    | cons next back =>
      rw [if_pos (by simp)]
      refine ⟨_, rfl, @Lists.right _ _ (front ++ cell :: next :: back)
        ⟨hlists.seg, rfl, hlists.last, ?_, ?_⟩⟩
      · rw [Option.bind_some, List.map_append,
          List.getElem?_append_right (by rw [List.length_map]; omega), List.length_map,
          Nat.add_sub_cancel_left]
        rfl
      · rintro _ ⟨⟩
        rw [List.length_map, List.length_append, List.length_cons, List.length_cons]
        omega

/-- The one result there is keeps its columns. -/
theorem scResetResultForRerun_eq (h : self.Right view)
    (hmeets : ResultCall.scResetResultForRerun.Meets view) :
    ∃ self', self.scResetResultForRerun = some self' ∧
      self'.Right (ResultCall.scResetResultForRerun.after view) := by
  rw [scResetResultForRerun, ResultCall.after]
  obtain ⟨cells, hlists, -⟩ := id h
  cases cells with
  | nil =>
    have hfirst : self.rhold.first = none := hlists.seg
    rw [hfirst, ← hlists.results]
    exact ⟨self, rfl, (right_nil h hfirst).1⟩
  | cons cell rest =>
    obtain ⟨hfirst, next, hcell, hrest⟩ := id hlists.seg
    rw [hfirst, ← hlists.results, List.map_cons]
    dsimp only
    rw [hcell, Option.bind_some]
    dsimp only
    by_cases hfields : cell.2.fields = []
    · rw [if_pos hfields, if_pos hfields]
      obtain ⟨self', hset, hright, -⟩ := scSetResult_null h (hfirst ▸ Option.some_ne_none _)
      exact ⟨self', hset, hright⟩
    · rw [if_neg hfields, if_neg hfields]
      have hlength := hmeets cell.2 (by rw [← hlists.results]; rfl) hfields
      rw [← hlists.results, List.length_map, List.length_cons] at hlength
      obtain rfl : rest = [] := List.length_eq_zero_iff.1 (by omega)
      obtain rfl : next = none := hrest
      have hset := Links.update_some (fun link ↦ { link with lnext := none }) hcell
      have hseg : Seg (self.heap.modify cell.1 fun link ↦ { link with lnext := none })
          (some cell.1) [cell] none := ⟨rfl, none, Links.blocks_modify_self _ hcell, rfl⟩
      obtain ⟨heap', hdata, h'⟩ := @NewList.setData _ _ _ _ cell [] [] (.of_seg hseg)
        fun data ↦ { data with command := none, failed := false, aborted := false, firstRow := [] }
      refine ⟨⟨heap', ⟨some cell.1, self.rhold.last⟩, none⟩, ?_,
        @Lists.right _ ⟨[_], none⟩ [(cell.1, _)] ⟨h'.seg, rfl, hlists.last, rfl, nofun⟩⟩
      rw [Links.destroy_none, Option.bind_some, Links.setNext, hset, Option.bind_some, hdata,
        Option.map_some, ← hfirst]

end ResultStatement

namespace ResultCall

variable {call : ResultCall} {calls : List ResultCall} {self : ResultStatement} {view : ResultView}

/-- A call keeps the results a list. -/
theorem run_right (h : self.Right view) (hmeets : call.Meets view) :
    ∃ self', call.run self = some self' ∧ self'.Right (call.after view) := by
  cases call with
  | scExecute execution =>
    obtain ⟨cells, h, -⟩ := h
    obtain ⟨self', hexecute, hright⟩ := Execution.scExecute_eq h hmeets
    exact ⟨self', by rw [run, hexecute]; rfl, hright⟩
  | execWithParametersResolved execution =>
    cases execution with
    | none => exact ⟨self, rfl, h⟩
    | some execution => exact Execution.execWithParametersResolved_eq h (hmeets execution rfl)
  | scResetResultForRerun => exact self.scResetResultForRerun_eq h hmeets
  | scRecycleStatement =>
    obtain ⟨self', hrecycle, hright, -⟩ := self.scRecycleStatement_eq h
    exact ⟨self', hrecycle, hright⟩
  | sqlClose => exact self.sqlClose_eq h
  | moreResults => exact self.moreResults_eq h

/-- The view behind calls. -/
def afterAll (calls : List ResultCall) (view : ResultView) : ResultView :=
  calls.foldl (fun view call ↦ call.after view) view

/-- Each call meets what it takes for granted. -/
def MeetsAll : List ResultCall → ResultView → Prop
  | [], _ => True
  | call :: calls, view => call.Meets view ∧ MeetsAll calls (call.after view)

theorem runAll_right (h : self.Right view) (hmeets : MeetsAll calls view) :
    ∃ self', ResultStatement.run calls self = some self' ∧ self'.Right (afterAll calls view) := by
  induction calls generalizing self view with
  | nil => exact ⟨self, rfl, h⟩
  | cons call calls ih =>
    obtain ⟨self₁, hrun, h₁⟩ := run_right h hmeets.1
    obtain ⟨self', hruns, h'⟩ := ih h₁ hmeets.2
    exact ⟨self', by rw [ResultStatement.run, hrun, Option.bind_some, hruns], h'⟩

/-- In every run of calls on a new statement that meet what the code takes for granted, the results
of the statement are a list. -/
theorem results_right (calls : List ResultCall) (hmeets : MeetsAll calls ⟨[], none⟩) :
    ∃ self, ResultStatement.run calls .new = some self ∧
      self.Right (afterAll calls ⟨[], none⟩) :=
  runAll_right ResultStatement.new_right hmeets

/-! ## Runs -/

/-- An execution with a simple query that brings back one result. -/
def simpleExecution (data : List PgAnswer) : Execution where
  inUse := false
  useExtendedProtocol := false
  isSelectType := false
  useCursor := false
  keysetDriven := false
  procCall := false
  fetchRefcursors := false
  ignoreRoundtripTime := false
  sendError := false
  outOfMemory := false
  outParamsFail := false
  bound := none
  send := some ⟨data, false, false⟩
  appendSend := none
  inTrans _ := true
  fetches _ := none

/-- A text of two commands, and another execution behind it. -/
def twoTexts : List ResultCall :=
  [.execWithParametersResolved
      (some (simpleExecution [.commandOk (ascii "UPDATE 1"), .commandOk (ascii "DELETE 2")])),
    .moreResults, .scExecute (simpleExecution [.commandOk (ascii "INSERT 0 1")])]

theorem results_right_twoTexts :
    MeetsAll twoTexts ⟨[], none⟩ ∧
      ∃ self, ResultStatement.run twoTexts .new = some self ∧
        self.Right (afterAll twoTexts ⟨[], none⟩) := by
  have hmeets : MeetsAll twoTexts ⟨[], none⟩ := by
    refine ⟨?_, trivial, ?_, trivial⟩
    · rintro execution ⟨⟩
      refine ⟨fun _ results right hquery ↦ ?_, fun _ hkeyset ↦ absurd hkeyset nofun⟩
      obtain ⟨rfl, rfl⟩ := Prod.mk.inj (Option.some.inj hquery)
      exact ⟨rfl, fun _ ↦ rfl, fun _ _ hswaps ↦ absurd hswaps nofun,
        fun _ _ _ hproc ↦ absurd hproc nofun⟩
    · intro _ results right hquery
      obtain ⟨rfl, rfl⟩ := Prod.mk.inj (Option.some.inj hquery)
      exact ⟨rfl, nofun, fun _ _ hswaps ↦ absurd hswaps nofun,
        fun _ _ _ hproc ↦ absurd hproc nofun⟩
  exact ⟨hmeets, results_right twoTexts hmeets⟩

/-- A procedure that returns two cursors. -/
def twoCursors : Execution :=
  { simpleExecution [.tuples (ascii "CALL") [pgTypeRefcursor, pgTypeRefcursor]
      [some (ascii "a"), some (ascii "b")]] with
    isSelectType := true
    procCall := true
    fetchRefcursors := true
    fetches := fun _ ↦ some ⟨[.tuples (ascii "FETCH 1") [23] [some (ascii "1")]], false, false⟩ }

/-- Behind the last result there is another one. -/
theorem not_right_twoCursors :
    ∃ self, ResultStatement.run [.scExecute twoCursors] .new = some self ∧
      ∀ view, ¬self.Right view := by
  refine ⟨_, rfl, fun view h ↦ ?_⟩
  -- `rhold.last` is the result of the first cursor
  exact absurd (@ResultStatement.Right.nextr_last _ view 1 h rfl) (by decide)

end ResultCall

end PsqlOdbc
