import PsqlOdbc.Results.BulkOperations

/-!
# What a bulk operation does

The dialogues for the data of the rows come to an end, and with them the operation is a loop over
the rows that is not interrupted, `bulkEnd`.  It is right exactly if no row fails, no row is
cancelled, and each row is found under its own number.
-/

namespace PsqlOdbc

/-- Whether the operation ends with the row. -/
def RowAnswer.stops : RowAnswer → Bool
  | .returns ret | .needData (.completes ret) => ret == .error
  | .needData .cancels => true

/-- The answers that stop the operation. -/
theorem RowAnswer.stops_cases {answer : RowAnswer} (h : answer.stops = true) :
    answer = .needData .cancels ∨
      answer = .returns .error ∨ answer = .needData (.completes .error) := by
  rcases answer with ret | ⟨ret | _⟩
  · exact .inr (.inl (by simpa [RowAnswer.stops] using h))
  · exact .inr (.inr (by simpa [RowAnswer.stops] using h))
  · exact .inl rfl

namespace BulkCall

variable (call : BulkCall)

/-! ## What is expected -/

/-- What is to be done at a row: it is the row of the buffers, and a bookmark stands for the row
of the result that has its number. -/
def wanted (idx : Nat) : RowRequest where
  irow := idx
  target := match call.operation with
    | .add => none
    | .updateByBookmark | .deleteByBookmark => call.bookmark.map fun resolve ↦
      let pgBm := resolve idx
      let keys := qrGetLastBookmark (call.deleted idx) (call.updated idx) pgBm.index pgBm.keys
      call.target idx pgBm.index keys

/-- A bookmark is needed, and there is none. -/
def lacksBookmark : Bool := call.operation != .add && call.bookmark.isNone

/-- The first row that fails or is cancelled. -/
def stopAt : Option Nat := (List.range call.sizeOfRowset).find? fun idx ↦ (call.answer idx).stops

/-- How many rows the operation is applied to, the one where it stops included. -/
def reached : Nat :=
  if call.lacksBookmark then 0 else call.stopAt.elim call.sizeOfRowset (· + 1)

/-- How many rows are successfully processed. -/
def succeeded : Nat := if call.lacksBookmark then 0 else call.stopAt.getD call.sizeOfRowset

/-- What the application may expect of a call from `stmt` that leaves `stmt'` in the end. -/
structure BulkRight (stmt stmt' : BulkStatement) : Prop where
  requests : stmt'.requests = stmt.requests ++ (List.range call.reached).map call.wanted
  rowsFetched : stmt'.rowsFetched = stmt.rowsFetched.map fun _ ↦ call.succeeded
  diagRowCount : stmt'.diagRowCount = call.succeeded
  autocommit : stmt'.inAutocommit = stmt.inAutocommit

/-! ## When it is so -/

/-- The row is found under its own number: it has one of 16 bits, and a row that is not cached has
not been changed under the number that its bookmark has in the buffers. -/
def RowAddressed (idx : Nat) : Prop :=
  idx < 2 ^ 16 ∧ (call.operation ≠ .add → ∀ resolve, call.bookmark = some resolve →
    call.cached idx (resolve idx).index = none →
      qrGetLastBookmark (call.deleted idx) (call.updated idx) idx (resolve idx).keys =
        qrGetLastBookmark (call.deleted idx) (call.updated idx) (resolve idx).index
          (resolve idx).keys)

/-- The commit mode is not switched, and the count of the rows is not asked for or zero already. -/
def LeftAlone (stmt : BulkStatement) : Prop :=
  stmt.doesAutocommit = false ∧ ∀ count, stmt.rowsFetched = some count → count = 0

/-- No row stops the operation, and all are found under their own numbers.  Where there is no
bookmark, and where the first row is cancelled, nothing must have been there to restore. -/
def Meets (stmt : BulkStatement) : Prop :=
  if call.lacksBookmark then LeftAlone stmt
  else match call.stopAt with
    | none => ∀ idx < call.sizeOfRowset, call.RowAddressed idx
    | some idx =>
      idx = 0 ∧ call.answer 0 = .needData .cancels ∧ call.RowAddressed 0 ∧ LeftAlone stmt

variable {call}

theorem request_eq_wanted_iff (hbookmark : call.lacksBookmark = false) (idx : Nat) :
    call.request idx = call.wanted idx ↔ call.RowAddressed idx := by
  have hirow : idx % 2 ^ 16 = idx ↔ idx < 2 ^ 16 := by omega
  unfold RowAddressed request wanted
  rw [RowRequest.mk.injEq, hirow]
  refine and_congr_right fun _ ↦ ?_
  cases hop : call.operation with
  | add => simp
  | updateByBookmark | deleteByBookmark =>
    obtain ⟨resolve, hresolve⟩ : ∃ resolve, call.bookmark = some resolve := by
      simpa [lacksBookmark, hop, Option.ne_none_iff_exists', ← Option.isSome_iff_exists]
        using hbookmark
    cases hcached : call.cached idx (resolve idx).index with
    | none => simp [hresolve, target, hcached]
    | some keyset => simp [hresolve, target, hcached]

/-! ## The operation without interruption -/

variable (call)

/-- What stands behind the rows of `bulk_ope_callback`. -/
def finish (needed : Bool) (processed : Nat) (stmt : BulkStatement) : BulkStatement :=
  let restored := if needed then stmt.setAutocommit true else stmt
  { restored with
    rowsFetched := restored.rowsFetched.map fun _ ↦ processed
    diagRowCount := processed }

/-- The state with the request for a row. -/
def ask (idx : Nat) (stmt : BulkStatement) : BulkStatement :=
  { stmt with requests := stmt.requests ++ [call.request idx] }

/-- The state with the copy of the operation's own state queued at a row. -/
def wait (needed : Bool) (idx : Nat) (stmt : BulkStatement) : BulkStatement :=
  { stmt with callbacks := stmt.callbacks ++
      [{ needDataCallback := true, autoCommitNeeded := needed, idx := idx, processed := idx }] }

/-- The last of the states, with so many rows to come from a row on. -/
def bulkEnd (needed : Bool) : Nat → Nat → BulkStatement → BulkStatement
  | 0, idx, stmt => finish needed idx stmt
  | count + 1, idx, stmt =>
    match call.answer idx with
    | .needData .cancels => (wait needed idx (call.ask idx stmt)).pgapiCancel
    | .returns ret | .needData (.completes ret) =>
      if ret = .error then finish needed (idx + 1) (call.ask idx stmt)
      else bulkEnd needed count (idx + 1) (call.ask idx stmt)

variable {call} {stmt stmt' : BulkStatement} {ret : Retcode} {needed : Bool}

@[simp] theorem dialogue_some : call.Dialogue (some ret, stmt) stmt' ↔ stmt' = stmt := by
  constructor
  · intro h
    cases h
    rfl
  · rintro rfl
    exact .ended ret stmt'

theorem dialogue_cancels {s : BopCdata} (hasked : stmt.callbacks = [s])
    (hrow : call.answer s.idx = .needData .cancels) :
    call.Dialogue (none, stmt) stmt' ↔ stmt' = stmt.pgapiCancel := by
  constructor
  · intro h
    cases h with
    | completed asked row later => simp_all
    | cancelled asked row => rfl
  · rintro rfl
    exact .cancelled hasked hrow

theorem dialogue_completes {s : BopCdata} (hasked : stmt.callbacks = [s])
    (hrow : call.answer s.idx = .needData (.completes ret)) :
    call.Dialogue (none, stmt) stmt' ↔
      call.Dialogue (call.dequeueNeedDataCallback [s] ret stmt) stmt' := by
  constructor
  · intro h
    cases h with
    | completed asked row later => simp_all
    | cancelled asked row => simp_all
  · intro h
    exact .completed hasked hrow (hasked ▸ h)

/-- With one callback in the queue its result is the result. -/
theorem dequeue_one (s : BopCdata) :
    call.dequeueNeedDataCallback [s] ret stmt =
      call.bulkOpeCallback ret s { stmt with callbacks := [] } := by
  rw [dequeueNeedDataCallback]
  split
  · next h => exact h.symm
  · next h => exact h.symm

/-- Where the loop is entered: the rows before have been processed. -/
def loopState (needed : Bool) (idx : Nat) : BopCdata where
  needDataCallback := false
  autoCommitNeeded := needed
  idx := idx
  processed := idx

theorem bulkLoop_error (idx : Nat) :
    call.bulkLoop .error (loopState needed idx) stmt = (some .error, finish needed idx stmt) := by
  rw [bulkLoop, if_neg (by simp)]
  rfl

theorem bulkLoop_behind {idx : Nat} (hidx : call.sizeOfRowset ≤ idx) :
    call.bulkLoop ret (loopState needed idx) stmt = (some ret, finish needed idx stmt) := by
  rw [bulkLoop, if_neg (by simp [loopState, hidx])]
  rfl

theorem bulkLoop_returns {idx : Nat} {ret' : Retcode} (hret : ret ≠ .error)
    (hidx : idx < call.sizeOfRowset) (hrow : call.answer idx = .returns ret') :
    call.bulkLoop ret (loopState needed idx) stmt =
      call.bulkLoop ret' (loopState needed (idx + 1)) (call.ask idx stmt) := by
  rw [bulkLoop, if_pos ⟨hret, hidx⟩]
  simp only [loopState, hrow]
  rfl

theorem bulkLoop_needData {idx : Nat} {ends : DialogueEnd} (hret : ret ≠ .error)
    (hidx : idx < call.sizeOfRowset) (hrow : call.answer idx = .needData ends) :
    call.bulkLoop ret (loopState needed idx) stmt =
      (none, wait needed idx (call.ask idx stmt)) := by
  rw [bulkLoop, if_pos ⟨hret, hidx⟩]
  simp only [loopState, hrow]
  rfl

/-- The dialogues of the rows come to one end, which is that of the loop without interruption. -/
theorem dialogue_bulkLoop {count idx : Nat} (hcount : idx + count = call.sizeOfRowset)
    (hret : ret ≠ .error) (hcallbacks : stmt.callbacks = []) :
    call.Dialogue (call.bulkLoop ret (loopState needed idx) stmt) stmt' ↔
      stmt' = call.bulkEnd needed count idx stmt := by
  induction count generalizing idx ret stmt with
  | zero => rw [bulkLoop_behind (by omega), dialogue_some, bulkEnd]
  | succ count ih =>
    -- what comes of a row's return code, at once or at the end of its dialogue
    have hnext (ret' : Retcode) :
        call.Dialogue (call.bulkLoop ret' (loopState needed (idx + 1)) (call.ask idx stmt)) stmt' ↔
          stmt' = if ret' = .error then finish needed (idx + 1) (call.ask idx stmt)
            else call.bulkEnd needed count (idx + 1) (call.ask idx stmt) := by
      by_cases hret' : ret' = .error
      · rw [if_pos hret', hret', bulkLoop_error, dialogue_some]
      · rw [if_neg hret']
        exact ih (by omega) hret' hcallbacks
    have hwait : (wait needed idx (call.ask idx stmt)).callbacks =
        [{ loopState needed idx with needDataCallback := true }] := by
      simp [wait, ask, hcallbacks, loopState]
    have hdrop : { wait needed idx (call.ask idx stmt) with callbacks := [] } =
        call.ask idx stmt := by
      simp [wait, ask, hcallbacks]
    rw [bulkEnd]
    cases hrow : call.answer idx with
    | returns ret' => rw [bulkLoop_returns hret (by omega) hrow, hnext]
    | needData ends =>
      rw [bulkLoop_needData hret (by omega) hrow]
      cases ends with
      | cancels => exact dialogue_cancels hwait hrow
      | completes ret' =>
        rw [dialogue_completes hwait hrow, dequeue_one, hdrop, ← hnext]
        rfl

/-! ## What the operation leaves -/

variable (call) in
/-- The state with the requests for so many rows from a row on. -/
def askRows (idx count : Nat) (stmt : BulkStatement) : BulkStatement :=
  { stmt with requests := stmt.requests ++ (List.range' idx count).map call.request }

theorem askRows_zero (idx : Nat) : call.askRows idx 0 stmt = stmt := by simp [askRows]

theorem askRows_succ (idx count : Nat) :
    call.askRows idx (count + 1) stmt = call.askRows (idx + 1) count (call.ask idx stmt) := by
  simp [askRows, ask, List.range'_succ]

theorem bulkEnd_goes {idx count : Nat} (h : (call.answer idx).stops = false) :
    call.bulkEnd needed (count + 1) idx stmt =
      call.bulkEnd needed count (idx + 1) (call.ask idx stmt) := by
  rw [bulkEnd]
  rcases hrow : call.answer idx with ret | ⟨ret | _⟩
  all_goals simp_all [RowAnswer.stops]

theorem bulkEnd_through {idx count : Nat}
    (h : (List.range' idx count).find? (fun i ↦ (call.answer i).stops) = none) :
    call.bulkEnd needed count idx stmt =
      finish needed (idx + count) (call.askRows idx count stmt) := by
  induction count generalizing idx stmt with
  | zero => rw [bulkEnd, askRows_zero]; rfl
  | succ count ih =>
    rw [List.range'_succ, List.find?_cons] at h
    split at h
    · simp at h
    · next hgoes =>
      rw [bulkEnd_goes hgoes, ih h, askRows_succ, Nat.add_right_comm, Nat.add_assoc]

theorem bulkEnd_stopped {idx count j : Nat}
    (h : (List.range' idx count).find? (fun i ↦ (call.answer i).stops) = some j) :
    idx ≤ j ∧ (call.answer j).stops = true ∧ call.bulkEnd needed count idx stmt =
      if call.answer j = .needData .cancels then
        (wait needed j (call.askRows idx (j + 1 - idx) stmt)).pgapiCancel
      else finish needed (j + 1) (call.askRows idx (j + 1 - idx) stmt) := by
  induction count generalizing idx stmt with
  | zero => simp at h
  | succ count ih =>
    rw [List.range'_succ, List.find?_cons] at h
    split at h
    · next hstops =>
      cases h
      refine ⟨le_rfl, hstops, ?_⟩
      rw [Nat.add_sub_cancel_left, askRows_succ, askRows_zero, bulkEnd]
      rcases RowAnswer.stops_cases hstops with hrow | hrow | hrow
      all_goals simp [hrow]
    · next hgoes =>
      obtain ⟨hle, hstops, heq⟩ := @ih (call.ask idx stmt) _ h
      refine ⟨by omega, hstops, ?_⟩
      rw [bulkEnd_goes hgoes, heq, show j + 1 - idx = j + 1 - (idx + 1) + 1 by omega, askRows_succ]

/-! ## The result -/

/-- The commit mode is switched off, if the connection commits by itself. -/
def started (stmt : BulkStatement) : BulkStatement :=
  let cleared := { stmt with diagRowCount := 0 }
  if stmt.doesAutocommit then cleared.setAutocommit false else cleared

@[simp] theorem started_callbacks : (started stmt).callbacks = stmt.callbacks := by
  unfold started
  split <;> rfl

@[simp] theorem started_requests : (started stmt).requests = stmt.requests := by
  unfold started
  split <;> rfl

@[simp] theorem started_rowsFetched : (started stmt).rowsFetched = stmt.rowsFetched := by
  unfold started
  split <;> rfl

@[simp] theorem started_diagRowCount : (started stmt).diagRowCount = 0 := by
  unfold started
  split <;> rfl

/-- The commit mode stays as it was only where it is not switched. -/
theorem started_inAutocommit_iff :
    (started stmt).inAutocommit = stmt.inAutocommit ↔ stmt.doesAutocommit = false := by
  rcases stmt with ⟨⟨⟩, ⟨⟩, _, _, _, _⟩ <;>
    simp [started, BulkStatement.doesAutocommit, BulkStatement.setAutocommit]

/-- It is switched on again where the rows end. -/
theorem finish_started_inAutocommit (processed idx count : Nat) :
    (finish stmt.doesAutocommit processed (call.askRows idx count (started stmt))).inAutocommit =
      stmt.inAutocommit := by
  rcases stmt with ⟨⟨⟩, ⟨⟩, _, _, _, _⟩ <;> rfl

@[simp] theorem finish_requests (processed : Nat) :
    (finish needed processed stmt).requests = stmt.requests := by
  cases needed <;> rfl

@[simp] theorem finish_rowsFetched (processed : Nat) :
    (finish needed processed stmt).rowsFetched = stmt.rowsFetched.map fun _ ↦ processed := by
  cases needed <;> rfl

theorem pgapiBulkOperations_eq :
    call.pgapiBulkOperations stmt =
      if call.lacksBookmark then (some .error, started stmt)
      else call.bulkLoop .success (loopState stmt.doesAutocommit 0) (started stmt) := by
  have hlacks : (call.operation ≠ .add ∧ call.bookmark = none) ↔ call.lacksBookmark = true := by
    simp [lacksBookmark]
  simp only [pgapiBulkOperations, hlacks]
  rfl

theorem map_request_eq_iff (hbookmark : call.lacksBookmark = false) (count : Nat) :
    (List.range count).map call.request = (List.range count).map call.wanted ↔
      ∀ idx < count, call.RowAddressed idx := by
  simp [request_eq_wanted_iff hbookmark]

/-- A count that is not written is the right one only if it is zero already. -/
theorem rowsFetched_eq_zero_iff {rowsFetched : Option Nat} :
    (rowsFetched = rowsFetched.map fun _ ↦ 0) ↔ ∀ count, rowsFetched = some count → count = 0 := by
  cases rowsFetched <;> simp

/-- Where there is no bookmark the call returns at once. -/
theorem right_lacking (hbookmark : call.lacksBookmark = true) :
    call.BulkRight stmt (started stmt) ↔ LeftAlone stmt := by
  have hsucceeded : call.succeeded = 0 := by simp [succeeded, hbookmark]
  rw [LeftAlone, ← started_inAutocommit_iff, ← rowsFetched_eq_zero_iff]
  constructor
  · rintro ⟨-, hrows, -, hauto⟩
    rw [hsucceeded, started_rowsFetched] at hrows
    exact ⟨hauto, hrows⟩
  · rintro ⟨hauto, hrows⟩
    refine ⟨?_, ?_, ?_, hauto⟩
    · simp [reached, hbookmark]
    · rw [hsucceeded, started_rowsFetched]
      exact hrows
    · rw [hsucceeded, started_diagRowCount]

theorem right_through (hbookmark : call.lacksBookmark = false) (hstop : call.stopAt = none) :
    call.BulkRight stmt (finish stmt.doesAutocommit call.sizeOfRowset
      (call.askRows 0 call.sizeOfRowset (started stmt))) ↔
        ∀ idx < call.sizeOfRowset, call.RowAddressed idx := by
  have hreached : call.reached = call.sizeOfRowset := by simp [reached, hbookmark, hstop]
  have hsucceeded : call.succeeded = call.sizeOfRowset := by simp [succeeded, hbookmark, hstop]
  have hasked : (finish stmt.doesAutocommit call.sizeOfRowset
      (call.askRows 0 call.sizeOfRowset (started stmt))).requests =
        stmt.requests ++ (List.range call.sizeOfRowset).map call.request := by
    rw [finish_requests, askRows, started_requests, List.range_eq_range']
  rw [← map_request_eq_iff hbookmark]
  constructor
  · rintro ⟨hrequests, -, -, -⟩
    rw [hasked, hreached] at hrequests
    exact List.append_cancel_left hrequests
  · intro hrequests
    refine ⟨?_, ?_, ?_, finish_started_inAutocommit _ _ _⟩
    · rw [hasked, hreached, hrequests]
    · rw [hsucceeded, finish_rowsFetched, askRows, started_rowsFetched]
    · rw [hsucceeded, finish]

/-- A row that fails is counted. -/
theorem not_right_failed {idx : Nat} (hbookmark : call.lacksBookmark = false)
    (hstop : call.stopAt = some idx) (state : BulkStatement) :
    ¬ call.BulkRight stmt (finish needed (idx + 1) state) := by
  rintro ⟨-, -, hcount, -⟩
  have hsucceeded : call.succeeded = idx := by simp [succeeded, hbookmark, hstop]
  rw [hsucceeded, finish] at hcount
  exact Nat.succ_ne_self idx hcount

/-- What was switched and counted before a row is cancelled stays so. -/
theorem right_cancelled {idx : Nat} (hbookmark : call.lacksBookmark = false)
    (hstop : call.stopAt = some idx) :
    call.BulkRight stmt (wait needed idx (call.askRows 0 (idx + 1) (started stmt))).pgapiCancel ↔
      idx = 0 ∧ call.RowAddressed 0 ∧ LeftAlone stmt := by
  have hreached : call.reached = idx + 1 := by simp [reached, hbookmark, hstop]
  have hsucceeded : call.succeeded = idx := by simp [succeeded, hbookmark, hstop]
  have hasked : (wait needed idx (call.askRows 0 (idx + 1) (started stmt))).pgapiCancel.requests =
      stmt.requests ++ (List.range (idx + 1)).map call.request := by
    rw [List.range_eq_range']
    exact congrArg (· ++ _) started_requests
  rw [LeftAlone, ← started_inAutocommit_iff, ← rowsFetched_eq_zero_iff]
  constructor
  · rintro ⟨hrequests, hrows, hcount, hauto⟩
    have hidx : idx = 0 := hsucceeded.symm.trans hcount.symm
    rw [hsucceeded, hidx] at hrows
    rw [hasked, hreached] at hrequests
    have haddressed := (map_request_eq_iff hbookmark _).1 (List.append_cancel_left hrequests)
    exact ⟨hidx, haddressed 0 (Nat.succ_pos idx), hauto, started_rowsFetched.symm.trans hrows⟩
  · rintro ⟨rfl, haddressed, hauto, hrows⟩
    refine ⟨?_, ?_, hsucceeded.symm, hauto⟩
    · rw [hasked, hreached, (map_request_eq_iff hbookmark 1).2]
      intro idx hidx
      rwa [Nat.lt_one_iff.1 hidx]
    · rw [hsucceeded]
      exact started_rowsFetched.trans hrows

/-- A call with the dialogues that follow on it has one end.  It is as the application may expect
exactly if the call meets the condition. -/
theorem bulkRight_iff (call : BulkCall) (stmt : BulkStatement) (hcallbacks : stmt.callbacks = []) :
    ∃ last, (∀ stmt', call.Dialogue (call.pgapiBulkOperations stmt) stmt' ↔ stmt' = last) ∧
      (call.BulkRight stmt last ↔ call.Meets stmt) := by
  rw [pgapiBulkOperations_eq]
  cases hbookmark : call.lacksBookmark with
  | true =>
    refine ⟨started stmt, fun stmt' ↦ dialogue_some, ?_⟩
    rw [Meets, if_pos hbookmark, right_lacking hbookmark]
  | false =>
    refine ⟨call.bulkEnd stmt.doesAutocommit call.sizeOfRowset 0 (started stmt), fun stmt' ↦ ?_, ?_⟩
    · exact dialogue_bulkLoop (Nat.zero_add _) nofun (started_callbacks.trans hcallbacks)
    rw [Meets, if_neg (by simp [hbookmark])]
    cases hstop : call.stopAt with
    | none =>
      rw [stopAt, List.range_eq_range'] at hstop
      rw [bulkEnd_through hstop, Nat.zero_add, right_through hbookmark]
      rwa [stopAt, List.range_eq_range']
    | some idx =>
      have hfind := hstop
      rw [stopAt, List.range_eq_range'] at hfind
      rw [(bulkEnd_stopped hfind).2.2, Nat.sub_zero]
      by_cases hcancels : call.answer idx = .needData .cancels
      · rw [if_pos hcancels, right_cancelled hbookmark hstop]
        constructor
        · rintro ⟨rfl, haddressed, halone⟩
          exact ⟨rfl, hcancels, haddressed, halone⟩
        · rintro ⟨rfl, -, haddressed, halone⟩
          exact ⟨rfl, haddressed, halone⟩
      · rw [if_neg hcancels]
        refine iff_of_false (not_right_failed hbookmark hstop _) ?_
        rintro ⟨rfl, hcancelled, -⟩
        exact hcancels hcancelled

/-! ## A row that is cancelled -/

/-- Two rows are added, and the application cancels while the data of the second are waited for. -/
def cancelledAdd : BulkCall where
  operation := .add
  sizeOfRowset := 2
  bookmark := none
  deleted _ := []
  updated _ := []
  cached _ _ := none
  answer idx := if idx = 0 then .returns .success else .needData .cancels

/-- A statement of a connection that commits by itself. -/
def committing : BulkStatement where
  inAutocommit := true
  inManualTransaction := false
  callbacks := []
  rowsFetched := some 7
  diagRowCount := 0
  requests := []

theorem bulkRight_iff_cancelledAdd :
    ∃ last, (∀ stmt', cancelledAdd.Dialogue (cancelledAdd.pgapiBulkOperations committing) stmt' ↔
        stmt' = last) ∧ (cancelledAdd.BulkRight committing last ↔ cancelledAdd.Meets committing) :=
  bulkRight_iff cancelledAdd committing rfl

/-- The connection does not commit by itself any more, and the row that was added is not counted. -/
theorem cancelledAdd_not_right :
    ∃ last, cancelledAdd.Dialogue (cancelledAdd.pgapiBulkOperations committing) last ∧
      last.inAutocommit = false ∧ last.rowsFetched = some 7 ∧ last.diagRowCount = 0 ∧
        cancelledAdd.succeeded = 1 ∧ ¬ cancelledAdd.BulkRight committing last := by
  refine ⟨cancelledAdd.bulkEnd true 2 0 (started committing), ?_, rfl, rfl, rfl, by decide, ?_⟩
  · rw [pgapiBulkOperations_eq]
    have hcallbacks : (started committing).callbacks = [] := rfl
    exact (dialogue_bulkLoop (Nat.zero_add 2) (by decide) hcallbacks).2 rfl
  · rintro ⟨-, -, -, hauto⟩
    exact Bool.false_ne_true hauto

end BulkCall

end PsqlOdbc
