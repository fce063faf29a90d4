import Mathlib.Data.List.DropRight
import PsqlOdbc.Statement.BatchSent

/-!
# The status of each row of a parameter array (`execute.c`)

`Exec_with_parameters_resolved` marks a row as done when its command is deferred, and corrects that
when the batch has been executed, by going back over as many rows as were deferred.  `RowsRight` is
what the application is promised, batch by batch.
-/

namespace PsqlOdbc

/-! ## The driver -/

/-- An element of `param_status_ptr`. -/
inductive ParamStatus
  | success
  | successWithInfo
  | error
  | unused
  deriving DecidableEq, Repr

/-- A call with an array for the statuses.  `has_notice` is set by a notice, or by a result that is
an error but not a fatal one. -/
structure StatusCall extends ExecuteCall where
  /-- `has_notice` behind the `SC_execute` at a row. -/
  hasNotice : Nat → Bool
  lastHasNotice : Bool

/-- `param_status_ptr[i] = status`.  There is no result outside of the array. -/
def setStatus (i : Nat) (status : ParamStatus) (ptr : List ParamStatus) :
    Option (List ParamStatus) :=
  if i < ptr.length then some (ptr.set i status) else none

/-- The loop of `param_status_batch_update` where `n` more rows are to be set and `i` is the row
behind the next one. -/
def batchUpdateLoop (retval : ParamStatus) :
    Nat → Nat → List ParamStatus → Option (List ParamStatus)
  | 0, _, ptr => some ptr
  | _, 0, ptr => some ptr
  | n + 1, i + 1, ptr =>
    match ptr[i]? with
    | none => none
    | some status =>
      if status ≠ .unused then batchUpdateLoop retval n i (ptr.set i retval)
      else batchUpdateLoop retval (n + 1) i ptr

/-- `param_status_batch_update`. -/
def paramStatusBatchUpdate (retval : ParamStatus) (targetRow countOfDeffered : Nat)
    (ptr : List ParamStatus) : Option (List ParamStatus) :=
  batchUpdateLoop retval (countOfDeffered + 1) (targetRow + 1) ptr

/-- What `Exec_with_parameters_resolved` does with the statuses behind an `SC_execute`. -/
def executedStatuses (retval : Retcode) (hasNotice : Bool) (row statusRow countOfDeferred : Nat)
    (ptr : List ParamStatus) : Option (List ParamStatus) :=
  match retval with
  | .error => paramStatusBatchUpdate .error row countOfDeferred ptr
  | .success => setStatus statusRow .success ptr
  | .successWithInfo =>
    paramStatusBatchUpdate
      (if 0 < countOfDeferred ∧ hasNotice = false then .success else .successWithInfo)
      statusRow countOfDeferred ptr
  | .noData => paramStatusBatchUpdate .error statusRow countOfDeferred ptr

namespace StatusCall

variable (call : StatusCall)

/-- `Exec_with_parameters_resolved` for a row. -/
def rowStatuses (execType : ExecType) (row : Nat) (stmt : BatchStatement)
    (ptr : List ParamStatus) : Option (List ParamStatus) :=
  match (call.rows row).converted with
  | none => some ptr
  | some _ =>
    if ¬(call.extended ∨ execType = .direct) ∧
        (execType = .deffered ∧ row < call.endRow ∧ stmt.countOfDeffered + 1 < stmt.batchSize) then
      setStatus row .success ptr
    else
      executedStatuses (call.rows row).outcome.retval (call.hasNotice row) row row
        stmt.countOfDeffered ptr

/-- The row whose status is not `SQL_PARAM_UNUSED`, of those in front of `i`, or `row`. -/
def lastStatusRow (row : Nat) (ptr : List ParamStatus) : Nat → Nat
  | 0 => row
  | i + 1 => if ptr[i]? ≠ some .unused then i else lastStatusRow row ptr i

/-- `Exec_with_parameters_resolved` with `LAST_EXEC`. -/
def lastStatuses (row : Nat) (stmt : BatchStatement) (ptr : List ParamStatus) :
    Option (List ParamStatus) :=
  if stmt.stmtDeferred.all fun texts ↦ decide (deferredData texts = []) then some ptr
  else
    executedStatuses call.lastOutcome.retval call.lastHasNotice row
      (lastStatusRow row ptr (call.endRow + 1)) stmt.countOfDeffered ptr

/-- `PGAPI_Execute` behind the rows. -/
def endStatuses (execType : ExecType) (row : Nat) (stmt : BatchStatement)
    (ptr : List ParamStatus) : Option (List ParamStatus) :=
  if execType = .deffered then call.lastStatuses row stmt ptr else some ptr

/-- `next_param_row`: `n` rows are left. -/
def loopStatuses (execType : ExecType) :
    Nat → Nat → BatchStatement → List ParamStatus → Option (List ParamStatus)
  | 0, row, stmt, ptr => call.endStatuses execType row stmt ptr
  | n + 1, row, stmt, ptr =>
    if (call.rows row).ignored then
      if call.endRow ≤ row then call.endStatuses execType row stmt ptr
      else loopStatuses execType n (row + 1) stmt ptr
    else
      (setStatus row .error ptr).bind fun ptr ↦
        (call.rowStatuses execType row stmt ptr).bind fun ptr ↦
          let executed := execRow call.toExecuteCall execType row stmt
          if executed.2.2 then some ptr else loopStatuses execType n (row + 1) executed.2.1 ptr

/-- The statuses of the first `n` rows before any is executed. -/
def initStatuses : Nat → List ParamStatus → Option (List ParamStatus)
  | 0, ptr => some ptr
  | n + 1, ptr => (initStatuses n ptr).bind (setStatus n .unused)

/-- The statuses that `PGAPI_Execute` leaves, of a statement that is ready. -/
def paramStatuses (stmt : BatchStatement) (ptr : List ParamStatus) : Option (List ParamStatus) :=
  (initStatuses (call.endRow + 1) ptr).bind
    (call.loopStatuses (call.execType (call.start stmt)) (call.endRow + 1) 0 (call.start stmt))

end StatusCall

/-! ## Batches -/

/-- A batch: its rows, and whether it is executed behind the rows of the array. -/
structure Batch where
  rows : List Nat
  behind : Bool
  deriving DecidableEq, Repr

/-- The batches of `pending` and the rows that are left, where a batch has `size` rows. -/
def batchesFrom (size endRow : Nat) : List Nat → List Nat → List Batch
  | [], [] => []
  | pending, [] => [⟨pending, true⟩]
  | pending, row :: rows =>
    if pending.length + 1 < size ∧ row < endRow then
      batchesFrom size endRow (pending ++ [row]) rows
    else ⟨pending ++ [row], false⟩ :: batchesFrom size endRow [] rows

namespace StatusCall

variable (call : StatusCall)

/-- The number of rows in a batch. -/
def batchRows (stmt : BatchStatement) : Nat :=
  if call.extended ∨ call.execType stmt = .direct then 1 else stmt.batchSize

/-- The batches of a call. -/
def batches (stmt : BatchStatement) : List Batch :=
  batchesFrom (call.batchRows stmt) call.endRow [] (call.wantedFrom 0 (call.endRow + 1))

/-- The rows in front of the first one that cannot be converted. -/
def convertedRows (batch : Batch) : List Nat :=
  batch.rows.takeWhile fun row ↦ (call.rows row).converted.isSome

/-- What comes of the `SC_execute` of a batch. -/
def outcome (batch : Batch) : Retcode :=
  if batch.behind then call.lastOutcome.retval
  else (call.rows (batch.rows.getLastD 0)).outcome.retval

def notice (batch : Batch) : Bool :=
  if batch.behind then call.lastHasNotice else call.hasNotice (batch.rows.getLastD 0)

/-- Nothing is sent behind the rows if there is no text in the buffer. -/
def isBlank (batch : Batch) : Bool :=
  batch.behind && batch.rows.all fun row ↦ (call.rows row).converted = some []

/-- A success, and with information only for a notice. -/
def StatusOk (notice : Bool) (status : ParamStatus) : Prop :=
  status = .success ∨ status = .successWithInfo ∧ notice = true

/-- What the application is promised about the rows of a list of batches: those in front of the
first one that fails have been accepted, and those behind it are not attempted. -/
def RowsRight : List Batch → (Nat → ParamStatus) → Prop
  | [], _ => True
  | batch :: more, status =>
    match batch.rows.drop (call.convertedRows batch).length with
    | row :: rows =>
      -- The row fails; none of its batch has been sent.
      status row = .error ∧
        (∀ i ∈ call.convertedRows batch, status i = .unused ∨ status i = .error) ∧
        (∀ i ∈ rows, status i = .unused) ∧ ∀ batch ∈ more, ∀ i ∈ batch.rows, status i = .unused
    | [] =>
      if call.isBlank batch then ∀ i ∈ batch.rows, status i = .unused
      else if call.outcome batch = .error then
        (∀ i ∈ batch.rows, status i = .error) ∧
          ∀ batch ∈ more, ∀ i ∈ batch.rows, status i = .unused
      else (∀ i ∈ batch.rows, StatusOk (call.notice batch) (status i)) ∧ RowsRight more status

/-- The condition on the batches; `before` is whether the batch in front raised a notice. -/
def BatchesFine : Option Bool → List Batch → Prop
  | _, [] => True
  | before, batch :: more =>
    match batch.rows.drop (call.convertedRows batch).length with
    | _ :: _ => call.convertedRows batch = []
    | [] =>
      if call.isBlank batch then False
      else if call.outcome batch = .error then batch.behind = true → before = none
      else
        call.outcome batch ≠ .noData ∧
        (call.outcome batch = .successWithInfo ∧ call.notice batch = false →
          batch.behind = true ∨ batch.rows.length ≠ 1) ∧
        (call.outcome batch = .successWithInfo ∧ call.notice batch = true →
          batch.behind = true → before ≠ some false) ∧
        BatchesFine (some (call.notice batch)) more

/-- No element outside of the array is touched; rows that are ignored, or beyond the last row that
is processed, are unused; and the others are as promised. -/
def StatusesRight (stmt : BatchStatement) : Prop :=
  ∀ ptr : List ParamStatus, ptr.length = call.paramsetSize →
    ∃ ptr', call.paramStatuses stmt ptr = some ptr' ∧
      (∀ i < call.paramsetSize, (call.rows i).ignored = true ∨ call.endRow < i →
        ptr'[i]? = some .unused) ∧
      call.RowsRight (call.batches (call.start stmt)) fun i ↦ ptr'.getD i .unused

end StatusCall

/-! ## The array as a function -/

/-- The status of each row. -/
def statusOf (ptr : List ParamStatus) (i : Nat) : ParamStatus := ptr.getD i .unused

/-- Some rows get a status. -/
def setRows (rows : List Nat) (status : ParamStatus) (f : Nat → ParamStatus) (i : Nat) :
    ParamStatus :=
  if i ∈ rows then status else f i

/-- The rows in front of `t` whose status is not `SQL_PARAM_UNUSED`. -/
def usedBelow (f : Nat → ParamStatus) (t : Nat) : List Nat :=
  (List.range t).filter fun i ↦ f i ≠ .unused

section

variable {f g : Nat → ParamStatus} {ptr : List ParamStatus} {rows pending before : List Nat}
  {v w : ParamStatus} {i n t row : Nat}

@[simp] theorem setRows_nil (v : ParamStatus) (f : Nat → ParamStatus) : setRows [] v f = f := rfl

theorem setRows_of_mem (h : i ∈ rows) : setRows rows v f i = v := if_pos h

theorem setRows_of_notMem (h : i ∉ rows) : setRows rows v f i = f i := if_neg h

/-- Rows that have got another status before. -/
theorem setRows_setRows {rows' : List Nat} (h : ∀ i ∈ rows', i ∈ rows) :
    setRows rows v (setRows rows' w f) = setRows rows v f := by
  funext i
  by_cases hi : i ∈ rows
  · rw [setRows_of_mem hi, setRows_of_mem hi]
  · rw [setRows_of_notMem hi, setRows_of_notMem hi, setRows_of_notMem fun hi' ↦ hi (h i hi')]

theorem setRows_append (rows rows' : List Nat) (v : ParamStatus) (f : Nat → ParamStatus) :
    setRows (rows ++ rows') v f = setRows rows v (setRows rows' v f) := by
  funext i
  rw [setRows, setRows, setRows]
  by_cases hi : i ∈ rows <;> by_cases hi' : i ∈ rows' <;> simp [hi, hi']

theorem statusOf_set (h : i < ptr.length) :
    statusOf (ptr.set i v) = setRows [i] v (statusOf ptr) := by
  funext j
  rw [statusOf, List.getD_eq_getElem?_getD, List.getElem?_set]
  by_cases hij : j = i
  · subst hij
    rw [setRows_of_mem (List.mem_singleton.2 rfl), if_pos rfl, if_pos h]
    rfl
  · rw [setRows_of_notMem fun hj ↦ hij (List.mem_singleton.1 hj), if_neg (Ne.symm hij), statusOf,
      List.getD_eq_getElem?_getD]

theorem getElem?_statusOf (h : i < ptr.length) : ptr[i]? = some (statusOf ptr i) := by
  rw [statusOf, List.getD_eq_getElem _ _ h, List.getElem?_eq_getElem h]

theorem setStatus_eq (h : i < ptr.length) :
    ∃ ptr', setStatus i v ptr = some ptr' ∧ ptr'.length = ptr.length ∧
      statusOf ptr' = setRows [i] v (statusOf ptr) :=
  ⟨ptr.set i v, if_pos h, List.length_set, statusOf_set h⟩

theorem usedBelow_succ (f : Nat → ParamStatus) (t : Nat) :
    usedBelow f (t + 1) = if f t = .unused then usedBelow f t else usedBelow f t ++ [t] := by
  rw [usedBelow, List.range_succ, List.filter_append, List.filter_singleton, usedBelow]
  by_cases h : f t = .unused
  · rw [if_pos h, decide_eq_false (not_not.2 h), Bool.cond_false, List.append_nil]
  · rw [if_neg h, decide_eq_true h, Bool.cond_true]

theorem usedBelow_congr (h : ∀ i < t, f i = g i) : usedBelow f t = usedBelow g t := by
  apply List.filter_congr
  intro i hi
  rw [h i (List.mem_range.1 hi)]

/-- The loop sets the last rows that are in use. -/
theorem batchUpdateLoop_eq (ht : t ≤ ptr.length) :
    ∃ ptr', batchUpdateLoop v n t ptr = some ptr' ∧ ptr'.length = ptr.length ∧
      statusOf ptr' = setRows ((usedBelow (statusOf ptr) t).rtake n) v (statusOf ptr) := by
  induction t generalizing n ptr with
  | zero =>
    refine ⟨ptr, ?_, rfl, ?_⟩
    · cases n <;> rfl
    · rw [usedBelow, List.range_zero, List.filter_nil, List.rtake_nil, setRows_nil]
  | succ t ih =>
    cases n with
    | zero => exact ⟨ptr, rfl, rfl, by rw [List.rtake_zero, setRows_nil]⟩
    | succ n =>
      rw [batchUpdateLoop, getElem?_statusOf ht, usedBelow_succ]
      dsimp only
      by_cases hused : statusOf ptr t = .unused
      · rw [if_neg (not_not.2 hused), if_pos hused]
        exact ih (Nat.le_of_succ_le ht)
      · rw [if_pos hused, if_neg hused, List.rtake_concat_succ]
        have hlen : t ≤ (ptr.set t v).length := by
          rw [List.length_set]
          exact Nat.le_of_succ_le ht
        obtain ⟨ptr', hloop, hlen', hstatus⟩ := @ih (ptr.set t v) n hlen
        refine ⟨ptr', hloop, hlen'.trans List.length_set, ?_⟩
        have hbelow : usedBelow (setRows [t] v (statusOf ptr)) t = usedBelow (statusOf ptr) t := by
          apply usedBelow_congr
          intro i hi
          exact setRows_of_notMem fun hmem ↦ Nat.ne_of_lt hi (List.mem_singleton.1 hmem)
        rw [hstatus, statusOf_set ht, hbelow, setRows_append]

theorem paramStatusBatchUpdate_eq (ht : row < ptr.length) :
    ∃ ptr', paramStatusBatchUpdate v row n ptr = some ptr' ∧ ptr'.length = ptr.length ∧
      statusOf ptr' =
        setRows ((usedBelow (statusOf ptr) (row + 1)).rtake (n + 1)) v (statusOf ptr) :=
  batchUpdateLoop_eq ht

/-- What was deferred, and the row in front of it if there is one. -/
theorem rtake_pending (before pending : List Nat) :
    (before ++ pending).rtake (pending.length + 1) = before.getLast?.toList ++ pending := by
  rcases List.eq_nil_or_concat before with rfl | ⟨before, q, rfl⟩
  · rw [List.rtake, List.nil_append, Nat.sub_eq_zero_of_le (Nat.le_succ _)]
    rfl
  · have hlen : (before ++ [q] ++ pending).length - (pending.length + 1) = before.length := by
      simp only [List.length_append, List.length_singleton]
      omega
    rw [List.concat_eq_append, List.rtake, hlen, List.append_assoc, List.drop_left,
      List.getLast?_concat]
    rfl

theorem rtake_batch (before pending : List Nat) (row : Nat) :
    (before ++ pending ++ [row]).rtake (pending.length + 1) = pending ++ [row] := by
  rw [List.rtake_concat_succ, List.rtake, List.length_append, Nat.add_sub_cancel, List.drop_left]

/-- The last row in use. -/
theorem lastStatusRow_eq (ht : t ≤ ptr.length) (row : Nat) :
    StatusCall.lastStatusRow row ptr t = (usedBelow (statusOf ptr) t).getLastD row := by
  induction t with
  | zero => rfl
  | succ t ih =>
    rw [StatusCall.lastStatusRow, getElem?_statusOf ht, usedBelow_succ]
    by_cases hused : statusOf ptr t = .unused
    · rw [if_pos hused, hused, if_neg (not_not.2 rfl)]
      exact ih (Nat.le_of_succ_le ht)
    · rw [if_neg hused, if_pos fun h ↦ hused (Option.some_inj.1 h), List.getLastD_concat]

/-- There is no row in use behind the last one. -/
theorem usedBelow_last (h : usedBelow f t ≠ []) (row : Nat) :
    usedBelow f ((usedBelow f t).getLastD row + 1) = usedBelow f t ∧
      (usedBelow f t).getLastD row < t := by
  induction t with
  | zero => exact absurd rfl h
  | succ t ih =>
    have hsucc := usedBelow_succ f t
    by_cases hused : f t = .unused
    · rw [if_pos hused] at hsucc
      rw [hsucc] at h ⊢
      exact ⟨(ih h).1, Nat.lt_succ_of_lt (ih h).2⟩
    · rw [if_neg hused] at hsucc
      have hlast : (usedBelow f (t + 1)).getLastD row = t := by
        rw [hsucc, List.getLastD_concat]
      rw [hlast]
      exact ⟨rfl, Nat.lt_succ_self t⟩

end

end PsqlOdbc
