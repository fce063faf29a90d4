import PsqlOdbc.Statement.ParamStatus

/-!
# What the driver leaves in the array of statuses

`driverStatuses` says, batch by batch, what becomes of the array.  The loop of `PGAPI_Execute` keeps
`LoopState`, from which it follows (`loopStatuses_eq`).
-/

namespace PsqlOdbc

/-- The status that the rows of a batch get, where `deferred` rows are in front of the last one. -/
def doneStatus (retval : Retcode) (notice : Bool) (deferred : Nat) : ParamStatus :=
  match retval with
  | .success => .success
  | .successWithInfo => if 0 < deferred ∧ notice = false then .success else .successWithInfo
  | .error => .error
  | .noData => .error

theorem doneStatus_ne_unused (retval : Retcode) (notice : Bool) (deferred : Nat) :
    doneStatus retval notice deferred ≠ .unused := by
  cases retval with
  | success => exact nofun
  | successWithInfo =>
    change (if _ then ParamStatus.success else .successWithInfo) ≠ .unused
    split <;> exact nofun
  | noData => exact nofun
  | error => exact nofun

namespace StatusCall

variable (call : StatusCall)

/-- The statuses behind a list of batches; `before` is the last row in front of them. -/
def driverStatuses : Option Nat → List Batch → (Nat → ParamStatus) → Nat → ParamStatus
  | _, [], f => f
  | before, batch :: more, f =>
    match batch.rows.drop (call.convertedRows batch).length with
    | row :: _ => setRows [row] .error (setRows (call.convertedRows batch) .success f)
    | [] =>
      if batch.behind then
        if call.isBlank batch ∨ call.outcome batch = .success then setRows batch.rows .success f
        else
          -- One row more than there are in the batch.
          setRows (before.toList ++ batch.rows)
            (doneStatus (call.outcome batch) (call.notice batch) batch.rows.length) f
      else
        let f := setRows batch.rows
          (doneStatus (call.outcome batch) (call.notice batch) (batch.rows.length - 1)) f
        if call.outcome batch = .error then f else driverStatuses batch.rows.getLast? more f

end StatusCall

/-- The buffer has no text. -/
def blankBuffer (stmt : BatchStatement) : Bool :=
  stmt.stmtDeferred.all fun texts ↦ decide (deferredData texts = [])

/-- The commands of the rows `pending` have been deferred. -/
structure Collected (call : StatusCall) (pending : List Nat) (stmt : BatchStatement) : Prop where
  count : stmt.countOfDeffered = pending.length
  blank : blankBuffer stmt = pending.all fun row ↦ decide ((call.rows row).converted = some [])
  converted : ∀ i ∈ pending, (call.rows i).converted.isSome = true

/-- Before a row: `pending` are the rows of the batch that is being collected, and `f` the statuses
without them. -/
structure LoopState (call : StatusCall) (row : Nat) (before pending : List Nat)
    (f : Nat → ParamStatus) (stmt : BatchStatement) (ptr : List ParamStatus) : Prop
    extends Collected call pending stmt where
  room : call.endRow < ptr.length
  status : statusOf ptr = setRows pending .success f
  used : usedBelow (statusOf ptr) row = before ++ pending
  later : ∀ i, row ≤ i → i ≤ call.endRow → statusOf ptr i = .unused

section

variable {call : StatusCall} {execType : ExecType} {row n size : Nat}
  {before pending : List Nat} {f : Nat → ParamStatus} {stmt stmt' : BatchStatement}
  {ptr ptr' : List ParamStatus} {retval : Retcode} {notice : Bool}

theorem executedStatuses_eq {statusRow count : Nat} (hstatus : statusRow < ptr.length)
    (hrow : row < ptr.length)
    (hused : usedBelow (statusOf ptr) (statusRow + 1) = usedBelow (statusOf ptr) (row + 1)) :
    ∃ ptr', executedStatuses retval notice row statusRow count ptr = some ptr' ∧
      ptr'.length = ptr.length ∧
      statusOf ptr' =
        if retval = .success then setRows [statusRow] .success (statusOf ptr)
        else setRows ((usedBelow (statusOf ptr) (row + 1)).rtake (count + 1))
          (doneStatus retval notice count) (statusOf ptr) := by
  cases retval with
  | success => exact setStatus_eq hstatus
  | error => exact paramStatusBatchUpdate_eq hrow
  | successWithInfo =>
    have h := @paramStatusBatchUpdate_eq ptr (doneStatus .successWithInfo notice count) count
      statusRow hstatus
    rw [hused] at h
    exact h
  | noData =>
    have h := @paramStatusBatchUpdate_eq ptr .error count statusRow hstatus
    rw [hused] at h
    exact h

/-- The rows that have been deferred have all been converted. -/
theorem convertedRows_pending (hconverted : ∀ i ∈ pending, (call.rows i).converted.isSome = true)
    (behind : Bool) : call.convertedRows ⟨pending, behind⟩ = pending :=
  List.takeWhile_eq_self_iff.2 hconverted

/-- Behind the rows. -/
theorem endStatuses_eq (h : LoopState call row before pending f stmt ptr) (hrow : call.endRow = row)
    (htype : pending ≠ [] → execType = .deffered)
    (hused : usedBelow (statusOf ptr) (call.endRow + 1) = before ++ pending) :
    ∃ ptr', call.endStatuses execType row stmt ptr = some ptr' ∧ ptr'.length = ptr.length ∧
      statusOf ptr' =
        call.driverStatuses before.getLast? (batchesFrom size call.endRow pending []) f := by
  subst hrow
  have hstatus := h.status
  cases hpending : pending with
  | nil =>
    rw [hpending, setRows_nil] at hstatus
    have hblank := h.blank
    rw [hpending] at hblank
    refine ⟨ptr, ?_, rfl, hstatus⟩
    rw [StatusCall.endStatuses]
    split
    · exact if_pos hblank
    · rfl
  | cons i pending' =>
    have hne : pending ≠ [] := hpending ▸ List.cons_ne_nil i pending'
    rw [← hpending]
    have hbatches : batchesFrom size call.endRow pending [] = [⟨pending, true⟩] := by
      rw [hpending]
      rfl
    have hdrop : pending.drop (call.convertedRows ⟨pending, true⟩).length = [] := by
      rw [convertedRows_pending h.converted, List.drop_length]
    have hisBlank : call.isBlank ⟨pending, true⟩ =
        pending.all fun row ↦ decide ((call.rows row).converted = some []) := Bool.true_and _
    have houtcome : call.outcome ⟨pending, true⟩ = call.lastOutcome.retval := rfl
    have hnotice : call.notice ⟨pending, true⟩ = call.lastHasNotice := rfl
    rw [hbatches, StatusCall.driverStatuses, hdrop, hisBlank, ← h.blank, houtcome, hnotice]
    dsimp only
    rw [if_pos rfl, StatusCall.endStatuses, if_pos (htype hne), StatusCall.lastStatuses]
    change ∃ ptr', (if blankBuffer stmt then some ptr else _) = some ptr' ∧ _
    cases hblank : blankBuffer stmt with
    | true => exact ⟨ptr, if_pos rfl, rfl, by rw [if_pos (Or.inl rfl)]; exact hstatus⟩
    | false =>
      rw [if_neg Bool.false_ne_true]
      have hsome : usedBelow (statusOf ptr) (call.endRow + 1) ≠ [] := by
        rw [hused]
        exact List.append_ne_nil_of_right_ne_nil before hne
      obtain ⟨hlast, hlt⟩ := usedBelow_last hsome call.endRow
      have hroom := h.room
      obtain ⟨ptr', hexecuted, hlen, hptr'⟩ := @executedStatuses_eq call.endRow ptr
        call.lastOutcome.retval call.lastHasNotice _ stmt.countOfDeffered
        (Nat.lt_of_lt_of_le hlt hroom) hroom hlast
      rw [lastStatusRow_eq hroom]
      refine ⟨ptr', hexecuted, hlen, ?_⟩
      rw [hptr']
      by_cases hsuccess : call.lastOutcome.retval = .success
      · rw [if_pos hsuccess, if_pos (Or.inr hsuccess), hstatus]
        have hmem : (usedBelow (statusOf ptr) (call.endRow + 1)).getLastD call.endRow ∈ pending := by
          rw [hused, List.getLastD_eq_getLast?, List.getLast?_append_of_ne_nil _ hne,
            List.getLast?_eq_some_getLast hne]
          exact List.getLast_mem hne
        funext j
        by_cases hj : j ∈ pending
        · by_cases hj' : j ∈ [(usedBelow (statusOf ptr) (call.endRow + 1)).getLastD call.endRow]
          · rw [setRows_of_mem hj, ← hstatus, setRows_of_mem hj']
          · rw [← hstatus, setRows_of_notMem hj', hstatus]
        · have hj' : j ∉ [(usedBelow (statusOf ptr) (call.endRow + 1)).getLastD call.endRow] := by
            intro hmem'
            rw [List.mem_singleton.1 hmem'] at hj
            exact hj hmem
          rw [← hstatus, setRows_of_notMem hj', hstatus]
      · have hor : ¬(false = true ∨ call.lastOutcome.retval = .success) := by
          rintro (hfalse | hsuccess')
          · cases hfalse
          · exact hsuccess hsuccess'
        rw [if_neg hsuccess, if_neg hor, hused, h.count, rtake_pending, hstatus]
        exact setRows_setRows fun j hj ↦ List.mem_append_right _ hj

/-- The command of a row is deferred. -/
def Defers (call : ExecuteCall) (execType : ExecType) (row : Nat) (stmt : BatchStatement) : Prop :=
  ¬(call.extended = true ∨ execType = .direct) ∧
    (execType = .deffered ∧ row < call.endRow ∧ stmt.countOfDeffered + 1 < stmt.batchSize)

instance (call : ExecuteCall) (execType : ExecType) (row : Nat) (stmt : BatchStatement) :
    Decidable (Defers call execType row stmt) :=
  inferInstanceAs (Decidable (_ ∧ _))

theorem execRow_failed {call : ExecuteCall} (h : (call.rows row).converted = none) :
    (execRow call execType row stmt).2.2 = true := by
  rw [execRow, h]

theorem deferredData_append_ne {texts : List (List UInt8)} {text : List UInt8}
    (h : deferredData texts ≠ []) : deferredData (texts ++ [text]) ≠ [] := by
  cases texts with
  | nil => exact absurd rfl h
  | cons t texts =>
    cases texts with
    | nil =>
      rw [List.singleton_append, deferredData, List.intercalate_cons_cons]
      exact List.append_ne_nil_of_left_ne_nil
        (List.append_ne_nil_of_right_ne_nil t (List.cons_ne_nil _ _)) _
    | cons t' texts =>
      rw [List.cons_append, List.cons_append, deferredData, List.intercalate_cons_cons]
      exact List.append_ne_nil_of_left_ne_nil
        (List.append_ne_nil_of_right_ne_nil t (List.cons_ne_nil _ _)) _

theorem execRow_defers {call : ExecuteCall} {text : List UInt8}
    (hconverted : (call.rows row).converted = some text) (h : Defers call execType row stmt) :
    ∃ stmt', execRow call execType row stmt = (.success, stmt', false) ∧
      stmt'.countOfDeffered = stmt.countOfDeffered + 1 ∧ stmt'.batchSize = stmt.batchSize ∧
      blankBuffer stmt' = (blankBuffer stmt && decide (text = [])) := by
  rw [execRow, hconverted]
  dsimp only
  rw [if_neg h.1, if_pos h.2]
  refine ⟨_, rfl, rfl, rfl, ?_⟩
  have hsingle : deferredData [text] = text := by
    rw [deferredData, List.intercalate_singleton]
  rw [blankBuffer, blankBuffer, Option.all_some]
  cases hdeferred : stmt.stmtDeferred with
  | none =>
    have hempty : deferredData [[]] = [] := rfl
    rw [Option.getD_none, if_pos hempty, hsingle]
    rfl
  | some texts =>
    rw [Option.getD_some, Option.all_some]
    by_cases hdata : deferredData texts = []
    · rw [if_pos hdata, hsingle, decide_eq_true hdata, Bool.true_and]
    · rw [if_neg hdata, decide_eq_false hdata, Bool.false_and]
      exact decide_eq_false (deferredData_append_ne hdata)

theorem afterExecute_stmt (endRow row : Nat) (o : ExecOutcome) (stmt : BatchStatement) :
    (afterExecute endRow row o stmt).2.1 = stmt ∧
      (afterExecute endRow row o stmt).2.2 = (decide (o.retval = .error) || decide (endRow ≤ row)) := by
  rw [afterExecute]
  by_cases h : o.retval = .error
  · rw [if_pos h, decide_eq_true h]
    exact ⟨rfl, rfl⟩
  · rw [if_neg h, decide_eq_false h]
    exact ⟨rfl, rfl⟩

theorem flushDeferred_blank (stmt : BatchStatement) (o : ExecOutcome) :
    (flushDeferred stmt o).countOfDeffered = 0 ∧ blankBuffer (flushDeferred stmt o) = true := by
  rw [flushDeferred]
  cases hdeferred : stmt.stmtDeferred with
  | none =>
    refine ⟨rfl, ?_⟩
    rw [blankBuffer]
    dsimp only
    rw [scExecute_stmtDeferred, hdeferred]
    rfl
  | some texts => exact ⟨rfl, rfl⟩

theorem execRow_executes {call : ExecuteCall} {text : List UInt8}
    (hconverted : (call.rows row).converted = some text) (h : ¬Defers call execType row stmt)
    (hblank : call.extended = true ∨ execType = .direct → blankBuffer stmt = true) :
    (execRow call execType row stmt).2.1.countOfDeffered = 0 ∧
      (execRow call execType row stmt).2.1.batchSize = stmt.batchSize ∧
      blankBuffer (execRow call execType row stmt).2.1 = true ∧
      (execRow call execType row stmt).2.2 =
        (decide ((call.rows row).outcome.retval = .error) || decide (call.endRow ≤ row)) := by
  rw [execRow, hconverted]
  dsimp only
  by_cases hdirect : call.extended = true ∨ execType = .direct
  · rw [if_pos hdirect, (afterExecute_stmt _ _ _ _).1, (afterExecute_stmt _ _ _ _).2]
    refine ⟨rfl, scExecute_batchSize _ _ _, ?_, rfl⟩
    rw [blankBuffer]
    dsimp only
    rw [scExecute_stmtDeferred]
    exact hblank hdirect
  · have hroom : ¬(execType = .deffered ∧ row < call.endRow ∧
        stmt.countOfDeffered + 1 < stmt.batchSize) := fun hroom ↦ h ⟨hdirect, hroom⟩
    rw [if_neg hdirect, if_neg hroom, (afterExecute_stmt _ _ _ _).1, (afterExecute_stmt _ _ _ _).2]
    exact ⟨(flushDeferred_blank _ _).1, flushDeferred_batchSize _ _, (flushDeferred_blank _ _).2,
      rfl⟩

theorem Collected.converted_concat {text : List UInt8} (h : Collected call pending stmt)
    (hconverted : (call.rows row).converted = some text) :
    ∀ i ∈ pending ++ [row], (call.rows i).converted.isSome = true := by
  intro i hi
  rcases List.mem_append.1 hi with hi | hi
  · exact h.converted i hi
  · rw [List.mem_singleton.1 hi, hconverted]
    rfl

theorem Collected.convertedRows_failed (h : Collected call pending stmt)
    (hconverted : (call.rows row).converted = none) (more : List Nat) (behind : Bool) :
    call.convertedRows ⟨pending ++ row :: more, behind⟩ = pending := by
  rw [StatusCall.convertedRows, List.takeWhile_append_of_pos h.converted,
    List.takeWhile_cons_of_neg (by rw [hconverted]; exact Bool.false_ne_true), List.append_nil]

/-- One row more is deferred. -/
theorem Collected.defer {text : List UInt8} (h : Collected call pending stmt)
    (hconverted : (call.rows row).converted = some text)
    (hcount : stmt'.countOfDeffered = stmt.countOfDeffered + 1)
    (hblank : blankBuffer stmt' = (blankBuffer stmt && decide (text = []))) :
    Collected call (pending ++ [row]) stmt' where
  count := by rw [hcount, h.count, List.length_append, List.length_singleton]
  blank := by
    rw [hblank, h.blank, List.all_append, List.all_cons, List.all_nil, Bool.and_true, hconverted]
    simp only [Option.some.injEq]
  converted := h.converted_concat hconverted

/-- Nothing is deferred. -/
theorem collected_nil (hcount : stmt.countOfDeffered = 0) (hblank : blankBuffer stmt = true) :
    Collected call [] stmt where
  count := hcount
  blank := hblank
  converted := List.forall_mem_nil _

/-- The batch that a row belongs to begins with the rows that have been deferred. -/
theorem batchesFrom_head (size endRow : Nat) (pending : List Nat) (row : Nat) (rows : List Nat) :
    ∃ more behind batches,
      batchesFrom size endRow pending (row :: rows) = ⟨pending ++ row :: more, behind⟩ :: batches := by
  induction rows generalizing pending row with
  | nil =>
    rw [batchesFrom]
    split
    · refine ⟨[], true, [], ?_⟩
      rw [batchesFrom]
      exact fun h ↦ absurd h (List.append_ne_nil_of_right_ne_nil pending (List.cons_ne_nil row []))
    · exact ⟨[], false, _, rfl⟩
  | cons row' rows ih =>
    rw [batchesFrom]
    split
    · obtain ⟨more, behind, batches, h⟩ := ih (pending ++ [row]) row'
      refine ⟨row' :: more, behind, batches, ?_⟩
      rw [h, List.append_assoc]
      rfl
    · exact ⟨[], false, _, rfl⟩

theorem setRows_concat (row : Nat) (pending : List Nat) (v : ParamStatus) (f : Nat → ParamStatus) :
    setRows [row] v (setRows pending v f) = setRows (pending ++ [row]) v f := by
  rw [setRows_append]
  funext i
  rw [setRows, setRows, setRows, setRows]
  split <;> split <;> rfl

/-- What the loop makes of the rows that are left. -/
def LoopLeaves (call : StatusCall) (execType : ExecType) (size n row : Nat)
    (before pending : List Nat) (f : Nat → ParamStatus) (stmt : BatchStatement)
    (ptr : List ParamStatus) : Prop :=
  ∃ ptr', call.loopStatuses execType n row stmt ptr = some ptr' ∧ ptr'.length = ptr.length ∧
    statusOf ptr' = call.driverStatuses before.getLast?
      (batchesFrom size call.endRow pending (call.wantedFrom row n)) f

/-- How many rows are in a batch, and whether any can be deferred. -/
structure LoopMode (call : StatusCall) (execType : ExecType) (size : Nat) (pending : List Nat)
    (stmt : BatchStatement) : Prop where
  type : execType ≠ .last
  size : size = if call.extended = true ∨ execType = .direct then 1 else stmt.batchSize
  pending : pending ≠ [] → execType = .deffered ∧ ¬(call.extended = true ∨ execType = .direct)

theorem LoopMode.defers_iff (hmode : LoopMode call execType size pending stmt) (row : Nat)
    (hcount : stmt.countOfDeffered = pending.length) :
    Defers call.toExecuteCall execType row stmt ↔
      pending.length + 1 < size ∧ row < call.endRow := by
  rw [Defers, hmode.size, hcount]
  by_cases hdirect : call.extended = true ∨ execType = .direct
  · rw [if_pos hdirect]
    exact iff_of_false (fun h ↦ h.1 hdirect) fun h ↦ absurd h.1 (by omega)
  · have htype : execType = .deffered := by
      cases execType with
      | direct => exact absurd (Or.inr rfl) hdirect
      | deffered => rfl
      | last => exact absurd rfl hmode.type
    rw [if_neg hdirect]
    exact ⟨fun h ↦ ⟨h.2.2.2, h.2.2.1⟩, fun h ↦ ⟨hdirect, htype, h.2, h.1⟩⟩

theorem LoopMode.blank_of_direct (hmode : LoopMode call execType size pending stmt)
    (h : Collected call pending stmt) (hdirect : call.extended = true ∨ execType = .direct) :
    blankBuffer stmt = true := by
  rw [h.blank]
  by_cases hne : pending = []
  · rw [hne]
    rfl
  · exact absurd hdirect (hmode.pending hne).2

/-- A row that is ignored. -/
theorem loopLeaves_ignored (hrow : row + n = call.endRow)
    (h : LoopState call row before pending f stmt ptr)
    (hmode : LoopMode call execType size pending stmt) (hignored : (call.rows row).ignored = true)
    (hnext : row < call.endRow → LoopState call (row + 1) before pending f stmt ptr →
      LoopLeaves call execType size n (row + 1) before pending f stmt ptr) :
    LoopLeaves call execType size (n + 1) row before pending f stmt ptr := by
  have hunused : statusOf ptr row = .unused := h.later row le_rfl (by omega)
  have hused : usedBelow (statusOf ptr) (row + 1) = before ++ pending := by
    rw [usedBelow_succ, if_pos hunused, h.used]
  rw [LoopLeaves, StatusCall.loopStatuses, call.wantedFrom_succ, if_pos hignored, if_pos hignored]
  by_cases hend : call.endRow ≤ row
  · obtain rfl : n = 0 := by omega
    rw [if_pos hend]
    have hlast : call.endRow = row := by omega
    exact endStatuses_eq h hlast (fun hne ↦ (hmode.pending hne).1) (hlast ▸ hused)
  · rw [if_neg hend]
    have hstate : LoopState call (row + 1) before pending f stmt ptr :=
      { h with used := hused, later := fun i hi ↦ h.later i (Nat.le_of_succ_le hi) }
    exact hnext (by omega) hstate

/-- A row that is executed or deferred. -/
theorem loopLeaves_wanted (hrow : row + n = call.endRow)
    (h : LoopState call row before pending f stmt ptr)
    (hmode : LoopMode call execType size pending stmt) (hignored : (call.rows row).ignored = false)
    (hnext : row < call.endRow → ∀ {before pending : List Nat} {f : Nat → ParamStatus}
      {stmt : BatchStatement} {ptr : List ParamStatus},
      LoopState call (row + 1) before pending f stmt ptr →
      LoopMode call execType size pending stmt →
      LoopLeaves call execType size n (row + 1) before pending f stmt ptr) :
    LoopLeaves call execType size (n + 1) row before pending f stmt ptr := by
  have hroom : row < ptr.length := Nat.lt_of_le_of_lt (by omega) h.room
  obtain ⟨ptr₁, hset, hlen₁, hstatus₁⟩ := @setStatus_eq ptr .error row hroom
  have hroom₁ : row < ptr₁.length := hlen₁ ▸ hroom
  rw [LoopLeaves, StatusCall.loopStatuses, call.wantedFrom_succ, hignored,
    if_neg Bool.false_ne_true, if_neg Bool.false_ne_true, hset, Option.bind_some]
  cases hconverted : (call.rows row).converted with
  | none =>
    obtain ⟨more, behind, batches, hbatches⟩ :=
      batchesFrom_head size call.endRow pending row (call.wantedFrom (row + 1) n)
    have hrows : call.convertedRows ⟨pending ++ row :: more, behind⟩ = pending :=
      h.convertedRows_failed hconverted more behind
    have hptr : call.rowStatuses execType row stmt ptr₁ = some ptr₁ := by
      rw [StatusCall.rowStatuses, hconverted]
    rw [hptr, Option.bind_some, if_pos (execRow_failed hconverted), hbatches,
      StatusCall.driverStatuses, hrows, List.drop_left]
    refine ⟨ptr₁, rfl, hlen₁, ?_⟩
    rw [hstatus₁, h.status]
  | some text =>
    have hdefers := hmode.defers_iff row h.count
    have hptr : call.rowStatuses execType row stmt ptr₁ =
        if Defers call.toExecuteCall execType row stmt then setStatus row .success ptr₁
        else executedStatuses (call.rows row).outcome.retval (call.hasNotice row) row row
          stmt.countOfDeffered ptr₁ := by
      rw [StatusCall.rowStatuses, hconverted]
      rfl
    have hbelow : usedBelow (statusOf ptr₁) row = before ++ pending := by
      rw [← h.used, hstatus₁]
      apply usedBelow_congr
      intro i hi
      exact setRows_of_notMem fun hmem ↦ Nat.ne_of_lt hi (List.mem_singleton.1 hmem)
    by_cases hdefer : Defers call.toExecuteCall execType row stmt
    · obtain ⟨stmt', hexec, hcount, hbatch, hblank⟩ := execRow_defers hconverted hdefer
      obtain ⟨ptr₂, hset₂, hlen₂, hstatus₂⟩ := @setStatus_eq ptr₁ .success row hroom₁
      have hstatus : statusOf ptr₂ = setRows (pending ++ [row]) .success f := by
        rw [hstatus₂, hstatus₁, setRows_setRows fun i hi ↦ hi, h.status, setRows_concat]
      rw [hptr, if_pos hdefer, hset₂, Option.bind_some, hexec, if_neg Bool.false_ne_true,
        batchesFrom, if_pos (hdefers.1 hdefer)]
      have hstate : LoopState call (row + 1) before (pending ++ [row]) f stmt' ptr₂ :=
        { room := by rw [hlen₂, hlen₁]; exact h.room
          status := hstatus
          used := by
            have hrow' : statusOf ptr₂ row = .success := by
              rw [hstatus]
              exact setRows_of_mem (List.mem_append_right _ (List.mem_singleton.2 rfl))
            have hbelow' : usedBelow (statusOf ptr₂) row = before ++ pending := by
              rw [← hbelow, hstatus₂]
              apply usedBelow_congr
              intro i hi
              exact setRows_of_notMem fun hmem ↦ Nat.ne_of_lt hi (List.mem_singleton.1 hmem)
            rw [usedBelow_succ, hrow', if_neg (by decide), hbelow', List.append_assoc]
          later := by
            intro i hi hle
            have hne : i ∉ [row] := fun hmem ↦
              absurd (List.mem_singleton.1 hmem) (Nat.ne_of_gt hi)
            rw [hstatus₂, setRows_of_notMem hne, hstatus₁, setRows_of_notMem hne]
            exact h.later i (Nat.le_of_succ_le hi) hle
          toCollected := h.toCollected.defer hconverted hcount hblank }
      obtain ⟨ptr', hloop, hlen, hresult⟩ := hnext hdefer.2.2.1 hstate
        ⟨hmode.type, by rw [hbatch]; exact hmode.size, fun _ ↦ ⟨hdefer.2.1, hdefer.1⟩⟩
      exact ⟨ptr', hloop, hlen.trans (hlen₂.trans hlen₁), hresult⟩
    · have hrow₁ : statusOf ptr₁ row = .error := by
        rw [hstatus₁]
        exact setRows_of_mem (List.mem_singleton.2 rfl)
      have hused₁ : usedBelow (statusOf ptr₁) (row + 1) = before ++ pending ++ [row] := by
        rw [usedBelow_succ, hrow₁, if_neg (by decide), hbelow]
      obtain ⟨ptr₂, hexecuted, hlen₂, hstatus₂⟩ := @executedStatuses_eq row ptr₁
        (call.rows row).outcome.retval (call.hasNotice row) row stmt.countOfDeffered hroom₁ hroom₁ rfl
      have hstatus : statusOf ptr₂ = setRows (pending ++ [row])
          (doneStatus (call.rows row).outcome.retval (call.hasNotice row) pending.length) f := by
        rw [hstatus₂, h.count, hused₁, rtake_batch, hstatus₁]
        split
        · next hsuccess =>
          rw [hsuccess, setRows_setRows fun i hi ↦ hi, h.status]
          exact setRows_concat row pending .success f
        · rw [setRows_setRows fun i hi ↦ List.mem_append_right _ hi, h.status]
          exact setRows_setRows fun i hi ↦ List.mem_append_left _ hi
      obtain ⟨hcount, hbatch, hblank, hended⟩ :=
        execRow_executes hconverted hdefer (hmode.blank_of_direct h.toCollected)
      have hrows : call.convertedRows ⟨pending ++ [row], false⟩ = pending ++ [row] :=
        convertedRows_pending (h.converted_concat hconverted) false
      have houtcome : call.outcome ⟨pending ++ [row], false⟩ = (call.rows row).outcome.retval := by
        rw [StatusCall.outcome, if_neg Bool.false_ne_true, List.getLastD_concat]
      have hnotice : call.notice ⟨pending ++ [row], false⟩ = call.hasNotice row := by
        rw [StatusCall.notice, if_neg Bool.false_ne_true, List.getLastD_concat]
      rw [hptr, if_neg hdefer, hexecuted, Option.bind_some]
      dsimp only
      rw [hended, batchesFrom, if_neg fun hroom' ↦ hdefer (hdefers.2 hroom'),
        StatusCall.driverStatuses, hrows, List.drop_length, houtcome, hnotice]
      dsimp only
      rw [if_neg Bool.false_ne_true, List.length_append, List.length_singleton, Nat.add_sub_cancel,
        ← hstatus, List.getLast?_concat]
      by_cases herror : (call.rows row).outcome.retval = .error
      · rw [decide_eq_true herror, Bool.true_or, if_pos rfl, if_pos herror]
        exact ⟨ptr₂, rfl, hlen₂.trans hlen₁, rfl⟩
      · rw [decide_eq_false herror, Bool.false_or, if_neg herror]
        by_cases hend : call.endRow ≤ row
        · obtain rfl : n = 0 := by omega
          rw [decide_eq_true hend, if_pos rfl]
          exact ⟨ptr₂, rfl, hlen₂.trans hlen₁, rfl⟩
        · rw [decide_eq_false hend, if_neg Bool.false_ne_true]
          have hnotUnused : ∀ i ∈ pending ++ [row], statusOf ptr₂ i ≠ .unused := by
            intro i hi
            rw [hstatus, setRows_of_mem hi]
            exact doneStatus_ne_unused _ _ _
          have hused₂ : usedBelow (statusOf ptr₂) (row + 1) = before ++ pending ++ [row] := by
            rw [← hused₁]
            apply List.filter_congr
            intro i hi
            by_cases hmem : i ∈ pending ++ [row]
            · have hi₁ : i ∈ usedBelow (statusOf ptr₁) (row + 1) := by
                rw [hused₁, List.append_assoc]
                exact List.mem_append_right _ hmem
              rw [decide_eq_true (hnotUnused i hmem), (List.mem_filter.1 hi₁).2]
            · have hrow' : i ∉ [row] := fun h' ↦ hmem (List.mem_append_right _ h')
              have hpend : i ∉ pending := fun h' ↦ hmem (List.mem_append_left _ h')
              rw [hstatus, setRows_of_notMem hmem, hstatus₁, setRows_of_notMem hrow', h.status,
                setRows_of_notMem hpend]
          have hstate : LoopState call (row + 1) (before ++ pending ++ [row]) []
              (statusOf ptr₂) (execRow call.toExecuteCall execType row stmt).2.1 ptr₂ :=
            { room := by rw [hlen₂, hlen₁]; exact h.room
              status := rfl
              used := by rw [hused₂, List.append_nil]
              later := by
                intro i hi hle
                have hne : i ∉ pending ++ [row] := by
                  intro hmem
                  have hi₂ : i ∈ usedBelow (statusOf ptr₂) (row + 1) := by
                    rw [hused₂, List.append_assoc]
                    exact List.mem_append_right _ hmem
                  exact absurd (List.mem_range.1 (List.mem_filter.1 hi₂).1) (Nat.not_lt.2 hi)
                have hne' : i ∉ pending := fun hmem ↦ hne (List.mem_append_left _ hmem)
                have hold := h.later i (Nat.le_of_succ_le hi) hle
                rw [h.status, setRows_of_notMem hne'] at hold
                rw [hstatus, setRows_of_notMem hne]
                exact hold
              toCollected := collected_nil hcount hblank }
          obtain ⟨ptr', hloop, hlen, hresult⟩ := hnext (by omega) hstate
            ⟨hmode.type, by rw [hbatch]; exact hmode.size, fun hne ↦ absurd rfl hne⟩
          refine ⟨ptr', hloop, hlen.trans (hlen₂.trans hlen₁), ?_⟩
          rw [hresult, List.getLast?_concat]

theorem loopStatuses_eq (hrow : row + n = call.endRow)
    (h : LoopState call row before pending f stmt ptr)
    (hmode : LoopMode call execType size pending stmt) :
    LoopLeaves call execType size (n + 1) row before pending f stmt ptr := by
  induction n generalizing row before pending f stmt ptr with
  | zero =>
    have hend : ¬row < call.endRow := by omega
    cases hignored : (call.rows row).ignored with
    | true => exact loopLeaves_ignored hrow h hmode hignored fun hlt ↦ absurd hlt hend
    | false => exact loopLeaves_wanted hrow h hmode hignored fun hlt ↦ absurd hlt hend
  | succ n ih =>
    cases hignored : (call.rows row).ignored with
    | true =>
      exact loopLeaves_ignored hrow h hmode hignored fun _ hstate ↦ ih (by omega) hstate hmode
    | false =>
      exact loopLeaves_wanted hrow h hmode hignored fun _ _ _ _ _ _ hstate hmode' ↦
        ih (by omega) hstate hmode'

end

end PsqlOdbc
