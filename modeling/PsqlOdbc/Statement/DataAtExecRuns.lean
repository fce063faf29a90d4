import PsqlOdbc.Statement.DataAtExec

/-!
# The steps of a dialogue

`Waiting` is the invariant while data are needed: the parameters of the current row that have not
been asked for.  The loop of `PGAPI_Execute` goes on to the next row that needs data
(`nextParamRow_leaves`), and each call of `SQLParamData` takes the next parameter
(`paramData_waiting`).
-/

namespace PsqlOdbc

section

variable {α : Type} {p : Nat → Bool} {s n i : Nat} {l : List Nat} {m : Int}

/-! ## Counting -/

theorem foldl_count_of_nonneg (l : List Nat) (h : 0 ≤ m) :
    l.foldl (fun n i ↦ if p i then (if n < 0 then 1 else n + 1) else n) m =
      m + (l.filter p).length := by
  induction l generalizing m with
  | nil => exact (Int.add_zero m).symm
  | cons i l ih =>
    rw [List.foldl_cons, List.filter_cons]
    cases hp : p i with
    | false => exact ih h
    | true =>
      rw [if_pos rfl, if_pos rfl, if_neg (Int.not_lt.2 h), ih (Int.le_add_one h),
        List.length_cons]
      push_cast
      omega

theorem foldl_count (l : List Nat) :
    l.foldl (fun n i ↦ if p i then (if n < 0 then 1 else n + 1) else n) (-1 : Int) =
      if l.filter p = [] then -1 else ((l.filter p).length : Int) := by
  induction l with
  | nil => rfl
  | cons i l ih =>
    rw [List.foldl_cons, List.filter_cons]
    cases hp : p i with
    | false => exact ih
    | true =>
      rw [if_pos rfl, if_pos rfl, if_pos (by decide), foldl_count_of_nonneg l (by decide),
        if_neg (List.cons_ne_nil _ _), List.length_cons]
      push_cast
      omega

/-- The first member of an interval, and those behind it. -/
theorem filter_range'_cons (h : (List.range' s n).filter p = i :: l) :
    (List.range' s n).find? p = some i ∧ i < s + n ∧
      (List.range' (i + 1) (s + n - (i + 1))).filter p = l := by
  induction n generalizing s with
  | zero => cases h
  | succ n ih =>
    rw [List.range'_succ, List.filter_cons] at h
    rw [List.range'_succ, List.find?_cons]
    cases hp : p s with
    | true =>
      rw [hp, if_pos rfl] at h
      obtain ⟨rfl, rfl⟩ := List.cons.inj h
      refine ⟨rfl, by omega, ?_⟩
      rw [show s + (n + 1) - (s + 1) = n by omega]
    | false =>
      rw [hp, if_neg Bool.false_ne_true] at h
      obtain ⟨hfind, hlt, hrest⟩ := ih h
      refine ⟨hfind, by omega, ?_⟩
      rw [← hrest, show s + (n + 1) - (i + 1) = s + 1 + n - (i + 1) by omega]

end

/-! ## Events -/

section

variable {trace lead done rest : List DaeEvent} {row param k : Nat}

theorem asks_append (first rest : List DaeEvent) : asks (first ++ rest) = asks first + asks rest :=
  List.countP_append

@[simp] theorem upTo_zero (trace : List DaeEvent) : upTo 0 trace = [] := by
  cases trace <;> rfl

/-- The executed rows in front of a parameter that is asked for. -/
theorem upTo_succ_append (hlead : asks lead = 0) :
    upTo (k + 1) (lead ++ .asked row param :: rest) = lead ++ .asked row param :: upTo k rest := by
  induction lead with
  | nil => rfl
  | cons event lead ih =>
    cases event with
    | asked row param => exact absurd hlead (by rw [asks, List.countP_cons]; exact Nat.succ_ne_zero _)
    | executed row => exact congrArg (.executed row :: ·) (ih hlead)

/-- Behind the parameters that have been asked for. -/
theorem upTo_add_append (hdone : upTo (asks done) (done ++ rest) = done) (k : Nat) :
    upTo (asks done + k) (done ++ rest) = done ++ upTo k rest := by
  induction done with
  | nil => rw [List.nil_append, List.nil_append, asks, List.countP_nil, Nat.zero_add]
  | cons event done ih =>
    cases event with
    | asked row param =>
      have hasks : asks (.asked row param :: done) = asks done + 1 := by
        rw [asks, List.countP_cons]
        rfl
      rw [hasks] at hdone ⊢
      rw [Nat.add_right_comm]
      exact congrArg (.asked row param :: ·) (ih (List.cons.inj hdone).2)
    | executed row =>
      have hasks : asks (.executed row :: done) = asks done := by
        rw [asks, List.countP_cons]
        rfl
      rw [hasks] at hdone ⊢
      cases hk : asks done with
      | zero =>
        rw [hk] at hdone
        cases hdone
      | succ j =>
        rw [hk] at hdone ih
        rw [Nat.add_right_comm]
        have h := ih (List.cons.inj hdone).2
        rw [Nat.add_right_comm] at h
        exact congrArg (.executed row :: ·) h

theorem asks_eq_zero_iff : asks trace = 0 ↔ ∀ event ∈ trace, event.isAsked = false := by
  rw [asks, List.countP_eq_zero]
  simp only [Bool.not_eq_true]

/-- A trace of which a parameter is the first thing behind the rows of `lead`. -/
theorem eventsThrough_append (hlead : asks lead = 0) (k : Nat) :
    eventsThrough k (lead ++ .asked row param :: rest) =
      lead ++ upTo k (.asked row param :: rest) := by
  have hall : ∀ event ∈ lead, (!event.isAsked) = true := by
    intro event hevent
    rw [asks_eq_zero_iff.1 hlead event hevent]
    rfl
  rw [eventsThrough, List.takeWhile_append_of_pos hall, List.dropWhile_append_of_pos hall,
    List.takeWhile_cons_of_neg (by exact Bool.false_ne_true), List.append_nil,
    List.dropWhile_cons_of_neg (by exact Bool.false_ne_true)]

end

/-! ## Rows -/

section

variable {call : DaeCall} {execType : ExecType} {row n : Nat} {batch : BatchStatement}

/-- A row ends the array if it fails, or is the last one. -/
theorem execRow_ended (call : ExecuteCall) (execType : ExecType) (row : Nat)
    (stmt : BatchStatement) :
    (execRow call execType row stmt).2.2 =
      (decide ((execRow call execType row stmt).1 = .error) || decide (call.endRow ≤ row)) := by
  have hafter : ∀ (o : ExecOutcome) (stmt : BatchStatement),
      (afterExecute call.endRow row o stmt).2.2 =
        (decide ((afterExecute call.endRow row o stmt).1 = .error) ||
          decide (call.endRow ≤ row)) := by
    intro o stmt
    rw [afterExecute]
    by_cases herror : o.retval = .error
    · rw [if_pos herror]
      rfl
    · rw [if_neg herror]
      dsimp only
      refine ((congrArg (· || decide (call.endRow ≤ row)) (decide_eq_false ?_)).trans
        (Bool.false_or _)).symm
      split
      · rintro ⟨⟩
      · split
        · rintro ⟨⟩
        · exact herror
  rw [execRow]
  cases (call.rows row).converted with
  | none => rfl
  | some text =>
    dsimp only
    split
    · exact hafter _ _
    · split
      · next h =>
        exact (congrArg (false || ·) (decide_eq_false (Nat.not_le.2 h.2.1))).symm
      · exact hafter _ _

/-- The return code of the row in front does not matter to what is sent. -/
theorem executeRows_retval (call : ExecuteCall) (execType : ExecType) (n row : Nat)
    (retval retval' : Retcode) (stmt : BatchStatement) :
    (executeRows call execType n row retval stmt).2 =
      (executeRows call execType n row retval' stmt).2 := by
  have hend : ∀ row, (executeEnd call execType row retval stmt).2 =
      (executeEnd call execType row retval' stmt).2 := by
    intro row
    rw [executeEnd, executeEnd]
    split <;> rfl
  induction n generalizing row with
  | zero => exact hend row
  | succ n ih =>
    rw [executeRows, executeRows]
    by_cases hignored : (call.rows row).ignored = true
    · rw [if_pos hignored, if_pos hignored]
      by_cases hlast : call.endRow ≤ row
      · rw [if_pos hlast, if_pos hlast]
        exact hend row
      · rw [if_neg hlast, if_neg hlast]
        exact ih (row + 1)
    · rw [if_neg hignored, if_neg hignored]

namespace DaeCall

@[simp] theorem asks_rowEvents (row : Nat) :
    asks (call.rowEvents row) = (call.daeParams row).length := by
  have hmap : asks ((call.daeParams row).map (.asked row)) = (call.daeParams row).length := by
    rw [asks, List.countP_map]
    exact List.countP_eq_length.2 fun _ _ ↦ rfl
  rw [rowEvents, asks_append, hmap]
  rfl

theorem rowEvents_of_nil (h : call.daeParams row = []) : call.rowEvents row = [.executed row] := by
  rw [rowEvents, h]
  rfl

theorem asks_flatMap_eq_zero_iff {rows : List Nat} :
    asks (rows.flatMap call.rowEvents) = 0 ↔ ∀ row ∈ rows, call.daeParams row = [] := by
  induction rows with
  | nil => exact iff_of_true rfl (List.forall_mem_nil _)
  | cons row rows ih =>
    rw [List.flatMap_cons, asks_append, asks_rowEvents, Nat.add_eq_zero_iff, ih,
      List.length_eq_zero_iff, List.forall_mem_cons]

theorem checkRow_dataAtExec (call : DaeCall) (row : Nat) (stmt : DaeStatement) :
    (call.checkRow row stmt).dataAtExec =
      if call.daeParams row = [] then -1 else ((call.daeParams row).length : Int) :=
  foldl_count _

theorem checkRow_dataAtExec_of_ne {stmt : DaeStatement} (h : call.daeParams row ≠ []) :
    (call.checkRow row stmt).dataAtExec = (call.daeParams row).length := by
  rw [checkRow_dataAtExec, if_neg h]

end DaeCall

end

/-! ## While data are needed -/

/-- The first parameter that is looked at. -/
def DaeStatement.firstParam (stmt : DaeStatement) : Nat :=
  if 0 ≤ stmt.currentExecParam then stmt.currentExecParam.toNat + 1 else 0

namespace DaeCall

variable (call : DaeCall)

/-- The rows that are attempted behind the current one. -/
def laterRows (row : Nat) (stmt : DaeStatement) : List Nat :=
  let executed := execRow call.toExecuteCall stmt.execType row stmt.toBatchStatement
  if executed.1 = .error then []
  else call.attempted stmt.execType (call.endRow - row) (row + 1) executed.2.1

/-- What is still to happen, where `params` have not been asked for. -/
def restEvents (row : Nat) (params : List Nat) (stmt : DaeStatement) : List DaeEvent :=
  params.map (.asked row) ++ .executed row :: (call.laterRows row stmt).flatMap call.rowEvents

/-- The statement behind the rows from the current one on, where all data are there. -/
def finalBatch (row : Nat) (stmt : DaeStatement) : BatchStatement :=
  let executed := execRow call.toExecuteCall stmt.execType row stmt.toBatchStatement
  if executed.2.2 then executed.2.1
  else (executeRows call.toExecuteCall stmt.execType (call.endRow - row) (row + 1) executed.1
    executed.2.1).2

end DaeCall

/-- Data are needed for the parameters `params` of a row. -/
structure Waiting (call : DaeCall) (row : Nat) (params : List Nat) (stmt : DaeStatement) : Prop where
  current : stmt.execCurrentRow = row
  inside : row ≤ call.endRow
  left : (List.range' (stmt.firstParam) (call.numP - stmt.firstParam)).filter
    stmt.atExec = params
  count : stmt.dataAtExec = params.length
  needs : call.daeParams row ≠ []

section

variable {call : DaeCall} {row i n : Nat} {params rows : List Nat} {stmt stmt' : DaeStatement}
  {retval : Retcode}

theorem asks_restEvents : asks (call.restEvents row params stmt) =
    params.length + asks ((call.laterRows row stmt).flatMap call.rowEvents) := by
  have hmap : asks (params.map (.asked row)) = params.length := by
    rw [asks, List.countP_map]
    exact List.countP_eq_length.2 fun _ _ ↦ rfl
  rw [DaeCall.restEvents, asks_append, hmap]
  rfl

/-- A statement that differs in nothing that matters to the rows. -/
theorem restEvents_congr (hbatch : stmt'.toBatchStatement = stmt.toBatchStatement)
    (htype : stmt'.execType = stmt.execType) :
    call.restEvents row params stmt' = call.restEvents row params stmt ∧
      call.laterRows row stmt' = call.laterRows row stmt ∧
      call.finalBatch row stmt' = call.finalBatch row stmt := by
  have hlater : call.laterRows row stmt' = call.laterRows row stmt := by
    rw [DaeCall.laterRows, hbatch, htype]
    rfl
  refine ⟨?_, hlater, ?_⟩
  · rw [DaeCall.restEvents, hlater]
    rfl
  · rw [DaeCall.finalBatch, hbatch, htype]
    rfl

/-- The next parameter is asked for. -/
theorem askNext_waiting (h : Waiting call row (i :: params) stmt) :
    (call.askNext stmt).1 = none ∧ Waiting call row params (call.askNext stmt).2 ∧
      (call.askNext stmt).2.events = stmt.events ++ [.asked row i] ∧
      (call.askNext stmt).2.toBatchStatement = stmt.toBatchStatement ∧
      (call.askNext stmt).2.execType = stmt.execType := by
  obtain ⟨hfind, hlt, hrest⟩ := filter_range'_cons h.left
  have hask : call.askNext stmt = (none, { stmt with
      dataAtExec := stmt.dataAtExec - 1
      currentExecParam := i
      putData := false
      events := stmt.events ++ [.asked stmt.execCurrentRow.toNat i] }) := by
    rw [DaeStatement.firstParam] at hfind
    rw [DaeCall.askNext, hfind]
  have hnext : (call.askNext stmt).2.firstParam = i + 1 := by
    rw [hask]
    exact if_pos (Int.natCast_nonneg i)
  rw [hask] at hnext ⊢
  have hrow : stmt.execCurrentRow.toNat = row := by
    rw [h.current]
    exact Int.toNat_natCast row
  refine ⟨rfl, ⟨h.current, h.inside, ?_, ?_, h.needs⟩, by rw [hrow], rfl, rfl⟩
  · rw [hnext, ← hrest]
    congr 2
    have hfirst : stmt.firstParam ≤ call.numP := by
      by_contra hlt'
      have hzero : call.numP - stmt.firstParam = 0 := by omega
      have hparams := h.left
      rw [hzero] at hparams
      cases hparams
    omega
  · have hcount := h.count
    rw [List.length_cons] at hcount
    push_cast at hcount
    dsimp only
    omega

/-- A row that has parameters to be asked for. -/
theorem checkRow_waiting (hrow : stmt.execCurrentRow = row) (hinside : row ≤ call.endRow)
    (hneeds : call.daeParams row ≠ []) :
    Waiting call row (call.daeParams row) (call.checkRow row stmt) where
  current := hrow
  inside := hinside
  left := by
    have hfirst : (call.checkRow row stmt).firstParam = 0 :=
      if_neg (show ¬(0 : Int) ≤ -1 by decide)
    rw [hfirst, Nat.sub_zero, ← List.range_eq_range']
    apply List.filter_congr
    intro i hi
    exact if_pos (List.mem_range.1 hi)
  count := by rw [DaeCall.checkRow_dataAtExec_of_ne hneeds]
  needs := hneeds

/-- What the loop of `PGAPI_Execute` leaves, where `rows` are to be attempted. -/
inductive RowsLeave (call : DaeCall) (rows : List Nat) (final : BatchStatement)
    (stmt : DaeStatement) : Option Retcode × DaeStatement → Prop
  | over {retval : Retcode} {last : DaeStatement}
      (hfree : ∀ row ∈ rows, call.daeParams row = [])
      (hevents : last.events = stmt.events ++ rows.flatMap call.rowEvents)
      (hfinal : last.toBatchStatement = final)
      (hnil : rows = [] → last.dataAtExec = stmt.dataAtExec ∧
        last.currentExecParam = stmt.currentExecParam)
      (hcons : rows ≠ [] → Outside last) : RowsLeave call rows final stmt (some retval, last)
  | waits {last : DaeStatement} {row : Nat} {before : List Nat}
      (hrows : rows = before ++ row :: call.laterRows row last)
      (hfree : ∀ row ∈ before, call.daeParams row = [])
      (hevents : last.events = stmt.events ++ before.flatMap call.rowEvents)
      (hwaiting : Waiting call row (call.daeParams row) last)
      (hfinal : call.finalBatch row last = final) : RowsLeave call rows final stmt (none, last)

section

variable {final : BatchStatement} {result : Option Retcode × DaeStatement}

theorem RowsLeave.congr (h : RowsLeave call rows final stmt' result)
    (hevents : stmt'.events = stmt.events) (hcount : stmt'.dataAtExec = stmt.dataAtExec)
    (hcurrent : stmt'.currentExecParam = stmt.currentExecParam) :
    RowsLeave call rows final stmt result := by
  cases h with
  | «over» hfree hevents' hfinal hnil hcons =>
    refine .over hfree (hevents ▸ hevents') hfinal (fun hrows ↦ ?_) hcons
    rw [← hcount, ← hcurrent]
    exact hnil hrows
  | waits hrows hfree hevents' hwaiting hfinal =>
    exact .waits hrows hfree (hevents ▸ hevents') hwaiting hfinal

/-- A row in front that has all its data. -/
theorem RowsLeave.cons (h : RowsLeave call rows final stmt' result)
    (hfree : call.daeParams row = []) (hevents : stmt'.events = stmt.events ++ [.executed row])
    (hout : Outside stmt') : RowsLeave call (row :: rows) final stmt result := by
  have hrow := DaeCall.rowEvents_of_nil hfree
  cases h with
  | «over» hfree' hevents' hfinal hnil hcons =>
    refine .over (List.forall_mem_cons.2 ⟨hfree, hfree'⟩) ?_ hfinal
      (fun h ↦ absurd h (List.cons_ne_nil _ _)) fun _ ↦ ?_
    · rw [hevents', hevents, List.flatMap_cons, hrow, List.append_assoc]
    · by_cases hrows : rows = []
      · obtain ⟨hcount, hcurrent⟩ := hnil hrows
        exact ⟨hcount ▸ hout.dataAtExec, hcurrent ▸ hout.currentExecParam⟩
      · exact hcons hrows
  | waits hrows hfree' hevents' hwaiting hfinal =>
    refine .waits (by rw [hrows, List.cons_append]) (List.forall_mem_cons.2 ⟨hfree, hfree'⟩) ?_
      hwaiting hfinal
    rw [hevents', hevents, List.flatMap_cons, hrow, List.append_assoc]

theorem endRows_leaves (hrow : stmt.execCurrentRow = row) :
    RowsLeave call [] (executeEnd call.toExecuteCall stmt.execType row retval
      stmt.toBatchStatement).2 stmt (call.endRows retval stmt) := by
  refine .over (List.forall_mem_nil _) (List.append_nil _).symm ?_ (fun _ ↦ ⟨rfl, rfl⟩)
    fun h ↦ absurd rfl h
  rw [hrow]
  rfl

/-- The rows that are left. -/
theorem nextParamRow_leaves (hrow : stmt.execCurrentRow = row) (hn : row + n = call.endRow + 1) :
    RowsLeave call (call.attempted stmt.execType n row stmt.toBatchStatement)
      (executeRows call.toExecuteCall stmt.execType n row retval stmt.toBatchStatement).2 stmt
      (call.nextParamRow n retval stmt) := by
  induction n generalizing row stmt retval with
  | zero => exact endRows_leaves hrow
  | succ n ih =>
    have hnat : stmt.execCurrentRow.toNat = row := by
      rw [hrow]
      exact Int.toNat_natCast row
    rw [DaeCall.nextParamRow, DaeCall.attempted, executeRows]
    dsimp only
    rw [hnat]
    by_cases hignored : (call.rows row).ignored = true
    · rw [if_pos hignored, if_pos hignored, if_pos hignored]
      by_cases hlast : call.endRow ≤ row
      · obtain rfl : n = 0 := by omega
        rw [if_pos hlast, if_pos hlast]
        exact endRows_leaves hrow
      · rw [if_neg hlast, if_neg hlast]
        have hnext := @ih (row + 1) { stmt with execCurrentRow := row + 1 } retval
          (by push_cast; rfl) (by omega)
        exact hnext.congr rfl rfl rfl
    · rw [if_neg hignored, if_neg hignored, if_neg hignored]
      have hcheck : (call.checkRow row stmt).toBatchStatement = stmt.toBatchStatement := rfl
      have htype : (call.checkRow row stmt).execType = stmt.execType := rfl
      have hcount := DaeCall.checkRow_dataAtExec call row stmt
      by_cases hneeds : call.daeParams row = []
      · rw [if_pos hneeds] at hcount
        have hnone : ¬0 < (call.checkRow row stmt).dataAtExec := by
          rw [hcount]
          decide
        rw [if_neg hnone, DaeCall.execWithParametersResolved, hcheck, htype]
        have hnat' : (call.checkRow row stmt).execCurrentRow.toNat = row := hnat
        rw [hnat']
        dsimp only
        generalize hexecuted : execRow call.toExecuteCall stmt.execType row
          stmt.toBatchStatement = executed
        have hended := execRow_ended call.toExecuteCall stmt.execType row stmt.toBatchStatement
        rw [hexecuted] at hended
        by_cases hend : executed.2.2 = true
        · rw [if_pos hend, if_pos hend, if_pos hend]
          have hrows : (if executed.1 = .error then []
              else call.attempted stmt.execType n (row + 1) executed.2.1) = [] := by
            by_cases herror : executed.1 = .error
            · exact if_pos herror
            · rw [hend, decide_eq_false herror, Bool.false_or, eq_comm, decide_eq_true_eq] at hended
              obtain rfl : n = 0 := by omega
              exact if_neg herror
          rw [hrows]
          refine .over (List.forall_mem_singleton.2 hneeds) ?_ rfl
            (fun h ↦ absurd h (List.cons_ne_nil _ _)) fun _ ↦ ⟨?_, show (-1 : Int) < 0 by decide⟩
          · rw [List.flatMap_singleton, DaeCall.rowEvents_of_nil hneeds]
            rfl
          · change (call.checkRow row stmt).dataAtExec < 0
            rw [hcount]
            decide
        · have herror : executed.1 ≠ .error := by
            intro herror
            rw [herror] at hended
            exact hend hended
          rw [if_neg hend, if_neg hend, if_neg hend, if_neg herror]
          have hnext := @ih (row + 1) { call.checkRow row stmt with
            toBatchStatement := executed.2.1
            currentExecParam := -1
            execCurrentRow := row + 1
            events := stmt.events ++ [.executed row] } executed.1 (by push_cast; rfl) (by omega)
          refine RowsLeave.cons hnext hneeds rfl ⟨?_, show (-1 : Int) < 0 by decide⟩
          change (call.checkRow row stmt).dataAtExec < 0
          rw [hcount]
          decide
      · have hpos : 0 < (call.checkRow row stmt).dataAtExec := by
          rw [hcount, if_neg hneeds]
          exact Int.natCast_pos.2 (List.length_pos_of_ne_nil hneeds)
        have hleft : call.endRow - row = n := by omega
        rw [if_pos hpos]
        refine @RowsLeave.waits _ _ _ _ _ row [] ?_ (List.forall_mem_nil _)
          (List.append_nil _).symm (checkRow_waiting hrow (by omega) hneeds) ?_
        · rw [DaeCall.laterRows, hcheck, htype, hleft]
          rfl
        · rw [DaeCall.finalBatch, hcheck, htype, hleft]
          split <;> rfl

end

/-- What `SQLParamData` leaves: it asks for the next parameter, or the rows are over. -/
inductive ParamDataLeaves (call : DaeCall) (row : Nat) (params : List Nat) (stmt : DaeStatement) :
    Option Retcode × DaeStatement → Prop
  | asks {last : DaeStatement} {row' : Nat} {params' : List Nat} (param : Nat) (before : List Nat)
      (lead : List DaeEvent) (hwaiting : Waiting call row' params' last) (hlead : asks lead = 0)
      (hrest : call.restEvents row params stmt =
        lead ++ .asked row' param :: call.restEvents row' params' last)
      (hevents : last.events = stmt.events ++ lead ++ [.asked row' param])
      (hrows : row :: call.laterRows row stmt = before ++ row' :: call.laterRows row' last)
      (hfinal : call.finalBatch row' last = call.finalBatch row stmt) :
      ParamDataLeaves call row params stmt (none, last)
  | over {retval : Retcode} {last : DaeStatement}
      (hasks : asks (call.restEvents row params stmt) = 0)
      (hevents : last.events = stmt.events ++ call.restEvents row params stmt)
      (hfinal : last.toBatchStatement = call.finalBatch row stmt)
      (hcurrent : last.currentExecParam < 0)
      (hcount : last.dataAtExec < 0 ↔ call.laterRows row stmt ≠ []) :
      ParamDataLeaves call row params stmt (some retval, last)

theorem Waiting.length_le (h : Waiting call row params stmt) : params.length ≤ call.numP := by
  rw [← h.left]
  refine (List.length_filter_le _ _).trans ?_
  rw [List.length_range']
  exact Nat.sub_le _ _

theorem paramData_waiting (h : Waiting call row params stmt) :
    ParamDataLeaves call row params stmt (call.pgapiParamData true stmt) := by
  have hlen := h.length_le
  have hcount := h.count
  have hnumP : call.numP ≤ call.allocated := Nat.min_le_right _ _
  have hnat : stmt.execCurrentRow.toNat = row := by
    rw [h.current]
    exact Int.toNat_natCast row
  rw [DaeCall.pgapiParamData, if_neg (show ¬stmt.dataAtExec < 0 by omega),
    if_neg (show ¬(call.allocated : Int) < stmt.dataAtExec by omega),
    if_neg (show ¬true = false from nofun)]
  cases params with
  | cons i params =>
    rw [List.length_cons] at hcount
    rw [if_neg (show ¬stmt.dataAtExec = 0 by omega)]
    obtain ⟨hnone, hwaiting, hevents, hbatch, htype⟩ := askNext_waiting h
    obtain ⟨hrest, hlater, hfinal⟩ := @restEvents_congr call row params stmt _ hbatch htype
    rw [← Prod.eta (call.askNext stmt), hnone]
    refine .asks i [] [] hwaiting rfl ?_ (by rw [hevents, List.append_nil]) ?_ hfinal
    · rw [hrest]
      rfl
    · rw [hlater]
      exact (List.nil_append _).symm
  | nil =>
    rw [if_pos (show stmt.dataAtExec = 0 from hcount), DaeCall.execWithParametersResolved, hnat]
    have hlater : call.laterRows row stmt = if (execRow call.toExecuteCall stmt.execType row
        stmt.toBatchStatement).1 = .error then [] else call.attempted stmt.execType
          (call.endRow - row) (row + 1) (execRow call.toExecuteCall stmt.execType row
            stmt.toBatchStatement).2.1 := rfl
    have hfinal : call.finalBatch row stmt = if (execRow call.toExecuteCall stmt.execType row
        stmt.toBatchStatement).2.2 then (execRow call.toExecuteCall stmt.execType row
          stmt.toBatchStatement).2.1 else (executeRows call.toExecuteCall stmt.execType
            (call.endRow - row) (row + 1) (execRow call.toExecuteCall stmt.execType row
              stmt.toBatchStatement).1 (execRow call.toExecuteCall stmt.execType row
                stmt.toBatchStatement).2.1).2 := rfl
    have hended := execRow_ended call.toExecuteCall stmt.execType row stmt.toBatchStatement
    generalize execRow call.toExecuteCall stmt.execType row stmt.toBatchStatement = executed
      at hlater hfinal hended ⊢
    have hrest : call.restEvents row [] stmt =
        .executed row :: (call.laterRows row stmt).flatMap call.rowEvents := rfl
    by_cases hend : executed.2.2 = true
    · have hnil : call.laterRows row stmt = [] := by
        rw [hlater]
        by_cases herror : executed.1 = .error
        · exact if_pos herror
        · rw [hend, decide_eq_false herror, Bool.false_or, eq_comm, decide_eq_true_eq] at hended
          rw [if_neg herror, Nat.sub_eq_zero_of_le hended]
          rfl
      rw [if_pos hend] at hfinal
      rw [if_pos hend]
      refine .over (by rw [hrest, hnil]; rfl) (by rw [hrest, hnil]; rfl) hfinal.symm
        (show (-1 : Int) < 0 by decide) (iff_of_false ?_ fun h ↦ h hnil)
      exact Int.not_lt.2 (le_of_eq hcount.symm)
    · have herror : executed.1 ≠ .error := by
        intro herror
        rw [herror] at hended
        exact hend hended
      rw [if_neg hend] at hfinal
      rw [if_neg herror] at hlater
      rw [if_neg hend, if_neg hend, DaeCall.pgapiExecute,
        if_pos (show (0 : Int) < (row : Int) + 1 by omega),
        show call.endRow + 1 - ((row : Int) + 1).toNat = call.endRow - row by omega]
      have hendRow : row < call.endRow := by
        have hlt := Bool.or_eq_false_iff.1 (hended.symm.trans (eq_false_of_ne_true hend))
        exact Nat.lt_of_not_le (of_decide_eq_false hlt.2)
      have hnext := @nextParamRow_leaves call (row + 1) (call.endRow - row) { stmt with
        toBatchStatement := executed.2.1
        currentExecParam := -1
        execCurrentRow := row + 1
        events := stmt.events ++ [.executed row] } .success (by push_cast; rfl) (by omega)
      dsimp only at hnext
      rw [← hlater, executeRows_retval _ _ _ _ .success executed.1, ← hfinal] at hnext
      generalize call.nextParamRow (call.endRow - row) .success _ = result at hnext ⊢
      cases hnext with
      | @«over» retval last hfree hevents hfinal hnil hcons =>
        rw [if_neg (show ¬some retval = none from nofun)]
        refine .over ?_ ?_ hfinal ?_ ?_
        · rw [hrest]
          exact DaeCall.asks_flatMap_eq_zero_iff.2 hfree
        · rw [hevents, hrest, List.append_assoc]
          rfl
        · by_cases hrows : call.laterRows row stmt = []
          · rw [(hnil hrows).2]
            exact show (-1 : Int) < 0 by decide
          · exact (hcons hrows).currentExecParam
        · by_cases hrows : call.laterRows row stmt = []
          · refine iff_of_false ?_ fun h ↦ h hrows
            rw [(hnil hrows).1]
            exact Int.not_lt.2 (le_of_eq hcount.symm)
          · exact iff_of_true (hcons hrows).dataAtExec hrows
      | @waits last row' before hrows hfree hevents hwaiting hfinal =>
        rw [if_pos rfl]
        have hneeds := hwaiting.needs
        cases hparams : call.daeParams row' with
        | nil => exact absurd hparams hneeds
        | cons i params =>
          rw [hparams] at hwaiting
          obtain ⟨hnone, hwaiting', hevents', hbatch, htype⟩ := askNext_waiting hwaiting
          obtain ⟨hrest', hlater', hfinal'⟩ := @restEvents_congr call row' params last _ hbatch htype
          rw [← Prod.eta (call.askNext last), hnone]
          refine .asks i (row :: before) (.executed row :: before.flatMap call.rowEvents) hwaiting'
            ?_ ?_ ?_ ?_ (hfinal'.trans hfinal)
          · exact DaeCall.asks_flatMap_eq_zero_iff.2 hfree
          · rw [hrest, hrows, List.flatMap_append, List.flatMap_cons, DaeCall.rowEvents, hparams,
              hrest', DaeCall.restEvents]
            simp only [List.map_cons, List.cons_append, List.append_assoc, List.nil_append]
          · rw [hevents', hevents]
            simp only [List.append_assoc, List.cons_append, List.nil_append]
          · rw [hrows, hlater', ← List.cons_append]

end

end PsqlOdbc
