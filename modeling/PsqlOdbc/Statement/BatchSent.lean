import PsqlOdbc.Statement.BatchExecute

/-!
# What a parameter array sends

A call is meant to send the commands of its rows in their order, up to a row or a batch that fails,
and nothing of another call.  The loop keeps that what has been sent and what is deferred are the
commands of the rows behind it (`Pending`); where it leaves, nothing may be deferred (`Idle`), as
nothing but another call takes it out of the buffer.
-/

namespace PsqlOdbc

/-! ## The purpose -/

namespace ExecuteCall

variable (call : ExecuteCall)

/-- The commands of a row. -/
def rowCommands (row : Nat) : List RowCommand :=
  match (call.rows row).converted with
  | none => []
  | some text => if call.extended then [.bound row] else textCommands [text]

/-- The rows that are not ignored, of `n` from `row` on. -/
def wantedFrom (row n : Nat) : List Nat :=
  (List.range' row n).filter fun row ↦ !(call.rows row).ignored

/-- The rows that are not ignored. -/
def wanted : List Nat := call.wantedFrom 0 (max 1 call.paramsetSize)

end ExecuteCall

/-- Why a call does not get to the end of the rows in `todo`, `n` of which have been sent. -/
inductive StopsAt (call : ExecuteCall) (batchSize : Nat) (todo : List Nat) (n : Nat) : Prop
  /-- The next row cannot be converted. -/
  | converting {row : Nat} (h : todo[n]? = some row) (hnone : (call.rows row).converted = none)
  /-- The batch that ends with row `m` fails, after it has been sent or before. -/
  | executing {m row : Nat} (h : todo[m]? = some row)
      (herror : (call.rows row).outcome.retval = .error) (hle : n ≤ m + 1)
      (hlt : m < n + batchSize)
  /-- The last batch fails, in front of ignored rows. -/
  | last (herror : call.lastOutcome.retval = .error) (hlt : todo.length ≤ n + batchSize)

/-- The rows in `todo` have been sent, each once and in their order, up to one that failed. -/
def SendsRows (call : ExecuteCall) (batchSize : Nat) (todo : List Nat) (before : List RowCommand)
    (result : Retcode × BatchStatement) : Prop :=
  ∃ n ≤ todo.length, result.2.sent = before ++ (todo.take n).flatMap call.rowCommands ∧
    (n = todo.length ∨ result.1 = .error ∧ StopsAt call batchSize todo n)

/-- There are no commands in the buffer. -/
def Idle (stmt : BatchStatement) : Prop := textCommands (stmt.stmtDeferred.getD []) = []

/-- Wherever a row cannot be converted, nothing has been deferred. -/
def ConvertsDeferred (call : ExecuteCall) (execType : ExecType) : Nat → Nat → BatchStatement → Prop
  | 0, _, _ => True
  | n + 1, row, stmt =>
    if (call.rows row).ignored then ConvertsDeferred call execType n (row + 1) stmt
    else
      ((call.rows row).converted = none → Idle stmt) ∧
        ((execRow call execType row stmt).2.2 = false →
          ConvertsDeferred call execType n (row + 1) (execRow call execType row stmt).2.1)

/-- The commands of `pending` are deferred. -/
structure Pending (call : ExecuteCall) (execType : ExecType) (stmt : BatchStatement)
    (pending : List Nat) : Prop where
  deferred : textCommands (stmt.stmtDeferred.getD []) = pending.flatMap call.rowCommands
  count : pending.length ≤ stmt.countOfDeffered
  room : pending.length < stmt.batchSize
  deffered : pending ≠ [] → execType = .deffered ∧ call.extended = false

section

variable {call : ExecuteCall} {execType : ExecType} {stmt stmt' : BatchStatement}
  {pending todo : List Nat} {n row batchSize : Nat} {before : List RowCommand} {o : ExecOutcome}
  {retval : Retcode}

/-! ## The buffer -/

theorem textCommands_append (texts texts' : List (List UInt8)) :
    textCommands (texts ++ texts') = textCommands texts ++ textCommands texts' := by
  rw [textCommands, List.filter_append, List.map_append]
  rfl

/-- A buffer without data has no commands. -/
theorem textCommands_of_deferredData {texts : List (List UInt8)} (h : deferredData texts = []) :
    textCommands texts = [] := by
  cases texts with
  | nil => rfl
  | cons text texts =>
    cases texts with
    | nil =>
      have htext : text = [] := by
        rw [deferredData, List.intercalate_singleton] at h
        exact h
      rw [htext]
      rfl
    | cons text' texts =>
      rw [deferredData, List.intercalate_cons_cons] at h
      exact absurd (List.append_eq_nil_iff.1 (List.append_eq_nil_iff.1 h).1).2 (List.cons_ne_nil _ _)

@[simp] theorem scExecute_batchSize (stmt : BatchStatement) (commands : List RowCommand)
    (o : ExecOutcome) : (scExecute stmt commands o).batchSize = stmt.batchSize := by
  rw [scExecute]
  split <;> rfl

@[simp] theorem scExecute_stmtDeferred (stmt : BatchStatement) (commands : List RowCommand)
    (o : ExecOutcome) : (scExecute stmt commands o).stmtDeferred = stmt.stmtDeferred := by
  rw [scExecute]
  split <;> rfl

theorem scExecute_sent (stmt : BatchStatement) (commands : List RowCommand) (o : ExecOutcome) :
    (scExecute stmt commands o).sent = if o.sent then stmt.sent ++ commands else stmt.sent := by
  rw [scExecute]
  split <;> rfl

theorem flushDeferred_sent (stmt : BatchStatement) (o : ExecOutcome) :
    (flushDeferred stmt o).sent =
      if o.sent then
        stmt.sent ++ textCommands (stmt.stmtDeferred.getD [] ++ stmt.stmtWithParams.toList)
      else stmt.sent := by
  rw [flushDeferred]
  cases stmt.stmtDeferred with
  | none => exact scExecute_sent stmt _ o
  | some texts => exact scExecute_sent stmt _ o

theorem flushDeferred_idle (stmt : BatchStatement) (o : ExecOutcome) :
    Idle (flushDeferred stmt o) := by
  rw [flushDeferred]
  cases hdeferred : stmt.stmtDeferred with
  | none =>
    dsimp only
    rw [Idle, scExecute_stmtDeferred, hdeferred]
    rfl
  | some texts => rfl

theorem flushDeferred_batchSize (stmt : BatchStatement) (o : ExecOutcome) :
    (flushDeferred stmt o).batchSize = stmt.batchSize := by
  rw [flushDeferred]
  cases stmt.stmtDeferred with
  | none => exact scExecute_batchSize stmt _ o
  | some texts => exact scExecute_batchSize stmt _ o

/-! ## A row -/

/-- What a row does to the rows that are deferred. -/
inductive RowStep (call : ExecuteCall) (execType : ExecType) (stmt : BatchStatement)
    (pending : List Nat) (row : Nat) : Retcode × BatchStatement × Bool → Prop
  | failed {stmt' : BatchStatement} (hnone : (call.rows row).converted = none)
      (hsent : stmt'.sent = stmt.sent) (hdeferred : stmt'.stmtDeferred = stmt.stmtDeferred)
      (hbatch : stmt'.batchSize = stmt.batchSize) :
      RowStep call execType stmt pending row (.error, stmt', true)
  | deferred {stmt' : BatchStatement} (h : Pending call execType stmt' (pending ++ [row]))
      (hsent : stmt'.sent = stmt.sent) (hbatch : stmt'.batchSize = stmt.batchSize) :
      RowStep call execType stmt pending row (.success, stmt', false)
  | executed {stmt' : BatchStatement} (hidle : Idle stmt')
      (hsent : stmt'.sent = if (call.rows row).outcome.sent then
        stmt.sent ++ (pending ++ [row]).flatMap call.rowCommands else stmt.sent)
      (hbatch : stmt'.batchSize = stmt.batchSize) :
      RowStep call execType stmt pending row
        (afterExecute call.endRow row (call.rows row).outcome stmt')

theorem execRow_step (h : Pending call execType stmt pending) :
    RowStep call execType stmt pending row (execRow call execType row stmt) := by
  rw [execRow]
  cases hconverted : (call.rows row).converted with
  | none => exact .failed hconverted rfl rfl rfl
  | some text =>
    dsimp only
    have hcommands : call.rowCommands row =
        if call.extended then [.bound row] else textCommands [text] := by
      rw [ExecuteCall.rowCommands, hconverted]
    split
    · next hdirect =>
      have hnil : pending = [] := by
        by_contra hne
        obtain ⟨htype, hextended⟩ := h.deffered hne
        rw [hextended, htype] at hdirect
        exact absurd hdirect (by decide)
      have hidle := h.deferred
      rw [hnil] at hidle ⊢
      refine .executed ?_ ?_ ?_
      · rw [Idle, scExecute_stmtDeferred]
        exact hidle
      · rw [List.nil_append, List.flatMap_singleton, hcommands]
        exact scExecute_sent _ _ _
      · exact scExecute_batchSize _ _ _
    next hdirect =>
    obtain ⟨hextended, htype⟩ := not_or.1 hdirect
    rw [if_neg hextended] at hcommands
    split
    · next hroom =>
      refine .deferred ⟨?_, ?_, ?_, ?_⟩ rfl rfl
      · rw [List.flatMap_append, List.flatMap_singleton, ← h.deferred, hcommands, Option.getD_some]
        have hgetD : textCommands (stmt.stmtDeferred.getD [[]]) =
            textCommands (stmt.stmtDeferred.getD []) := by
          cases stmt.stmtDeferred <;> rfl
        split
        · next hdata =>
          rw [← hgetD, textCommands_of_deferredData hdata]
          rfl
        · rw [textCommands_append, hgetD]
      · rw [List.length_append]
        exact Nat.succ_le_succ h.count
      · rw [List.length_append]
        exact Nat.lt_of_le_of_lt (Nat.succ_le_succ h.count) hroom.2.2
      · exact fun _ ↦ ⟨hroom.1, Bool.not_eq_true _ |>.mp hextended⟩
    · refine .executed (flushDeferred_idle _ _) ?_ (flushDeferred_batchSize _ _)
      rw [flushDeferred_sent, List.flatMap_append, List.flatMap_singleton, ← h.deferred, hcommands,
        ← textCommands_append]
      simp only [Option.toList_some]

/-! ## All rows -/

theorem ExecuteCall.wantedFrom_succ (call : ExecuteCall) (row n : Nat) :
    call.wantedFrom row (n + 1) =
      if (call.rows row).ignored then call.wantedFrom (row + 1) n
      else row :: call.wantedFrom (row + 1) n := by
  rw [wantedFrom, List.range'_succ, List.filter_cons]
  cases (call.rows row).ignored <;> rfl

theorem StopsAt.shift {first rest : List Nat} (h : StopsAt call batchSize rest n) :
    StopsAt call batchSize (first ++ rest) (first.length + n) := by
  have hget : ∀ m, (first ++ rest)[first.length + m]? = rest[m]? := by
    intro m
    rw [List.getElem?_append_right (Nat.le_add_right _ _), Nat.add_sub_cancel_left]
  cases h with
  | converting h hnone => exact .converting ((hget _).trans h) hnone
  | executing h herror hle hlt =>
    exact .executing ((hget _).trans h) herror (by omega) (by omega)
  | last herror hlt =>
    refine .last herror ?_
    rw [List.length_append]
    omega

/-- Rows that have been sent are put in front. -/
theorem SendsRows.shift {first rest : List Nat} {result : Retcode × BatchStatement}
    (h : SendsRows call batchSize rest (before ++ first.flatMap call.rowCommands) result) :
    SendsRows call batchSize (first ++ rest) before result := by
  obtain ⟨n, hle, hsent, hstop⟩ := h
  refine ⟨first.length + n, ?_, ?_, ?_⟩
  · rw [List.length_append]
    exact Nat.add_le_add_left hle _
  · rw [hsent, List.take_length_add_append, List.flatMap_append, List.append_assoc]
  · rw [List.length_append]
    exact hstop.imp (congrArg _) (And.imp_right .shift)

/-- What is left in the buffer is sent behind the rows. -/
theorem executeEnd_sends (h : Pending call execType stmt pending) :
    SendsRows call stmt.batchSize pending stmt.sent (executeEnd call execType row retval stmt) ∧
      Idle (executeEnd call execType row retval stmt).2 ∧
      (executeEnd call execType row retval stmt).2.batchSize = stmt.batchSize := by
  have hall : ∀ {result : Retcode × BatchStatement},
      result.2.sent = stmt.sent ++ pending.flatMap call.rowCommands →
      SendsRows call stmt.batchSize pending stmt.sent result := by
    intro result hsent
    refine ⟨pending.length, le_rfl, ?_, .inl rfl⟩
    rw [List.take_length]
    exact hsent
  have hblank : Idle stmt → stmt.sent = stmt.sent ++ pending.flatMap call.rowCommands := by
    intro hidle
    rw [← h.deferred, show textCommands (stmt.stmtDeferred.getD []) = [] from hidle, List.append_nil]
  rw [executeEnd]
  split
  · rw [execLast]
    dsimp only
    split
    · next hdata =>
      have hidle : Idle stmt := by
        rw [Idle]
        cases hdeferred : stmt.stmtDeferred with
        | none => rfl
        | some texts =>
          rw [hdeferred, Option.all_some, decide_eq_true_eq] at hdata
          exact textCommands_of_deferredData hdata
      exact ⟨hall (hblank hidle), hidle, rfl⟩
    · have hsent := flushDeferred_sent { stmt with stmtWithParams := none } call.lastOutcome
      have hidle := flushDeferred_idle { stmt with stmtWithParams := none } call.lastOutcome
      have hbatch := flushDeferred_batchSize { stmt with stmtWithParams := none } call.lastOutcome
      rw [Option.toList_none, List.append_nil, h.deferred] at hsent
      rw [afterExecute]
      split
      · next herror =>
        refine ⟨?_, hidle, hbatch⟩
        cases hgot : call.lastOutcome.sent with
        | true =>
          rw [hgot, if_pos rfl] at hsent
          exact hall hsent
        | false =>
          rw [hgot, if_neg Bool.false_ne_true] at hsent
          refine ⟨0, Nat.zero_le _, ?_, .inr ⟨rfl, .last herror ?_⟩⟩
          · rw [List.take_zero, List.flatMap_nil, List.append_nil]
            exact hsent
          · rw [Nat.zero_add]
            exact h.room.le
      · next hok =>
        rw [call.lastOutcome.sent_of_ne hok, if_pos rfl] at hsent
        exact ⟨hall hsent, hidle, hbatch⟩
  · next htype =>
    have hnil : pending = [] := by
      by_contra hne
      exact htype (h.deffered hne).1
    have hidle : Idle stmt := by
      rw [Idle, h.deferred, hnil]
      rfl
    exact ⟨hall (hblank hidle), hidle, rfl⟩

/-- The loop sends the rows that are deferred and those that are left. -/
theorem executeRows_sends (hend : row + n = call.endRow + 1)
    (h : Pending call execType stmt pending) (hok : ConvertsDeferred call execType n row stmt) :
    SendsRows call stmt.batchSize (pending ++ call.wantedFrom row n) stmt.sent
        (executeRows call execType n row retval stmt) ∧
      Idle (executeRows call execType n row retval stmt).2 ∧
      (executeRows call execType n row retval stmt).2.batchSize = stmt.batchSize := by
  induction n generalizing row stmt pending retval with
  | zero =>
    rw [executeRows, show call.wantedFrom row 0 = [] from rfl, List.append_nil]
    exact executeEnd_sends h
  | succ n ih =>
    rw [executeRows, call.wantedFrom_succ]
    rw [ConvertsDeferred] at hok
    split
    · next hignored =>
      rw [if_pos hignored] at hok
      split
      · next hlast =>
        obtain rfl : n = 0 := by omega
        rw [show call.wantedFrom (row + 1) 0 = [] from rfl, List.append_nil]
        exact executeEnd_sends h
      · exact ih (by omega) h hok
    · next hignored =>
      rw [if_neg hignored] at hok
      obtain ⟨hconverts, hok⟩ := hok
      have hlist : pending ++ row :: call.wantedFrom (row + 1) n =
          (pending ++ [row]) ++ call.wantedFrom (row + 1) n := (List.append_cons _ _ _)
      have hget : (pending ++ row :: call.wantedFrom (row + 1) n)[pending.length]? = some row := by
        rw [List.getElem?_append_right le_rfl, Nat.sub_self]
        rfl
      have hlen : pending.length < (pending ++ row :: call.wantedFrom (row + 1) n).length := by
        rw [List.length_append, List.length_cons]
        omega
      have hstep := @execRow_step call execType stmt pending row h
      generalize execRow call execType row stmt = executed at hok hstep ⊢
      cases hstep with
      | failed hnone hsent hdeferred hbatch =>
        have hidle := hconverts hnone
        rw [if_pos rfl]
        refine ⟨⟨pending.length, hlen.le, ?_, .inr ⟨rfl, .converting hget hnone⟩⟩, ?_, hbatch⟩
        · rw [List.take_left, ← h.deferred, show textCommands _ = [] from hidle, List.append_nil]
          exact hsent
        · rw [Idle, hdeferred]
          exact hidle
      | @deferred stmt' hpending hsent hbatch =>
        rw [if_neg Bool.false_ne_true, hlist, ← hsent, ← hbatch]
        exact ih (by omega) hpending (hok rfl)
      | @executed stmt' hidle hsent hbatch =>
        have hempty : Pending call execType stmt' [] :=
          ⟨hidle, Nat.zero_le _, hbatch ▸ Nat.lt_of_le_of_lt (Nat.zero_le _) h.room,
            fun hne ↦ absurd rfl hne⟩
        rw [afterExecute] at hok ⊢
        by_cases herror : (call.rows row).outcome.retval = .error
        · rw [if_pos herror, if_pos rfl]
          refine ⟨?_, hidle, hbatch⟩
          cases hgot : (call.rows row).outcome.sent with
          | true =>
            rw [hgot, if_pos rfl] at hsent
            refine ⟨pending.length + 1, hlen, ?_, .inr ⟨rfl, .executing hget herror le_rfl ?_⟩⟩
            · have htake := @List.take_left _ (pending ++ [row]) (call.wantedFrom (row + 1) n)
              rw [List.length_append, List.length_singleton] at htake
              rw [hlist, htake]
              exact hsent
            · have := h.room
              omega
          | false =>
            rw [hgot, if_neg Bool.false_ne_true] at hsent
            refine ⟨0, Nat.zero_le _, ?_, .inr ⟨rfl, .executing hget herror (Nat.zero_le _) ?_⟩⟩
            · rw [List.take_zero, List.flatMap_nil, List.append_nil]
              exact hsent
            · rw [Nat.zero_add]
              exact h.room
        · rw [if_neg herror] at hok ⊢
          rw [(call.rows row).outcome.sent_of_ne herror, if_pos rfl] at hsent
          dsimp only at hok ⊢
          split
          · next hlast =>
            obtain rfl : n = 0 := by
              have := of_decide_eq_true hlast
              omega
            refine ⟨⟨_, le_rfl, ?_, .inl rfl⟩, hidle, hbatch⟩
            rw [List.take_length, hlist, show call.wantedFrom (row + 1) 0 = [] from rfl,
              List.append_nil]
            exact hsent
          · next hmore =>
            obtain ⟨hsends, hidle', hbatch'⟩ :=
              ih (by omega) hempty (hok (Bool.not_eq_true _ |>.mp hmore))
            rw [List.nil_append, hsent, hbatch] at hsends
            rw [hlist]
            exact ⟨hsends.shift, hidle', hbatch'.trans hbatch⟩

end

/-! ## A call and a run -/

/-- A call sends the commands of its rows, as far as none fails. -/
structure SendsCall (call : ExecuteCall) (stmt : BatchStatement)
    (result : Retcode × BatchStatement) : Prop where
  rejected : call.rejected = true → result.1 = .error ∧ result.2.sent = stmt.sent
  sends : call.rejected = false →
    SendsRows call stmt.batchSize call.wanted stmt.sent result
  /-- All of them if it reports a success. -/
  success : result.1 = .success →
    result.2.sent = stmt.sent ++ call.wanted.flatMap call.rowCommands

/-- The statement as the rows of a call find it. -/
def ExecuteCall.start (call : ExecuteCall) (stmt : BatchStatement) : BatchStatement :=
  if call.recycled then scInitializeStmts stmt else stmt

/-- The array is not too long, and no row fails behind rows that are deferred. -/
def CallOk (call : ExecuteCall) (stmt : BatchStatement) : Prop :=
  call.paramsetSize < 2 ^ 31 ∧
    ConvertsDeferred call (call.execType (call.start stmt)) (call.endRow + 1) 0 (call.start stmt)

/-- The states of a statement between calls. -/
inductive BatchReaches : BatchStatement → Prop
  | constructor (batchSize : Int) : BatchReaches (scConstructor batchSize)
  | initialize_ {stmt : BatchStatement} (h : BatchReaches stmt) :
      BatchReaches (scInitializeStmts stmt)
  | execute {stmt : BatchStatement} (call : ExecuteCall) (h : BatchReaches stmt)
      (hok : CallOk call stmt) : BatchReaches (pgapiExecute call stmt).2

section

variable {call : ExecuteCall} {stmt : BatchStatement}

theorem endRow_succ (h : call.paramsetSize < 2 ^ 31) :
    call.endRow + 1 = max 1 call.paramsetSize := by
  have hwrap : wrapInt 32 call.paramsetSize = call.paramsetSize :=
    Int.bmod_eq_of_le (by omega) (by omega)
  rw [ExecuteCall.endRow, hwrap]
  omega

theorem start_eq (call : ExecuteCall) (stmt : BatchStatement) :
    (call.start stmt).sent = stmt.sent ∧ (call.start stmt).batchSize = stmt.batchSize ∧
      (call.start stmt).stmtDeferred = stmt.stmtDeferred := by
  rw [ExecuteCall.start]
  split <;> exact ⟨rfl, rfl, rfl⟩

/-- One call, made where nothing is deferred. -/
theorem pgapiExecute_sends_of_idle (hidle : Idle stmt) (hbatch : 0 < stmt.batchSize)
    (hok : CallOk call stmt) :
    SendsCall call stmt (pgapiExecute call stmt) ∧ Idle (pgapiExecute call stmt).2 ∧
      (pgapiExecute call stmt).2.batchSize = stmt.batchSize := by
  obtain ⟨hsent, hsize, hdeferred⟩ := start_eq call stmt
  have hstart : pgapiExecute call stmt = if call.rejected then (.error, call.start stmt)
      else executeRows call (call.execType (call.start stmt)) (call.endRow + 1) 0 .success
        (call.start stmt) := rfl
  rw [hstart]
  cases hrejected : call.rejected with
  | true =>
    refine ⟨⟨fun _ ↦ ⟨rfl, hsent⟩, fun h ↦ ?_, fun h ↦ ?_⟩, ?_, hsize⟩
    · rw [hrejected] at h
      cases h
    · cases h
    · rw [Idle, if_pos rfl, hdeferred]
      exact hidle
  | false =>
    rw [if_neg Bool.false_ne_true]
    have hpending : Pending call (call.execType (call.start stmt)) (call.start stmt) [] := by
      refine ⟨?_, Nat.zero_le _, hsize ▸ hbatch, fun hne ↦ absurd rfl hne⟩
      rw [hdeferred]
      exact hidle
    obtain ⟨hsends, hidle', hbatch'⟩ := @executeRows_sends call _ _ [] (call.endRow + 1) 0 .success
      (Nat.zero_add _) hpending hok.2
    rw [List.nil_append, hsent, hsize, endRow_succ hok.1] at hsends
    rw [endRow_succ hok.1] at hidle' hbatch' ⊢
    refine ⟨⟨fun h ↦ ?_, fun _ ↦ hsends, fun hsuccess ↦ ?_⟩, hidle', hbatch'.trans hsize⟩
    · rw [hrejected] at h
      cases h
    · obtain ⟨n, hle, hcommands, hstop⟩ := hsends
      rcases hstop with rfl | ⟨herror, -⟩
      · rw [hcommands]
        exact congrArg (stmt.sent ++ List.flatMap _ ·) List.take_length
      · rw [hsuccess] at herror
        cases herror

theorem BatchReaches.idle (h : BatchReaches stmt) : Idle stmt ∧ 0 < stmt.batchSize := by
  induction h with
  | constructor batchSize =>
    refine ⟨rfl, ?_⟩
    rw [scConstructor]
    dsimp only
    split <;> omega
  | initialize_ h ih => exact ih
  | execute call h hok ih =>
    obtain ⟨-, hidle, hbatch⟩ := pgapiExecute_sends_of_idle ih.1 ih.2 hok
    exact ⟨hidle, hbatch ▸ ih.2⟩

end

/-- The server executes what it is sent. -/
def executed : ExecOutcome := ⟨true, .success, fun _ ↦ rfl, false, false⟩

/-- A row. -/
def insertRow (value : String) : BatchRow := ⟨false, some (ascii value), executed⟩

/-- An array for a statement that the driver prepares. -/
def batchCall (rows : List BatchRow) : ExecuteCall where
  recycled := true
  rejected := false
  paramsetSize := rows.length
  rows := fun row ↦ rows.getD row (insertRow "INSERT")
  extended := false
  forwardReadOnly := true
  prepareByTheDriver := true
  lastOutcome := executed

end PsqlOdbc
