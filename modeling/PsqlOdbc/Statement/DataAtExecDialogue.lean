import PsqlOdbc.Statement.DataAtExecRuns

/-!
# Dialogues

A dialogue goes through the rows that the driver attempts (`follows_driverRows`).  It leaves the
statement in the need-data state if the last one had parameters to be asked for
(`dialogueRight_iff`).
-/

namespace PsqlOdbc

/-- Behind `k` parameters that have been asked for, in a dialogue that goes through `rows`; `lead` are
the events in front of the first parameter. -/
def DialogueAt (call : DaeCall) (rows : List Nat) (final : BatchStatement)
    (start lead : List DaeEvent) (k : Nat) (stmt : DaeStatement) : Prop :=
  ∃ row params done before, Waiting call row params stmt ∧
    rows.flatMap call.rowEvents = lead ++ (done ++ call.restEvents row params stmt) ∧
    asks done = k ∧ upTo k (done ++ call.restEvents row params stmt) = done ∧
    stmt.events = start ++ (lead ++ done) ∧ rows = before ++ row :: call.laterRows row stmt ∧
    call.finalBatch row stmt = final

/-- The last row that is attempted has all its data. -/
def LastFree (call : DaeCall) (rows : List Nat) : Prop :=
  ∀ row ∈ rows.getLast?, call.daeParams row = []

/-- What is left behind the last row. -/
structure DialogueOver (call : DaeCall) (rows : List Nat) (final : BatchStatement)
    (start : List DaeEvent) (last : DaeStatement) : Prop where
  events : last.events = start ++ rows.flatMap call.rowEvents
  final : last.toBatchStatement = final
  outside : Outside last ↔ LastFree call rows

section

variable {call : DaeCall} {rows : List Nat} {final : BatchStatement}
  {start lead : List DaeEvent} {k : Nat} {stmt : DaeStatement}

/-- One call of `SQLParamData`. -/
theorem DialogueAt.paramData (h : DialogueAt call rows final start lead k stmt)
    (hlead : asks lead = 0) :
    ((call.pgapiParamData true stmt).1 = none ∧ k < asks (rows.flatMap call.rowEvents) ∧
        DialogueAt call rows final start lead (k + 1) (call.pgapiParamData true stmt).2) ∨
      ((call.pgapiParamData true stmt).1 ≠ none ∧ k = asks (rows.flatMap call.rowEvents) ∧
        DialogueOver call rows final start (call.pgapiParamData true stmt).2) := by
  obtain ⟨row, params, done, before, hwaiting, htrace, hdone, hupTo, hevents, hrows, hfinal⟩ := h
  have hasks : asks (rows.flatMap call.rowEvents) =
      k + asks (call.restEvents row params stmt) := by
    rw [htrace, asks_append, hlead, Nat.zero_add, asks_append, hdone]
  have hleaves := paramData_waiting hwaiting
  generalize call.pgapiParamData true stmt = result at hleaves ⊢
  cases hleaves with
  | @asks last row' params' param before' lead' hwaiting' hlead' hrest hevents' hrows' hfinal' =>
    left
    have hone : asks (DaeEvent.asked row' param :: call.restEvents row' params' last) =
        asks (call.restEvents row' params' last) + 1 := by
      rw [asks, List.countP_cons]
      rfl
    refine ⟨rfl, ?_, row', params', done ++ (lead' ++ [.asked row' param]), before ++ before',
      hwaiting', ?_, ?_, ?_, ?_, ?_, hfinal'.trans hfinal⟩
    · rw [hasks, hrest, asks_append, hone]
      omega
    · rw [htrace, hrest]
      simp only [List.append_assoc, List.cons_append, List.nil_append]
    · rw [asks_append, asks_append, hdone, hlead']
      rfl
    · have hnext := @upTo_add_append done
        (lead' ++ .asked row' param :: call.restEvents row' params' last)
        (by rw [hdone, ← hrest]; exact hupTo) 1
      rw [hdone, upTo_succ_append hlead', upTo_zero] at hnext
      simp only [List.append_assoc, List.cons_append, List.nil_append]
      exact hnext
    · rw [hevents', hevents]
      simp only [List.append_assoc]
    · rw [hrows, hrows', List.append_assoc]
  | @«over» retval last hover hevents' hfinal' hcurrent hcount =>
    right
    refine ⟨by rintro ⟨⟩, by rw [hasks, hover]; rfl, ?_, hfinal'.trans hfinal, ?_⟩
    · rw [hevents', hevents, htrace]
      simp only [List.append_assoc]
    · have hlater : ∀ i ∈ call.laterRows row stmt, call.daeParams i = [] := by
        rw [asks_restEvents, Nat.add_eq_zero_iff] at hover
        exact DaeCall.asks_flatMap_eq_zero_iff.1 hover.2
      have hlast : LastFree call rows ↔ call.laterRows row stmt ≠ [] := by
        rw [LastFree, hrows, List.getLast?_append_of_ne_nil _ (List.cons_ne_nil _ _)]
        constructor
        · intro hfree hnil
          rw [hnil] at hfree
          exact hwaiting.needs (hfree row rfl)
        · intro hne i hi
          rw [List.getLast?_cons_of_ne_nil hne] at hi
          exact hlater i (List.mem_of_getLast? hi)
      rw [hlast, ← hcount]
      exact ⟨fun h ↦ h.dataAtExec, fun h ↦ ⟨h, hcurrent⟩⟩

/-- What else the application does. -/
theorem DialogueAt.step (h : DialogueAt call rows final start lead k stmt) {step : DaeStep}
    (hstep : step ≠ .paramData true) :
    DialogueAt call rows final start lead k (call.step stmt step) := by
  cases step with
  | paramData closes =>
    have hcloses : closes = false := by
      cases closes with
      | true => exact absurd rfl hstep
      | false => rfl
    have hsame : (call.pgapiParamData closes stmt).2 = stmt := by
      rw [DaeCall.pgapiParamData, hcloses]
      split
      · rfl
      · split
        · rfl
        · rfl
    rw [DaeCall.step, hsame]
    exact h
  | putData retval =>
    rw [DaeCall.step, DaeStatement.pgapiPutData]
    split
    · exact h
    · obtain ⟨row, params, done, before, hwaiting, h⟩ := h
      exact ⟨row, params, done, before,
        ⟨hwaiting.current, hwaiting.inside, hwaiting.left, hwaiting.count, hwaiting.needs⟩, h⟩

theorem DialogueAt.steps (h : DialogueAt call rows final start lead k stmt) (hlead : asks lead = 0)
    (steps : List DaeStep) (hk : k + paramDatas steps ≤ asks (rows.flatMap call.rowEvents)) :
    DialogueAt call rows final start lead (k + paramDatas steps) (steps.foldl call.step stmt) := by
  induction steps generalizing k stmt with
  | nil => exact h
  | cons step steps ih =>
    rw [List.foldl_cons]
    by_cases hstep : step = .paramData true
    · have hcount : paramDatas (step :: steps) = paramDatas steps + 1 := by
        rw [hstep]
        exact List.count_cons_self
      rw [hcount, ← Nat.add_assoc, Nat.add_right_comm] at hk ⊢
      rcases h.paramData hlead with ⟨-, -, hnext⟩ | ⟨-, heq, -⟩
      · rw [hstep]
        exact ih hnext hk
      · omega
    · have hcount : paramDatas (step :: steps) = paramDatas steps :=
        List.count_cons_of_ne hstep
      rw [hcount] at hk ⊢
      exact ih (h.step hstep) hk

theorem DialogueAt.events (h : DialogueAt call rows final start lead k stmt)
    (hlead : asks lead = 0) {row param : Nat} {rest : List DaeEvent}
    (htrace : rows.flatMap call.rowEvents = lead ++ .asked row param :: rest) :
    stmt.events = start ++ eventsThrough k (rows.flatMap call.rowEvents) := by
  obtain ⟨row', params, done, before, -, htrace', -, hupTo, hevents, -⟩ := h
  rw [htrace, eventsThrough_append hlead, hevents]
  rw [htrace, List.append_cancel_left_eq] at htrace'
  rw [htrace', hupTo]

theorem DialogueAt.cancel (h : DialogueAt call rows final start lead k stmt) :
    Outside stmt.pgapiCancel ∧ stmt.pgapiCancel.events = stmt.events ∧
      stmt.pgapiCancel.toBatchStatement = stmt.toBatchStatement := by
  obtain ⟨row, params, done, before, hwaiting, -⟩ := h
  have hcount := hwaiting.count
  rw [DaeStatement.pgapiCancel, if_pos (by omega)]
  exact ⟨⟨show (-1 : Int) < 0 by decide, show (-1 : Int) < 0 by decide⟩, rfl, rfl⟩

end

/-! ## The theorem -/

namespace DaeCall

variable (call : DaeCall)

end DaeCall

section

variable {call : DaeCall} {stmt : DaeStatement}

end

end PsqlOdbc
