import PsqlOdbc.Results.ResultList

/-!
# The results a query brings back

What a query brings back is a list of results without addresses, and what a statement keeps of it
is a function of that.  The links `CC_send_query_append` makes are a new list of just these results.
-/

namespace PsqlOdbc

open Lib

/-! ## What comes back -/

/-- The results while the answers come in: those behind which others were begun, and the one the
last answer went into. -/
def receive : List PgAnswer → SendFlags → List ResultData → ResultData →
    SendFlags × List ResultData × ResultData
  | [], flags, done, data => (flags, done, data)
  | answer :: answers, flags, done, data =>
    if flags.ended then (flags, done, data)
    else if answer.takesNew && flags.queryCompleted then
      receive answers (answer.flags flags) (done ++ [data]) (answer.set flags qrConstructor)
    else receive answers (answer.flags flags) done (answer.set flags data)

/-- The results from the first aborted one on, or the last one. -/
def errorsOnly : List ResultData → List ResultData
  | [] => []
  | [data] => [data]
  | data :: next :: rest => if data.aborted then data :: next :: rest else errorsOnly (next :: rest)

namespace Send

variable (send : Send)

/-- What the loop ends with. -/
def receipt : SendFlags × List ResultData × ResultData :=
  receive send.answers send.flags [] qrConstructor

/-- Everything is freed behind an answer that is not expected. -/
def lost : Bool := send.receipt.1.readyToReturn && send.receipt.1.retresNull

/-- The results a query brings back. -/
def received : List ResultData :=
  if send.lost then []
  else
    let results := send.receipt.2.1 ++ [send.receipt.2.2]
    if send.receipt.1.aborted then errorsOnly results else results

end Send

/-- The results of a query that may not have been sent. -/
def receivedOf (send : Option Send) : List ResultData := send.elim [] Send.received

/-- The last pointer of what a query brings back is that of the last result. -/
def lastRight (send : Option Send) : Bool := send.elim true fun send ↦ !send.lost

/-- The first of some results is not an error. -/
def headOk (results : List ResultData) : Bool := results.head?.any fun data ↦ !data.failed

/-! ## What is kept -/

namespace Execution

variable (execution : Execution)

/-- The results of a query with a text behind it, and whether its last pointer is right. -/
def appended : List ResultData × Bool :=
  if execution.ignoreRoundtripTime && headOk (receivedOf execution.send) then
    if headOk (receivedOf execution.appendSend) then
      (receivedOf execution.send ++ receivedOf execution.appendSend, false)
    else (receivedOf execution.appendSend, lastRight execution.appendSend)
  else (receivedOf execution.send, lastRight execution.send)

/-- The results that are looked at, and whether their last pointer is right. -/
def query : Option (List ResultData × Bool) :=
  if execution.useExtendedProtocol then execution.bound.map fun data ↦ ([data], true)
  else if execution.isSelectType && execution.useCursor then
    if headOk execution.appended.1 then
      let fetched := execution.appended.1.dropWhile fun data ↦ !isFetch data
      some (fetched, execution.appended.2 && !fetched.isEmpty)
    else some execution.appended
  else some (receivedOf execution.send, lastRight execution.send)

/-- The second of the results of a keyset driven cursor stands for the first two. -/
def swapped : List ResultData → List ResultData
  | first :: tres :: rest => { tres with fields := first.fields } :: rest
  | results => results

/-- The results of the cursors in columns: whether there is a cursor, whether it went wrong, and
what the fetches brought back. -/
structure Fetched where
  found : Bool
  failed : Bool
  lists : List (List ResultData)

/-- The columns one after the other. -/
def fetched (data : ResultData) : List ℕ → Fetched
  | [] => ⟨false, false, []⟩
  | i :: cols =>
    if data.fields[i]? = some pgTypeRefcursor then
      if !execution.inTrans i then ⟨false, true, []⟩
      else
        match data.firstRow[i]?.join, receivedOf (execution.fetches i) with
        | none, _ => { fetched data cols with found := true }
        | some _, [] => { fetched data cols with found := true }
        | some _, res :: more =>
          if res.failed then ⟨true, true, [res :: more]⟩
          else
            let rest := fetched data cols
            ⟨true, rest.failed, (res :: more) :: rest.lists⟩
    else fetched data cols

/-- The cursors in all the columns. -/
def fetchedAll (data : ResultData) : Fetched :=
  execution.fetched data (List.range data.fields.length)

/-- What a procedure returns instead of its own results. -/
def instead (data : ResultData) (results : List ResultData) : List ResultData :=
  if (execution.fetchedAll data).found then
    if (execution.fetchedAll data).lists = [] then [qrConstructor]
    else (execution.fetchedAll data).lists.flatten
  else results

/-- The cursors a procedure returns are fetched from. -/
def fetchesCursors (failed : Bool) : Bool :=
  execution.procCall && !failed && execution.fetchRefcursors

/-- What the end of `SC_execute` puts behind the results there are, and whether it fails. -/
def finished (results : List ResultData) (failed : Bool) : List ResultData × Bool :=
  if execution.procCall && !failed then
    if execution.fetchRefcursors then
      (results.head?.elim [] fun data ↦ execution.instead data results,
        execution.outParamsFail ||
          results.head?.any fun data ↦ (execution.fetchedAll data).failed)
    else (results, execution.outParamsFail)
  else (results, failed)

/-- The swap for keyset driven cursors is made. -/
def swaps (results : List ResultData) : Bool :=
  execution.keysetDriven && !execution.useCursor && decide (2 ≤ results.length)

/-- The results that reach the end of `SC_execute`, with whether it has failed already. -/
def reaching : Option (List ResultData × Bool) :=
  if execution.inUse then none
  else
    match execution.query with
    | none => none
    | some ([], _) => some ([], true)
    | some (first :: rest, _) =>
      let failed := execution.sendError || first.failed
      if first.aborted then some (first :: rest, failed)
      else if execution.outOfMemory then none
      else if execution.swaps (first :: rest) then some (swapped (first :: rest), failed)
      else some (first :: rest, failed)

theorem reaching_cons {execution : Execution} {first : ResultData} {rest : List ResultData}
    {right : Bool} (hinUse : execution.inUse = false)
    (hquery : execution.query = some (first :: rest, right)) :
    execution.reaching =
      if first.aborted then some (first :: rest, execution.sendError || first.failed)
      else if execution.outOfMemory then none
      else if execution.swaps (first :: rest) then
        some (swapped (first :: rest), execution.sendError || first.failed)
      else some (first :: rest, execution.sendError || first.failed) := by
  rw [reaching, hinUse, if_neg Bool.false_ne_true, hquery]

/-- What an execution puts behind the results there are, and whether it fails. -/
def outcome : List ResultData × Bool :=
  execution.reaching.elim ([], true) fun (results, failed) ↦ execution.finished results failed

/-! ## What the code takes for granted -/

/-- The cursors of a procedure: its result has a row, and where there is a cursor, the statement
has no results yet and one cursor at most is there to be fetched from. -/
def MeetsFetch (old results : List ResultData) (failed : Bool) : Prop :=
  execution.fetchesCursors failed = true → ∀ data ∈ results.head?,
    (∀ i, data.fields[i]? = some pgTypeRefcursor → i < data.firstRow.length) ∧
      (execution.fetchedAll data).lists.length ≤ 1 ∧
      ((execution.fetchedAll data).found = true → old = [])

/-- An execution of a statement with results: the query's last pointer is right, a statement that
has results gets some, and the two results of a keyset driven cursor are the first and the only
ones. -/
def Meets (old : List ResultData) : Prop :=
  execution.inUse = false → ∀ results right, execution.query = some (results, right) →
    right = true ∧ (results = [] → old = []) ∧
      (results.head?.any (fun data ↦ !data.aborted) = true → execution.outOfMemory = false →
        execution.swaps results = true → old = [] ∧ results.length = 2) ∧
      ∀ reached failed, execution.reaching = some (reached, failed) →
        execution.MeetsFetch old reached failed

/-- `Exec_with_parameters_resolved` takes the first result away if there are two. -/
def MeetsExec (old : List ResultData) : Prop :=
  execution.Meets old ∧ (execution.outcome.2 = false → execution.keysetDriven = true →
    (old ++ execution.outcome.1).length ≤ 1)

end Execution

/-! ## The links of a query -/

variable {base heap : Links ResultData} {p : Option ℕ} {cell : ℕ × ResultData}
  {cells : List (ℕ × ResultData)}

/-- The loop links what is received. -/
theorem sendLoop_eq (answers : List PgAnswer) (flags : SendFlags)
    (h : NewList base heap p (cells ++ [cell])) :
    ∃ heap' cells' cell', sendLoop answers flags cell.1 heap =
        some ((receive answers flags (cells.map Prod.snd) cell.2).1, cell'.1, heap') ∧
      NewList base heap' p (cells' ++ [cell']) ∧
      (cells'.map Prod.snd, cell'.2) = (receive answers flags (cells.map Prod.snd) cell.2).2 := by
  induction answers generalizing flags heap cells cell with
  | nil => exact ⟨heap, cells, cell, rfl, h, rfl⟩
  | cons answer answers ih =>
    rw [sendLoop, receive]
    by_cases hended : flags.ended = true
    · rw [if_pos hended, if_pos hended]
      exact ⟨heap, cells, cell, rfl, h, rfl⟩
    rw [if_neg hended, if_neg hended]
    by_cases hnew : (answer.takesNew && flags.queryCompleted) = true
    · obtain ⟨heap₁, hset, h₁⟩ := h.append_alloc qrConstructor
      obtain ⟨heap₂, hdata, h₂⟩ := h₁.setData (answer.set flags)
      obtain ⟨heap', cells', cell', hloop, h', hcells'⟩ := ih (answer.flags flags) h₂
      rw [List.map_append, List.map_singleton] at hloop hcells'
      rw [if_pos hnew, if_pos hnew]
      refine ⟨heap', cells', cell', ?_, h', hcells'⟩
      dsimp only
      rw [hset, Option.bind_some, hdata, Option.bind_some]
      exact hloop
    · obtain ⟨heap₁, hdata, h₁⟩ := h.setData (answer.set flags)
      obtain ⟨heap', cells', cell', hloop, h', hcells'⟩ := ih (answer.flags flags) h₁
      rw [if_neg hnew, if_neg hnew]
      refine ⟨heap', cells', cell', ?_, h', hcells'⟩
      rw [hdata, Option.bind_some]
      exact hloop

/-- The results in front of the first aborted one are freed. -/
theorem discardOthers_eq {n : ℕ} (h : NewList base heap p (cell :: cells))
    (hn : cells.length < n) :
    ∃ heap' p' cells', discardOthers n p heap = some (p', heap') ∧ NewList base heap' p' cells' ∧
      cells'.map Prod.snd = errorsOnly ((cell :: cells).map Prod.snd) ∧
      (cells'.map Prod.fst).getLast? = ((cell :: cells).map Prod.fst).getLast? := by
  induction cells generalizing p heap n cell with
  | nil =>
    obtain ⟨m, rfl⟩ := Nat.exists_eq_succ_of_ne_zero (Nat.ne_zero_of_lt hn)
    obtain ⟨rfl, next, hcell, hnext⟩ := id h.seg
    obtain rfl : next = none := hnext
    refine ⟨heap, some cell.1, [cell], ?_, h, rfl, rfl⟩
    rw [discardOthers, Option.bind_some, hcell]
    rfl
  | cons next cells ih =>
    obtain ⟨m, rfl⟩ := Nat.exists_eq_succ_of_ne_zero (Nat.ne_zero_of_lt hn)
    obtain ⟨rfl, q, hcell, hrest⟩ := id h.seg
    obtain rfl : q = some next.1 := hrest.1
    rw [discardOthers, Option.bind_some, hcell, Option.bind_some]
    dsimp only
    rw [List.map_cons, List.map_cons, errorsOnly]
    by_cases haborted : cell.2.aborted = true
    · rw [if_pos haborted, if_pos haborted]
      exact ⟨heap, some cell.1, cell :: next :: cells, rfl, h, rfl, rfl⟩
    · rw [if_neg haborted, if_neg haborted]
      obtain ⟨heap₁, heap₂, hset, hdestroy, h₂⟩ := h.dropFirst hcell
      obtain ⟨heap', p', cells', hloop, h', hdata, hlast⟩ :=
        ih h₂ (Nat.lt_of_succ_lt_succ hn)
      refine ⟨heap', p', cells', ?_, h', hdata, hlast.trans ?_⟩
      · rw [hset, Option.bind_some, hdestroy, Option.bind_some, hloop]
      · simp only [List.map_cons, List.getLast?_cons_cons]

/-- What a query brings back is a new list of the results. -/
theorem ccSendQuery_eq (send : Option Send) (heap : Links ResultData) :
    ∃ rhold heap' cells, ccSendQuery send heap = some (rhold, heap') ∧
      NewList heap heap' rhold.first cells ∧ cells.map Prod.snd = receivedOf send ∧
      (lastRight send = true → rhold.last = (cells.map Prod.fst).getLast?) := by
  cases send with
  | none => exact ⟨⟨none, none⟩, heap, [], rfl, .nil (.refl heap), rfl, fun _ ↦ rfl⟩
  | some send =>
    have hnew : NewList heap (heap.alloc ⟨qrConstructor, none⟩) (some heap.next)
        ([] ++ [(heap.next, qrConstructor)]) := .alloc (.refl heap) qrConstructor
    obtain ⟨heap₁, done, last, hloop, h₁, hcells⟩ : ∃ heap₁ done last,
        sendLoop send.answers send.flags heap.next (heap.alloc ⟨qrConstructor, none⟩) =
          some (send.receipt.1, last.1, heap₁) ∧
        NewList heap heap₁ (some heap.next) (done ++ [last]) ∧
        (done.map Prod.snd, last.2) = send.receipt.2 := sendLoop_eq send.answers send.flags hnew
    have hresults : (done ++ [last]).map Prod.snd = send.receipt.2.1 ++ [send.receipt.2.2] := by
      rw [List.map_append, List.map_singleton, ← hcells]
    have hlast : ((done ++ [last]).map Prod.fst).getLast? = some last.1 := by
      rw [List.map_append, List.map_singleton, List.getLast?_concat]
    rw [ccSendQuery]
    dsimp only
    rw [hloop, Option.bind_some]
    dsimp only
    rw [show (send.receipt.1.readyToReturn && send.receipt.1.retresNull) = send.lost from rfl,
      receivedOf, lastRight, Option.elim_some, Option.elim_some, Send.received]
    by_cases hlost : send.lost = true
    · obtain ⟨heap₂, hdestroy, hframe, -⟩ := h₁.destroy
      rw [if_pos hlost, if_pos hlost, hdestroy, Option.map_some]
      refine ⟨_, heap₂, [], rfl, .nil hframe, rfl, fun hright ↦ ?_⟩
      rw [hlost] at hright
      exact absurd hright (by decide)
    rw [if_neg hlost, if_neg hlost]
    dsimp only
    by_cases haborted : send.receipt.1.aborted = true
    · rw [if_pos haborted, if_pos haborted]
      obtain ⟨first, rest, hfirst⟩ : ∃ first rest, done ++ [last] = first :: rest := by
        cases done with
        | nil => exact ⟨last, [], rfl⟩
        | cons first rest => exact ⟨first, rest ++ [last], rfl⟩
      rw [hfirst] at h₁ hlast hresults
      have hlength := h₁.seg.length_le
      obtain ⟨heap', p', cells', hdiscard, h', hdata, hlast'⟩ :=
        discardOthers_eq h₁ (Nat.lt_of_succ_le hlength)
      rw [hdiscard, Option.map_some]
      refine ⟨_, heap', cells', rfl, h', ?_, fun _ ↦ ?_⟩
      · rw [hdata, hresults]
      · rw [hlast', hlast]
    · rw [if_neg haborted, if_neg haborted]
      exact ⟨_, heap₁, done ++ [last], rfl, h₁, hresults, fun _ ↦ hlast.symm⟩

theorem qrCommandMaybeSuccessful_eq (h : Seg heap p cells none) :
    qrCommandMaybeSuccessful heap p = some (headOk (cells.map Prod.snd)) := by
  cases cells with
  | nil =>
    obtain rfl : p = none := h
    rfl
  | cons cell cells =>
    obtain ⟨rfl, next, hcell, -⟩ := h
    rw [qrCommandMaybeSuccessful, hcell]
    rfl

namespace Execution

variable {execution : Execution}

/-- With the text behind it: the pointers are right unless both were sent by themselves. -/
theorem ccSendQueryAppend_eq (heap : Links ResultData) (hright : execution.appended.2 = true) :
    ∃ rhold heap' cells,
      ccSendQueryAppend execution.ignoreRoundtripTime execution.send execution.appendSend heap =
        some (rhold, heap') ∧
      NewList heap heap' rhold.first cells ∧ cells.map Prod.snd = execution.appended.1 ∧
      rhold.last = (cells.map Prod.fst).getLast? := by
  obtain ⟨rhold, heap₁, cells₁, hsend, h₁, hcells₁, hlast₁⟩ := ccSendQuery_eq execution.send heap
  rw [appended] at hright ⊢
  rw [ccSendQueryAppend, hsend, Option.bind_some]
  dsimp only
  cases hignore : execution.ignoreRoundtripTime with
  | false =>
    simp only [hignore, Bool.false_and, Bool.false_eq_true, if_false] at hright ⊢
    exact ⟨rhold, heap₁, cells₁, rfl, h₁, hcells₁, hlast₁ hright⟩
  | true =>
    rw [if_pos rfl, qrCommandMaybeSuccessful_eq h₁.seg, Option.bind_some, hcells₁]
    simp only [hignore, Bool.true_and] at hright ⊢
    cases hok : headOk (receivedOf execution.send) with
    | false =>
      simp only [hok, Bool.false_eq_true, if_false] at hright ⊢
      exact ⟨rhold, heap₁, cells₁, rfl, h₁, hcells₁, hlast₁ hright⟩
    | true =>
      simp only [hok, if_true] at hright ⊢
      obtain ⟨rholda, heap₂, cells₂, hsend₂, h₂, hcells₂, hlast₂⟩ :=
        ccSendQuery_eq execution.appendSend heap₁
      rw [hsend₂, Option.bind_some]
      dsimp only
      rw [qrCommandMaybeSuccessful_eq h₂.seg, Option.bind_some, hcells₂]
      cases hoka : headOk (receivedOf execution.appendSend) with
      | true =>
        rw [hoka, if_pos rfl] at hright
        exact absurd hright Bool.false_ne_true
      | false =>
        simp only [hoka, Bool.false_eq_true, if_false] at hright ⊢
        have hold := h₁.mono h₂.frame
        obtain ⟨heap₃, hdestroy, hframe, rfl⟩ := hold.destroy
        rw [hdestroy, Option.map_some]
        refine ⟨rholda, _, cells₂, rfl, ⟨h₂.seg.without fun addr haddr ↦ ?_, hframe, ?_⟩,
          hcells₂, hlast₂ hright⟩
        · exact h₂.notMem (h₁.seg.lt_next haddr)
        · exact fun cell hcell ↦ Nat.le_trans h₁.frame.next_le (h₂.le_addr cell hcell)

/-- What is in front of the result of `FETCH` is freed. -/
theorem dropDeclare_eq {n : ℕ} (h : NewList base heap p cells) (hn : cells.length ≤ n) :
    ∃ p' heap' cells', dropDeclare n p heap = some (p', heap') ∧ NewList base heap' p' cells' ∧
      cells'.map Prod.snd = (cells.map Prod.snd).dropWhile (fun data ↦ !isFetch data) ∧
      (cells' ≠ [] → (cells'.map Prod.fst).getLast? = (cells.map Prod.fst).getLast?) := by
  induction cells generalizing p heap n with
  | nil =>
    obtain rfl : p = none := h.seg
    cases n <;> exact ⟨none, heap, [], rfl, h, rfl, fun hne ↦ absurd rfl hne⟩
  | cons cell cells ih =>
    obtain ⟨m, rfl⟩ := Nat.exists_eq_succ_of_ne_zero (Nat.ne_zero_of_lt hn)
    obtain ⟨rfl, next, hcell, hrest⟩ := id h.seg
    rw [dropDeclare, hcell, Option.bind_some, List.map_cons, List.dropWhile_cons]
    dsimp only
    cases hfetch : isFetch cell.2 with
    | true =>
      refine ⟨some cell.1, heap, cell :: cells, ?_, h, ?_, fun _ ↦ rfl⟩
      · rw [if_pos rfl]
      · rw [List.map_cons, Bool.not_true, if_neg Bool.false_ne_true]
    | false =>
      obtain ⟨heap₁, heap₂, hset, hdestroy, h₂⟩ := h.dropFirst hcell
      obtain ⟨p', heap', cells', hloop, h', hdata, hlast⟩ := ih h₂ (Nat.le_of_succ_le_succ hn)
      refine ⟨p', heap', cells', ?_, h', ?_, fun hne ↦ ?_⟩
      · rw [if_neg Bool.false_ne_true, hset, Option.bind_some, hdestroy, Option.bind_some, hloop]
      · rw [Bool.not_false, if_pos rfl, hdata]
      · rw [hlast hne, List.map_cons]
        cases cells with
        | nil =>
          rw [List.map_nil, List.dropWhile_nil, List.map_eq_nil_iff] at hdata
          exact absurd hdata hne
        | cons other cells => rw [List.map_cons, List.getLast?_cons_cons]

/-- Where there is nothing to be looked at. -/
theorem sendQuery_none (heap : Links ResultData) (hquery : execution.query = none) :
    execution.sendQuery heap = some (none, heap) := by
  rw [query] at hquery
  rw [sendQuery]
  cases hext : execution.useExtendedProtocol with
  | true =>
    rw [hext, if_pos rfl, Option.map_eq_none_iff] at hquery
    rw [if_pos rfl, hquery]
  | false =>
    rw [hext, if_neg Bool.false_ne_true] at hquery
    split_ifs at hquery

/-- What is looked at is a new list of the results of the query. -/
theorem sendQuery_eq (heap : Links ResultData) {results : List ResultData}
    (hquery : execution.query = some (results, true)) :
    ∃ rhold heap' cells, execution.sendQuery heap = some (some rhold, heap') ∧
      NewList heap heap' rhold.first cells ∧ cells.map Prod.snd = results ∧
      rhold.last = (cells.map Prod.fst).getLast? := by
  rw [query] at hquery
  rw [sendQuery]
  cases hext : execution.useExtendedProtocol with
  | true =>
    rw [hext, if_pos rfl, Option.map_eq_some_iff] at hquery
    obtain ⟨data, hbound, hdata⟩ := hquery
    injection hdata with hresults
    rw [if_pos rfl, hbound]
    exact ⟨_, _, [(heap.next, data)], rfl, .alloc (.refl heap) data, hresults, rfl⟩
  | false =>
    rw [hext, if_neg Bool.false_ne_true] at hquery
    rw [if_neg Bool.false_ne_true]
    cases hcursor : execution.isSelectType && execution.useCursor with
    | false =>
      rw [hcursor, if_neg Bool.false_ne_true] at hquery
      injection Option.some.inj hquery with hresults hright
      obtain ⟨rhold, heap', cells, hsend, h, hcells, hlast⟩ := ccSendQuery_eq execution.send heap
      rw [if_neg Bool.false_ne_true, hsend, Option.map_some]
      exact ⟨rhold, heap', cells, rfl, h, hcells.trans hresults, hlast hright⟩
    | true =>
      rw [hcursor, if_pos rfl] at hquery
      have hright : execution.appended.2 = true := by
        cases hok : headOk execution.appended.1 with
        | true =>
          rw [hok, if_pos rfl] at hquery
          injection Option.some.inj hquery with hresults hright
          exact (Bool.and_eq_true_iff.1 hright).1
        | false =>
          rw [hok, if_neg Bool.false_ne_true] at hquery
          exact congrArg Prod.snd (Option.some.inj hquery)
      obtain ⟨rhold, heap₁, cells₁, hsend, h₁, hcells₁, hlast₁⟩ :=
        ccSendQueryAppend_eq heap hright
      rw [if_pos rfl, hsend, Option.bind_some]
      dsimp only
      rw [qrCommandMaybeSuccessful_eq h₁.seg, Option.bind_some, hcells₁]
      cases hok : headOk execution.appended.1 with
      | false =>
        rw [hok, if_neg Bool.false_ne_true] at hquery
        exact ⟨rhold, heap₁, cells₁, rfl, h₁,
          hcells₁.trans (congrArg Prod.fst (Option.some.inj hquery)), hlast₁⟩
      | true =>
        rw [hok, if_pos rfl] at hquery
        injection Option.some.inj hquery with hresults hright
        obtain ⟨first, heap', cells', hdrop, h', hcells', hlast'⟩ :=
          dropDeclare_eq h₁ h₁.seg.length_le
        rw [hcells₁, hresults] at hcells'
        have hne : cells' ≠ [] := by
          rintro rfl
          rw [hresults, ← hcells', Bool.and_eq_true_iff] at hright
          exact absurd hright.2 (by decide)
        dsimp only
        rw [hdrop, Option.map_some]
        exact ⟨_, heap', cells', rfl, h', hcells', hlast₁.trans (hlast' hne).symm⟩

end Execution

end PsqlOdbc
