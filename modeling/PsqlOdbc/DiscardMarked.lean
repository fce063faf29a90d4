import Mathlib.Data.List.Basic
import Mathlib.Data.List.Nodup

/-!
# Discarding marked objects (`connection.c`)

Prepared statements and cursors that could not be closed at once are marked, and
`CC_discard_marked_objects` closes them when a transaction ends or is rolled back to a savepoint.  The
commands that it sends go through the functions that look after the transaction, and these may call it
again.  The recursion is bounded by `fuel`.
-/

namespace PsqlOdbc

/-! ## The connection -/

/-- `PQtransactionStatus` between two commands. -/
inductive TxStatus
  | idle
  | inTrans
  | inError
  | unknown
  deriving DecidableEq, Repr

/-- What becomes of a command: `lost` when the connection breaks under it, `unsent` when it cannot be
sent at all. -/
inductive CommandOutcome
  | success
  | error
  | lost
  | unsent
  deriving DecidableEq, Repr

/-- The server: whether it has savepoints, and what becomes of the commands it is given. -/
structure DiscardServer where
  savepoints : Bool
  outcome : ℕ → CommandOutcome

/-- What of a `ConnectionClass` is about marked objects and transactions.  `discardp` has the texts
that the pointers point to, none when it has been freed; `asked` counts the commands, and `sent` are
the places of the list whose commands have been sent, with the commands. -/
structure DiscardConn where
  discardp : List (Option (List UInt8))
  numDiscardp : Int
  inTrans : Bool
  inErrorTrans : Bool
  pqconn : Bool
  onCommitInProgress : Bool
  status : TxStatus
  asked : ℕ
  sent : List (ℕ × List UInt8)
  deriving DecidableEq, Repr

namespace DiscardConn

variable (server : DiscardServer)

/-- What becomes of the next command.  Nothing is sent when the connection is broken, and a
transaction that is aborted takes no command but one that rolls it back. -/
def reply (conn : DiscardConn) (isRollback : Bool) : CommandOutcome :=
  if conn.status = .unknown then .unsent
  else match server.outcome conn.asked with
    | .success => if conn.status = .inError ∧ isRollback = false then .error else .success
    | .error => .error
    | .lost => .lost
    | .unsent => .unsent

/-- `CC_set_no_trans`. -/
def ccSetNoTrans (conn : DiscardConn) : DiscardConn :=
  { conn with inTrans := false, inErrorTrans := false }

/-- `CC_on_abort` with `CONN_DEAD`. -/
def onAbortDead (conn : DiscardConn) : DiscardConn :=
  { conn.ccSetNoTrans with pqconn := false, status := .unknown }

/-! ## Hooks

The functions that `CC_discard_marked_objects` calls, with what they call it by. -/

section Hooks

variable (discard : DiscardConn → Option DiscardConn)

/-- `CC_on_abort` with `NO_TRANS`. -/
def ccOnAbort (conn : DiscardConn) : Option DiscardConn :=
  if conn.inTrans then discard conn.ccSetNoTrans else some conn

/-- `CC_on_abort_partial`. -/
def ccOnAbortPartial (conn : DiscardConn) : Option DiscardConn := discard conn

/-- `CC_on_commit`. -/
def ccOnCommit (conn : DiscardConn) : Option DiscardConn :=
  if conn.onCommitInProgress then some conn
  else
    let conn := { conn with onCommitInProgress := true }
    (discard (if conn.inTrans then conn.ccSetNoTrans else conn)).map fun conn ↦
      { conn with onCommitInProgress := false }

/-- `LIBPQ_update_transaction_status`.  While results of a command are left the status is
`PQTRANS_ACTIVE` and it does nothing, so that the calls of it for an error are left out. -/
def libpqUpdateTransactionStatus (conn : DiscardConn) : Option DiscardConn :=
  if conn.pqconn then
    match conn.status with
    | .idle =>
      if conn.inTrans then
        if conn.inErrorTrans then conn.ccOnAbort discard else conn.ccOnCommit discard
      else some conn
    | .inTrans =>
      if conn.inErrorTrans then
        ccOnAbortPartial discard { conn with inTrans := true, inErrorTrans := false }
      else some { conn with inTrans := true }
    | .inError => some { conn with inTrans := true, inErrorTrans := true }
    | .unknown => some conn
  else some conn

/-- `CC_internal_rollback` with `PER_QUERY_ROLLBACK`, and with `ignore_abort`. -/
def ccInternalRollback (conn : DiscardConn) : Option DiscardConn :=
  if conn.inErrorTrans then
    let asked := { conn with asked := conn.asked + 1 }
    libpqUpdateTransactionStatus discard
      (match conn.reply server true with
      | .success => { asked with status := .inTrans }
      | .error => { asked with inErrorTrans := false }
      | .lost => { asked.onAbortDead with inErrorTrans := false }
      | .unsent => { asked with status := .unknown, inErrorTrans := false })
  else some conn

/-- The `ROLLBACK` that is sent to a server without savepoints. -/
def sendRollback (conn : DiscardConn) : DiscardConn :=
  if conn.inErrorTrans then
    let asked := { conn with asked := conn.asked + 1 }
    match conn.reply server true with
    | .success => { asked with status := .idle }
    | .error => asked
    | .lost | .unsent => { asked with status := .unknown }
  else conn

/-- What follows the results of a command in `CC_send_query_append`: the rollback, if the command was
sent in a transaction, and the update. -/
def afterResults (rollbackOnError queryRollback : Bool) (conn : DiscardConn) :
    Option DiscardConn :=
  (if rollbackOnError && conn.inTrans then
    if queryRollback then conn.ccInternalRollback server discard
    else some (conn.sendRollback server)
  else some conn).bind (libpqUpdateTransactionStatus discard)

/-- `CC_send_query_append` for the command of a place of the list, with `ROLLBACK_ON_ERROR` and
`IGNORE_ABORT_ON_CONN`. -/
def ccSendQuery (place : ℕ) (cmd : List UInt8) (conn : DiscardConn) : Option DiscardConn :=
  if conn.pqconn then
    let rollbackOnError := conn.inTrans && !conn.inErrorTrans
    let queryRollback := rollbackOnError && server.savepoints
    let asked := { conn with asked := conn.asked + 1, sent := conn.sent ++ [(place, cmd)] }
    match conn.reply server false with
    | .success => asked.afterResults server discard rollbackOnError queryRollback
    -- The savepoint stands, so that there is something to roll back to.
    | .error =>
      afterResults server discard rollbackOnError queryRollback
        { asked with
          inErrorTrans := asked.inErrorTrans || asked.inTrans
          status := if asked.status = .inTrans then .inError else asked.status }
    | .lost => asked.onAbortDead.afterResults server discard rollbackOnError queryRollback
    | .unsent =>
      -- The result of the savepoint is still waited for: no rollback.
      libpqUpdateTransactionStatus discard
        { conn with asked := conn.asked + 1, status := .unknown }
  else some conn

/-- The command for a marked object, in a buffer of 64 bytes. -/
def discardCommand (pname : List UInt8) : List UInt8 :=
  let quoted := pname.tail ++ [0x22]
  (if pname.head? = some 0x73 then
    [0x44, 0x45, 0x41, 0x4c, 0x4c, 0x4f, 0x43, 0x41, 0x54, 0x45, 0x20, 0x22] ++ quoted
  else [0x43, 0x4c, 0x4f, 0x53, 0x45, 0x20, 0x22] ++ quoted).take 63

/-- `free(conn->discardp[i])`; no result if it has been freed before. -/
def freeDiscardp (i : ℕ) (conn : DiscardConn) : Option DiscardConn :=
  (conn.discardp[i]?.bind id).map fun _ ↦ { conn with discardp := conn.discardp.set i none }

/-- The loop of `CC_discard_marked_objects`, from the place `i - 1` down; no result if it reads a
text that has been freed. -/
def discardLoop : ℕ → DiscardConn → Option DiscardConn
  | 0, conn => some conn
  | i + 1, conn =>
    (conn.discardp[i]?.bind id).bind fun pname ↦
      (conn.ccSendQuery server discard i (discardCommand pname)).bind fun conn ↦
        (conn.freeDiscardp i).bind fun conn ↦
          discardLoop i { conn with numDiscardp := conn.numDiscardp - 1 }

end Hooks

/-- `CC_discard_marked_objects`. -/
def ccDiscardMarkedObjects : ℕ → DiscardConn → Option DiscardConn
  | 0, _ => none
  | fuel + 1, conn =>
    if conn.numDiscardp ≤ 0 then some conn
    else conn.discardLoop server (ccDiscardMarkedObjects fuel) conn.numDiscardp.toNat

/-! ## What is meant -/

/-- Every marked object is discarded once: the function ends, it has sent no more than one command
for each, every text has been freed, once as a text that is freed again gives no result, and the list
is empty. -/
def DiscardsOnce (conn : DiscardConn) : Prop :=
  ∃ fuel conn', conn.ccDiscardMarkedObjects server fuel = some conn' ∧
    (conn'.sent.map Prod.fst).Nodup ∧ (∀ text ∈ conn'.discardp, text = none) ∧
    conn'.numDiscardp = 0

/-- The connection knows what the server says of its transaction. -/
def Knows (conn : DiscardConn) : Prop :=
  conn.pqconn = true → match conn.status with
    | .idle => conn.inTrans = false ∧ conn.inErrorTrans = false
    | .inTrans => conn.inTrans = true ∧ conn.inErrorTrans = false
    | .inError => conn.inTrans = true ∧ conn.inErrorTrans = true
    | .unknown => True

/-- A list of marked objects, of which none has been discarded yet, on a connection that knows of its
transaction. -/
structure Marked (conn : DiscardConn) : Prop where
  num : conn.numDiscardp = conn.discardp.length
  there : ∀ text ∈ conn.discardp, text.isSome
  sent : conn.sent = []
  knows : conn.Knows

/-- In an open transaction, the first of the next `n` commands that does not succeed is not one that
fails and is rolled back. -/
def NoneRolledBack (conn : DiscardConn) (n : ℕ) : Prop :=
  conn.pqconn = true → conn.status = .inTrans →
    ∀ k < n, (∀ j < k, server.outcome (conn.asked + j) = .success) →
      server.outcome (conn.asked + k) = .error → server.outcome (conn.asked + k + 1) ≠ .success

/-! ## What has been freed -/

section Freed

variable {server} {discard : DiscardConn → Option DiscardConn}

/-- What has been freed is not there again. -/
def KeepsFreed (f : DiscardConn → Option DiscardConn) : Prop :=
  ∀ conn conn', f conn = some conn' → ∀ i : ℕ, conn.discardp[i]? = some none →
    conn'.discardp[i]? = some none

theorem KeepsFreed.bind {f g : DiscardConn → Option DiscardConn} (hf : KeepsFreed f)
    (hg : KeepsFreed g) : KeepsFreed fun conn ↦ (f conn).bind g := by
  intro conn conn' h i hi
  obtain ⟨mid, hmid, h⟩ := Option.bind_eq_some_iff.1 h
  exact hg mid conn' h i (hf conn mid hmid i hi)

/-- The update leaves the list, or calls the function on a connection with the same list. -/
theorem keepsFreed_update (hdiscard : KeepsFreed discard) :
    KeepsFreed (libpqUpdateTransactionStatus discard) := by
  intro conn conn' h i hi
  rw [libpqUpdateTransactionStatus] at h
  split at h
  · split at h
    · split at h
      · next hin =>
        split at h
        · rw [ccOnAbort, if_pos hin] at h
          exact hdiscard _ _ h i hi
        · rw [ccOnCommit] at h
          split at h
          · cases h
            exact hi
          · obtain ⟨mid, hmid, rfl⟩ := Option.map_eq_some_iff.1 h
            refine hdiscard _ mid hmid i ?_
            split
            · exact hi
            · exact hi
      · cases h
        exact hi
    · split at h
      · exact hdiscard _ _ h i hi
      · cases h
        exact hi
    · cases h
      exact hi
    · cases h
      exact hi
  · cases h
    exact hi

theorem keepsFreed_internalRollback (hdiscard : KeepsFreed discard) :
    KeepsFreed (ccInternalRollback server discard) := by
  intro conn conn' h i hi
  rw [ccInternalRollback] at h
  split at h
  · refine keepsFreed_update hdiscard _ _ h i ?_
    split
    all_goals exact hi
  · cases h
    exact hi

theorem keepsFreed_afterResults (hdiscard : KeepsFreed discard)
    (rollbackOnError queryRollback : Bool) :
    KeepsFreed (afterResults server discard rollbackOnError queryRollback) := by
  refine KeepsFreed.bind (f := fun conn ↦ if rollbackOnError && conn.inTrans then
    if queryRollback then conn.ccInternalRollback server discard
    else some (conn.sendRollback server) else some conn) ?_ (keepsFreed_update hdiscard)
  intro conn conn' h i hi
  dsimp only at h
  split at h
  · split at h
    · exact keepsFreed_internalRollback hdiscard _ _ h i hi
    · cases h
      rw [sendRollback]
      split
      · split
        all_goals exact hi
      · exact hi
  · cases h
    exact hi

theorem keepsFreed_sendQuery (hdiscard : KeepsFreed discard) (place : ℕ) (cmd : List UInt8) :
    KeepsFreed (ccSendQuery server discard place cmd) := by
  intro conn conn' h i hi
  rw [ccSendQuery] at h
  split at h
  · dsimp only at h
    split at h
    · exact keepsFreed_afterResults hdiscard _ _ _ _ h i hi
    · exact keepsFreed_afterResults hdiscard _ _ _ _ h i hi
    · exact keepsFreed_afterResults hdiscard _ _ _ _ h i hi
    · exact keepsFreed_update hdiscard _ _ h i hi
  · cases h
    exact hi

theorem freeDiscardp_some {i : ℕ} {conn conn' : DiscardConn} (h : conn.freeDiscardp i = some conn') :
    conn' = { conn with discardp := conn.discardp.set i none } ∧ i < conn.discardp.length := by
  obtain ⟨pname, hpname, rfl⟩ := Option.map_eq_some_iff.1 h
  obtain ⟨text, htext, -⟩ := Option.bind_eq_some_iff.1 hpname
  exact ⟨rfl, (List.getElem?_eq_some_iff.1 htext).1⟩

/-- The loop frees the texts of its places, and what was freed stays so. -/
theorem discardLoop_freed (hdiscard : KeepsFreed discard) (n : ℕ) {conn conn' : DiscardConn}
    (h : conn.discardLoop server discard n = some conn') :
    (∀ i : ℕ, conn.discardp[i]? = some none → conn'.discardp[i]? = some none) ∧
      ∀ i < n, conn'.discardp[i]? = some none := by
  induction n generalizing conn with
  | zero =>
    cases h
    exact ⟨fun _ hi ↦ hi, fun i hi ↦ absurd hi (Nat.not_lt_zero i)⟩
  | succ n ih =>
    obtain ⟨pname, -, h⟩ := Option.bind_eq_some_iff.1 h
    obtain ⟨sent, hsent, h⟩ := Option.bind_eq_some_iff.1 h
    obtain ⟨freed, hfreed, h⟩ := Option.bind_eq_some_iff.1 h
    obtain ⟨rfl, hlt⟩ := freeDiscardp_some hfreed
    obtain ⟨hkeeps, hrest⟩ := ih h
    have hn : conn'.discardp[n]? = some none := hkeeps n (List.getElem?_set_self hlt)
    refine ⟨fun i hi ↦ ?_, fun i hi ↦ ?_⟩
    · have hkept := keepsFreed_sendQuery hdiscard _ _ _ _ hsent i hi
      rcases eq_or_ne i n with rfl | hne
      · exact hn
      · refine hkeeps i ?_
        dsimp only
        rw [List.getElem?_set_ne (Ne.symm hne)]
        exact hkept
    · rcases Nat.lt_succ_iff_lt_or_eq.1 hi with hlt | rfl
      · exact hrest i hlt
      · exact hn

theorem keepsFreed_discard (fuel : ℕ) : KeepsFreed (ccDiscardMarkedObjects server fuel) := by
  induction fuel with
  | zero =>
    intro conn conn' h
    cases h
  | succ fuel ih =>
    intro conn conn' h
    rw [ccDiscardMarkedObjects] at h
    split at h
    · cases h
      exact fun _ hi ↦ hi
    · exact (discardLoop_freed ih _ h).1

/-- If the function ends, all texts of the list have been freed. -/
theorem discard_freed {fuel : ℕ} {conn conn' : DiscardConn}
    (h : conn.ccDiscardMarkedObjects server fuel = some conn') {i : ℕ}
    (hi : (i : Int) < conn.numDiscardp) : conn'.discardp[i]? = some none := by
  cases fuel with
  | zero => cases h
  | succ fuel =>
    rw [ccDiscardMarkedObjects, if_neg (by omega)] at h
    exact (discardLoop_freed (keepsFreed_discard fuel) _ h).2 i (by omega)

end Freed

/-! ## A command -/

section Command

variable {server} {discard : DiscardConn → Option DiscardConn} {conn : DiscardConn}

/-- A command that succeeds in an open transaction leaves it open. -/
theorem sendQuery_success {place : ℕ} {cmd : List UInt8} (hpqconn : conn.pqconn = true)
    (hstatus : conn.status = .inTrans) (hknows : conn.Knows)
    (hreply : server.outcome conn.asked = .success) :
    conn.ccSendQuery server discard place cmd =
      some { conn with asked := conn.asked + 1, sent := conn.sent ++ [(place, cmd)] } := by
  obtain ⟨discardp, num, inTrans, inErrorTrans, pqconn, progress, status, asked, sent⟩ := conn
  dsimp only at hpqconn hstatus hreply
  subst hpqconn hstatus
  obtain ⟨rfl, rfl⟩ : inTrans = true ∧ inErrorTrans = false := hknows rfl
  cases hsavepoints : server.savepoints <;>
    simp [ccSendQuery, reply, hreply, afterResults, ccInternalRollback, sendRollback,
      libpqUpdateTransactionStatus, hsavepoints]

/-- One that fails and is rolled back calls the function again, with the object still in the list. -/
theorem sendQuery_rolledBack {place : ℕ} {cmd : List UInt8} (hpqconn : conn.pqconn = true)
    (hstatus : conn.status = .inTrans) (hknows : conn.Knows)
    (herror : server.outcome conn.asked = .error)
    (hrollback : server.outcome (conn.asked + 1) = .success) :
    ∃ again, again.discardp = conn.discardp ∧ again.numDiscardp = conn.numDiscardp ∧
      (conn.ccSendQuery server discard place cmd =
          (discard again).bind (libpqUpdateTransactionStatus discard) ∨
        conn.ccSendQuery server discard place cmd = discard again) := by
  obtain ⟨discardp, num, inTrans, inErrorTrans, pqconn, progress, status, asked, sent⟩ := conn
  dsimp only at hpqconn hstatus herror hrollback
  subst hpqconn hstatus
  obtain ⟨rfl, rfl⟩ : inTrans = true ∧ inErrorTrans = false := hknows rfl
  cases hsavepoints : server.savepoints with
  | true =>
    refine ⟨⟨discardp, num, true, false, true, progress, .inTrans, asked + 1 + 1,
      sent ++ [(place, cmd)]⟩, rfl, rfl, .inl ?_⟩
    simp [ccSendQuery, reply, herror, hrollback, afterResults, ccInternalRollback,
      libpqUpdateTransactionStatus, ccOnAbortPartial, hsavepoints]
  | false =>
    refine ⟨⟨discardp, num, false, false, true, progress, .idle, asked + 1 + 1,
      sent ++ [(place, cmd)]⟩, rfl, rfl, .inr ?_⟩
    simp [ccSendQuery, reply, herror, hrollback, afterResults, sendRollback,
      libpqUpdateTransactionStatus, ccOnAbort, ccSetNoTrans, hsavepoints]

/-- Then the object is gone when it is to be freed. -/
theorem freed_of_rolledBack (hdiscard : KeepsFreed discard) {place : ℕ}
    (hfrees : ∀ again conn', discard again = some conn' → (place : Int) < again.numDiscardp →
      conn'.discardp[place]? = some none)
    {cmd : List UInt8} (hpqconn : conn.pqconn = true) (hstatus : conn.status = .inTrans)
    (hknows : conn.Knows) (herror : server.outcome conn.asked = .error)
    (hrollback : server.outcome (conn.asked + 1) = .success)
    (hplace : (place : Int) < conn.numDiscardp) {conn' : DiscardConn}
    (h : conn.ccSendQuery server discard place cmd = some conn') :
    conn'.discardp[place]? = some none := by
  obtain ⟨again, -, hnum, hsend⟩ :=
    @sendQuery_rolledBack server discard conn place cmd hpqconn hstatus hknows herror hrollback
  rw [← hnum] at hplace
  rcases hsend with hsend | hsend
  · rw [hsend] at h
    obtain ⟨mid, hmid, h⟩ := Option.bind_eq_some_iff.1 h
    exact keepsFreed_update hdiscard _ _ h place (hfrees again mid hmid hplace)
  · rw [hsend] at h
    exact hfrees again conn' h hplace

/-- The other commands do not, and the connection goes on knowing of its transaction. -/
theorem sendQuery_calm {place n : ℕ} {cmd : List UInt8} (hknows : conn.Knows)
    (hnone : conn.NoneRolledBack server (n + 1)) :
    ∃ conn', conn.ccSendQuery server discard place cmd = some conn' ∧
      conn'.discardp = conn.discardp ∧ conn'.numDiscardp = conn.numDiscardp ∧
      (conn'.sent = conn.sent ∨ conn'.sent = conn.sent ++ [(place, cmd)]) ∧ conn'.Knows ∧
      conn'.NoneRolledBack server n := by
  obtain ⟨discardp, num, inTrans, inErrorTrans, pqconn, progress, status, asked, sent⟩ := conn
  cases pqconn with
  | false => exact ⟨_, rfl, rfl, rfl, .inl rfl, nofun, nofun⟩
  | true =>
    cases status with
    | idle =>
      obtain ⟨rfl, rfl⟩ : inTrans = false ∧ inErrorTrans = false := hknows rfl
      cases houtcome : server.outcome asked <;>
        simp [ccSendQuery, reply, houtcome, afterResults, libpqUpdateTransactionStatus,
          onAbortDead, ccSetNoTrans, Knows, NoneRolledBack]
    | inError =>
      obtain ⟨rfl, rfl⟩ : inTrans = true ∧ inErrorTrans = true := hknows rfl
      cases houtcome : server.outcome asked <;>
        simp [ccSendQuery, reply, houtcome, afterResults, libpqUpdateTransactionStatus,
          onAbortDead, ccSetNoTrans, Knows, NoneRolledBack]
    | unknown =>
      simp [ccSendQuery, reply, libpqUpdateTransactionStatus, Knows, NoneRolledBack]
    | inTrans =>
      obtain ⟨rfl, rfl⟩ : inTrans = true ∧ inErrorTrans = false := hknows rfl
      cases houtcome : server.outcome asked with
      | success =>
        refine ⟨_, sendQuery_success rfl rfl hknows houtcome, rfl, rfl, .inr rfl, hknows, ?_⟩
        intro _ _ k hk hbefore herror
        have hnext : ∀ j, asked + 1 + j = asked + (j + 1) := by omega
        dsimp only at hbefore herror ⊢
        rw [hnext] at herror ⊢
        refine hnone rfl rfl (k + 1) (by omega) (fun j hj ↦ ?_) herror
        cases j with
        | zero => exact houtcome
        | succ j =>
          rw [← hnext]
          exact hbefore j (by omega)
      | error =>
        have hrollback : server.outcome (asked + 1) ≠ .success :=
          hnone rfl rfl 0 (Nat.succ_pos n) (fun j hj ↦ absurd hj (Nat.not_lt_zero j)) houtcome
        cases hsavepoints : server.savepoints <;> cases hnext : server.outcome (asked + 1) <;>
          first
          | exact absurd hnext hrollback
          | simp [ccSendQuery, reply, houtcome, hnext, hsavepoints, afterResults,
              ccInternalRollback, sendRollback, libpqUpdateTransactionStatus, onAbortDead,
              ccSetNoTrans, Knows, NoneRolledBack]
      | lost =>
        simp [ccSendQuery, reply, houtcome, afterResults, libpqUpdateTransactionStatus,
          onAbortDead, ccSetNoTrans, Knows, NoneRolledBack]
      | unsent =>
        simp [ccSendQuery, reply, houtcome, libpqUpdateTransactionStatus, Knows, NoneRolledBack]

end Command

/-! ## The list -/

section List

variable {server} {conn : DiscardConn}

/-- If a command fails and is rolled back, the function has no result: it goes on for ever or frees a
text again. -/
theorem discardLoop_rolledBack {discard : DiscardConn → Option DiscardConn}
    (hdiscard : KeepsFreed discard)
    (hfrees : ∀ again conn' (i : ℕ), discard again = some conn' → (i : Int) < again.numDiscardp →
      conn'.discardp[i]? = some none)
    {n k : ℕ} (hk : k < n) (hnum : conn.numDiscardp = n) (hpqconn : conn.pqconn = true)
    (hstatus : conn.status = .inTrans) (hknows : conn.Knows)
    (hbefore : ∀ j < k, server.outcome (conn.asked + j) = .success)
    (herror : server.outcome (conn.asked + k) = .error)
    (hrollback : server.outcome (conn.asked + k + 1) = .success) :
    conn.discardLoop server discard n = none := by
  induction k generalizing n conn with
  | zero =>
    obtain ⟨i, rfl⟩ := Nat.exists_eq_add_of_lt hk
    rw [Nat.zero_add] at hnum ⊢
    rw [Option.eq_none_iff_forall_ne_some]
    intro conn' h
    obtain ⟨pname, -, h⟩ := Option.bind_eq_some_iff.1 h
    obtain ⟨sent, hsent, h⟩ := Option.bind_eq_some_iff.1 h
    obtain ⟨freed, hfreed, -⟩ := Option.bind_eq_some_iff.1 h
    have hgone := freed_of_rolledBack hdiscard (fun again conn' ↦ hfrees again conn' i) hpqconn
      hstatus hknows herror hrollback (by omega) hsent
    rw [freeDiscardp, hgone] at hfreed
    cases hfreed
  | succ k ih =>
    obtain ⟨i, rfl⟩ := Nat.exists_eq_add_of_lt (Nat.zero_lt_of_lt hk)
    rw [Nat.zero_add] at hk hnum ⊢
    rw [Option.eq_none_iff_forall_ne_some]
    intro conn' h
    obtain ⟨pname, -, h⟩ := Option.bind_eq_some_iff.1 h
    rw [sendQuery_success hpqconn hstatus hknows (hbefore 0 (Nat.succ_pos k)),
      Option.bind_some] at h
    obtain ⟨freed, hfreed, h⟩ := Option.bind_eq_some_iff.1 h
    obtain ⟨rfl, -⟩ := freeDiscardp_some hfreed
    have hnext : ∀ j, conn.asked + 1 + j = conn.asked + (j + 1) := by omega
    refine Option.some_ne_none _
      (h.symm.trans (ih (by omega) ?_ hpqconn hstatus hknows ?_ ?_ ?_))
    · dsimp only
      omega
    · intro j hj
      dsimp only
      rw [hnext]
      exact hbefore (j + 1) (by omega)
    · dsimp only
      rw [hnext]
      exact herror
    · dsimp only
      rw [hnext]
      exact hrollback

/-- Otherwise the objects are discarded one after the other. -/
theorem discardLoop_calm {discard : DiscardConn → Option DiscardConn} {n : ℕ}
    (hnum : conn.numDiscardp = n) (hknows : conn.Knows) (hnone : conn.NoneRolledBack server n)
    (hthere : ∀ i < n, ∃ pname, conn.discardp[i]? = some (some pname))
    (hfreed : ∀ text ∈ conn.discardp.drop n, text = none)
    (hsent : (conn.sent.map Prod.fst).Nodup) (hplaces : ∀ place ∈ conn.sent.map Prod.fst, n ≤ place) :
    ∃ conn', conn.discardLoop server discard n = some conn' ∧
      (conn'.sent.map Prod.fst).Nodup ∧ (∀ text ∈ conn'.discardp, text = none) ∧
      conn'.numDiscardp = 0 := by
  induction n generalizing conn with
  | zero => exact ⟨conn, rfl, hsent, by simpa using hfreed, hnum⟩
  | succ n ih =>
    obtain ⟨pname, hpname⟩ := hthere n (Nat.lt_succ_self n)
    have hlt : n < conn.discardp.length := (List.getElem?_eq_some_iff.1 hpname).1
    obtain ⟨after, hsend, hdiscardp, hnum', hsent', hknows', hnone'⟩ :=
      @sendQuery_calm server discard conn n n (discardCommand pname) hknows hnone
    have hfree : after.freeDiscardp n =
        some { after with discardp := after.discardp.set n none } := by
      rw [freeDiscardp, hdiscardp, hpname]
      rfl
    have hthere' : ∀ i < n, ∃ pname, (after.discardp.set n none)[i]? = some (some pname) := by
      intro i hi
      rw [List.getElem?_set_ne (by omega), hdiscardp]
      exact hthere i (by omega)
    have hfreed' : ∀ text ∈ (after.discardp.set n none).drop n, text = none := by
      rw [hdiscardp, List.drop_eq_getElem_cons (by rw [List.length_set]; exact hlt),
        List.getElem_set_self, List.drop_set_of_lt (Nat.lt_succ_self n)]
      exact List.forall_mem_cons.2 ⟨rfl, hfreed⟩
    have hnodup : (after.sent.map Prod.fst).Nodup := by
      rcases hsent' with heq | heq
      · rw [heq]
        exact hsent
      · rw [heq, List.map_append]
        refine List.Nodup.append hsent (List.nodup_singleton n) ?_
        intro place hplace hn
        obtain rfl := List.mem_singleton.1 hn
        exact absurd (hplaces place hplace) (by omega)
    have hplaces' : ∀ place ∈ after.sent.map Prod.fst, n ≤ place := by
      intro place hplace
      rcases hsent' with heq | heq
      · rw [heq] at hplace
        exact Nat.le_of_succ_le (hplaces place hplace)
      · rw [heq, List.map_append] at hplace
        rcases List.mem_append.1 hplace with hplace | hplace
        · exact Nat.le_of_succ_le (hplaces place hplace)
        · exact Nat.le_of_eq (List.mem_singleton.1 hplace).symm
    obtain ⟨conn', hloop, hresult⟩ := @ih
      { after with discardp := after.discardp.set n none, numDiscardp := after.numDiscardp - 1 }
      (by dsimp only; omega) hknows' hnone' hthere' hfreed' hnodup hplaces'
    refine ⟨conn', ?_, hresult⟩
    rw [discardLoop, hpname]
    change ((conn.ccSendQuery server discard n (discardCommand pname)).bind _) = _
    rw [hsend, Option.bind_some, hfree, Option.bind_some]
    exact hloop

/-- Every marked object is discarded once just when no command fails and is rolled back. -/
theorem discardsOnce_iff (hmarked : conn.Marked) :
    conn.DiscardsOnce server ↔ conn.NoneRolledBack server conn.discardp.length := by
  have hnum := hmarked.num
  constructor
  · rintro ⟨fuel, conn', hdiscard, -⟩ hpqconn hstatus k hk hbefore herror hrollback
    cases fuel with
    | zero => cases hdiscard
    | succ fuel =>
      rw [ccDiscardMarkedObjects, if_neg (by omega), hnum, Int.toNat_natCast,
        discardLoop_rolledBack (keepsFreed_discard fuel)
          (fun again conn' i h hi ↦ discard_freed h hi) hk hnum hpqconn hstatus hmarked.knows
          hbefore herror hrollback] at hdiscard
      cases hdiscard
  · intro hnone
    have hthere : ∀ i < conn.discardp.length, ∃ pname, conn.discardp[i]? = some (some pname) := by
      intro i hi
      obtain ⟨pname, hpname⟩ :=
        Option.isSome_iff_exists.1 (hmarked.there conn.discardp[i] (List.getElem_mem hi))
      exact ⟨pname, by rw [List.getElem?_eq_getElem hi, hpname]⟩
    have hsent := hmarked.sent
    rcases Nat.eq_zero_or_pos conn.discardp.length with hzero | hpos
    · refine ⟨1, conn, ?_, by simp [hsent], ?_, by omega⟩
      · rw [ccDiscardMarkedObjects, if_pos (by omega)]
      · rw [List.eq_nil_of_length_eq_zero hzero]
        exact List.forall_mem_nil _
    · obtain ⟨conn', hloop, hresult⟩ :=
        @discardLoop_calm server conn (ccDiscardMarkedObjects server 0) _ hnum hmarked.knows hnone
          hthere (by simp) (by simp [hsent]) (by simp [hsent])
      refine ⟨1, conn', ?_, hresult⟩
      rw [ccDiscardMarkedObjects, if_neg (by omega), hnum, Int.toNat_natCast]
      exact hloop

/-- A prepared statement and a cursor that were marked in an open transaction. -/
def markedTwo : DiscardConn where
  discardp := [some [0x73, 0x61], some [0x70, 0x62]]
  numDiscardp := 2
  inTrans := true
  inErrorTrans := false
  pqconn := true
  onCommitInProgress := false
  status := .inTrans
  asked := 0
  sent := []

theorem marked_two : markedTwo.Marked := ⟨rfl, by decide, rfl, fun _ ↦ ⟨rfl, rfl⟩⟩

/-- The second command fails, and the connection is lost when it is rolled back. -/
theorem discardsOnce_lost : markedTwo.DiscardsOnce
    ⟨true, fun i ↦ if i = 1 then .error else if i = 2 then .lost else .success⟩ := by
  refine (discardsOnce_iff marked_two).2 ?_
  intro _ _ k hk _ herror
  have hlt : k < 2 := hk
  match k, hlt with
  | 0, _ => exact absurd herror (by decide)
  | 1, _ => decide

/-- A server that rejects its first command. -/
def rejectsFirst : DiscardServer := ⟨true, fun i ↦ if i = 0 then .error else .success⟩

/-- The first command fails and is rolled back: the function has no result, however long it runs. -/
theorem discardsOnce_not_rolledBack : ¬markedTwo.DiscardsOnce rejectsFirst := by
  rintro ⟨fuel, conn', hdiscard, -⟩
  cases fuel with
  | zero => cases hdiscard
  | succ fuel =>
    have hnone : markedTwo.discardLoop rejectsFirst (ccDiscardMarkedObjects rejectsFirst fuel) 2 =
        none :=
      discardLoop_rolledBack (keepsFreed_discard fuel)
        (fun again conn' i h hi ↦ discard_freed h hi) (k := 0) (by decide) rfl rfl rfl
        marked_two.knows (fun j hj ↦ absurd hj (Nat.not_lt_zero j)) rfl rfl
    exact Option.some_ne_none _ (hdiscard.symm.trans hnone)

end List

end DiscardConn

end PsqlOdbc
