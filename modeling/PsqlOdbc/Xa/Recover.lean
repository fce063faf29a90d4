import PsqlOdbc.Xa.XidText

/-!
# Scanning for prepared transactions (`pgxalib.cpp`)

`xa_recover` hands out the prepared transactions of the server, as many in a call as the caller has
room for.  A call that starts a scan keeps the names that the server lists, and the place up to which
they have been handed out is kept from one call to the next; it is -1 when there is no scan.
-/

namespace PsqlOdbc.Xa

open Lib

/-! ## Definitions -/

/-- The name of a prepared transaction. -/
structure Gid where
  text : List UInt8
  noNul : 0 ∉ text
  short : text.length ≤ 200

/-- What `ActivateConnection` and `AuthenticationError` say. -/
inductive Activation
  | active
  | authenticationError
  | failed
  deriving DecidableEq

/-- An answer of `SQLFetch`. -/
inductive Fetched
  | row (gid : Gid)
  | failed
  | noDataFound

/-- A call of `xa_recover`: its arguments and what it meets with.  `buf` is what the buffer holds
before the first row, `fetches` are the answers of `SQLFetch` as far as there are any. -/
structure RecoverCall where
  count : Nat
  startRScan : Bool
  endRScan : Bool
  xids : List Xid
  activation : Activation
  querySucceeds : Bool
  buf : List UInt8
  fetches : List Fetched
  count_pos : 0 < count
  room : xids.length = count
  sized : ∀ xid ∈ xids, xid.data.length = xidDataSize

/-- What a resource manager keeps of a scan. -/
structure ScanState where
  vec : List (List UInt8)
  pos : Int
  deriving DecidableEq, Repr

/-- A new `XAConnection`. -/
def ScanState.initial : ScanState := ⟨[], -1⟩

/-- What a call returns, and the array of the caller. -/
structure RecoverAnswer where
  rmcode : Int
  xids : List Xid

/-- `XAER_RMERR`. -/
def xaerRmerr : Int := -3

/-- The loop that fetches the names; no result if it wants more answers. -/
def fetchLoop : List Fetched → List UInt8 → List (List UInt8) → Option (List (List UInt8))
  | [], _, _ => none
  | .noDataFound :: _, _, vec => some vec
  | .row gid :: fetches, _, vec => fetchLoop fetches gid.text (vec ++ [gid.text])
  -- The loop ends with `SQL_NO_DATA_FOUND` only: what the buffer holds is taken again.
  | .failed :: fetches, buf, vec => fetchLoop fetches buf (vec ++ [buf])

/-- The loop that hands the names out, of `n` rounds; no result if there is an access outside the
vector or the array. -/
def handOutLoop (vec : List (List UInt8)) :
    Nat → Nat → Int → List Xid → Option (List Xid × Int)
  | 0, _, pos, xids => some (xids, pos)
  | n + 1, i, pos, xids =>
    (if 0 ≤ pos then vec[pos.toNat]? else none).bind fun text ↦ xids[i]?.bind fun xid ↦
      (textToXid xid text).bind fun (xid, _) ↦
        handOutLoop vec n (i + 1) (pos + 1) (xids.set i xid)

/-- `xa_recover` from where the names are there. -/
def handOut (call : RecoverCall) (scan : ScanState) : Option (RecoverAnswer × ScanState) :=
  let rcount : Int := scan.vec.length
  let rmcode := if rcount - scan.pos > call.count then (call.count : Int) else rcount - scan.pos
  (handOutLoop scan.vec rmcode.toNat 0 scan.pos call.xids).map fun (xids, pos) ↦
    (⟨rmcode, xids⟩, if call.endRScan then ⟨[], -1⟩ else ⟨scan.vec, pos⟩)

/-- `xa_recover` on a resource manager that is known. -/
def xaRecover (call : RecoverCall) (scan : ScanState) : Option (RecoverAnswer × ScanState) :=
  match call.activation with
  | .failed => some (⟨xaerRmerr, call.xids⟩, scan)
  | .authenticationError => some (⟨0, call.xids⟩, scan)
  | .active =>
    if call.startRScan then
      if call.querySucceeds then
        (fetchLoop call.fetches call.buf []).bind fun vec ↦ handOut call ⟨vec, 0⟩
      else some (⟨xaerRmerr, call.xids⟩, ⟨[], -1⟩)
    else handOut call scan

/-- The identifiers that a call hands out. -/
def RecoverAnswer.written (answer : RecoverAnswer) : List Xid := answer.xids.take answer.rmcode.toNat

/-- One call after the other, with their answers. -/
def recoverRun : ScanState → List RecoverCall →
    Option (List (RecoverCall × RecoverAnswer) × ScanState)
  | scan, [] => some ([], scan)
  | scan, call :: calls =>
    (xaRecover call scan).bind fun (answer, scan) ↦
      (recoverRun scan calls).map fun (answers, scan) ↦ ((call, answer) :: answers, scan)

/-! ## What is meant -/

/-- An identifier that has been read from a name. -/
def ReadFrom (text : List UInt8) (xid : Xid) : Prop :=
  ∃ old n, textToXid old text = some (xid, n)

/-- The names that the server lists. -/
def listed : List Fetched → List (List UInt8)
  | [] => []
  | .noDataFound :: _ => []
  | .row gid :: fetches => gid.text :: listed fetches
  | .failed :: fetches => listed fetches

/-- Calls that go on with a scan, up to the first that hands out fewer than there is room for. -/
def UntilFewer : List (RecoverCall × RecoverAnswer) → Prop
  | [] => False
  | [(call, answer)] => 0 ≤ answer.rmcode ∧ answer.rmcode < call.count
  | (call, answer) :: (next, answer') :: rest =>
    (answer.rmcode = call.count ∨ answer.rmcode < 0) ∧ next.startRScan = false ∧
      UntilFewer ((next, answer') :: rest)

/-- The calls of a scan: the one that starts it succeeds, and those that go on with it. -/
def IsScan : List (RecoverCall × RecoverAnswer) → Prop
  | [] => False
  | (call, answer) :: rest =>
    call.startRScan = true ∧ 0 ≤ answer.rmcode ∧ UntilFewer ((call, answer) :: rest)

/-- The names that the server lists when a scan starts. -/
def scanned : List (RecoverCall × RecoverAnswer) → List (List UInt8)
  | [] => []
  | (call, _) :: _ => listed call.fetches

/-- The identifiers that calls hand out. -/
def handedOut (answers : List (RecoverCall × RecoverAnswer)) : List Xid :=
  answers.flatMap fun answer ↦ answer.2.written

/-- The calls of a run end and stay inside the vector and the arrays, each returns the number of
identifiers it has written, and the calls of a scan hand out each name that is listed once. -/
def RecoversAll (calls : List RecoverCall) : Prop :=
  ∃ answers scan, recoverRun .initial calls = some (answers, scan) ∧
    answers.map Prod.fst = calls ∧
    (∀ call answer, (call, answer) ∈ answers → answer.xids.length = call.count ∧
      (answer.rmcode = xaerRmerr ∨
        answer.rmcode = answer.written.length ∧ answer.rmcode ≤ call.count)) ∧
    ∀ before calls after, answers = before ++ calls ++ after → IsScan calls →
      List.Forall₂ ReadFrom (scanned calls) (handedOut calls)

/-! ## When it is so -/

/-- A call that starts a scan gets all its rows, and one that goes on with a scan finds one.  A
connection that is refused for its authentication is told as an empty list, so nothing may be left
to hand out then. -/
def RecoverCall.Meets (call : RecoverCall) (scan : ScanState) : Prop :=
  match call.activation with
  | .failed => True
  | .authenticationError => call.startRScan = false ∧ scan.vec.length ≤ scan.pos
  | .active =>
    if call.startRScan then call.querySucceeds = true →
      ∃ gids : List Gid, ∃ rest, call.fetches = gids.map .row ++ .noDataFound :: rest
    else 0 ≤ scan.pos

/-- So does every call of a run. -/
def AllMeet : ScanState → List RecoverCall → Prop
  | _, [] => True
  | scan, call :: calls => call.Meets scan ∧
    ∀ answer scan', xaRecover call scan = some (answer, scan') → AllMeet scan' calls

theorem xaerRmerr_neg : ¬0 ≤ xaerRmerr := by decide

theorem recoverRun_cons {scan last : ScanState} {call : RecoverCall} {calls : List RecoverCall}
    {answers : List (RecoverCall × RecoverAnswer)}
    (h : recoverRun scan (call :: calls) = some (answers, last)) :
    ∃ answer next rest, xaRecover call scan = some (answer, next) ∧
      recoverRun next calls = some (rest, last) ∧ answers = (call, answer) :: rest := by
  obtain ⟨⟨answer, next⟩, hcall, hmap⟩ := Option.bind_eq_some_iff.1 h
  obtain ⟨⟨rest, last'⟩, hrest, heq⟩ := Option.map_eq_some_iff.1 hmap
  obtain ⟨rfl, rfl⟩ := Prod.mk.inj heq
  exact ⟨answer, next, rest, hcall, hrest, rfl⟩

/-- Each call of a run has its answer. -/
theorem recoverRun_fst {scan last : ScanState} {calls : List RecoverCall}
    {answers : List (RecoverCall × RecoverAnswer)}
    (h : recoverRun scan calls = some (answers, last)) : answers.map Prod.fst = calls := by
  induction calls generalizing scan answers with
  | nil =>
    cases h
    rfl
  | cons call calls ih =>
    obtain ⟨answer, next, rest, -, hrest, rfl⟩ := recoverRun_cons h
    rw [List.map_cons, ih hrest]

/-! ## A call -/

section Call

variable {vec : List (List UInt8)} {call : RecoverCall} {scan : ScanState}

/-- The texts are names. -/
def Names (vec : List (List UInt8)) : Prop := ∀ text ∈ vec, 0 ∉ text ∧ text.length ≤ 200

/-- The rows are fetched one after the other. -/
theorem fetchLoop_rows (gids : List Gid) (rest : List Fetched) (buf : List UInt8)
    (vec : List (List UInt8)) :
    fetchLoop (gids.map .row ++ .noDataFound :: rest) buf vec =
      some (vec ++ gids.map Gid.text) := by
  induction gids generalizing buf vec with
  | nil => simp [fetchLoop]
  | cons gid gids ih => simp [fetchLoop, ih]

theorem listed_rows (gids : List Gid) (rest : List Fetched) :
    listed (gids.map .row ++ .noDataFound :: rest) = gids.map Gid.text := by
  induction gids with
  | nil => rfl
  | cons gid gids ih => simpa [listed] using ih

theorem names_map_text (gids : List Gid) : Names (gids.map Gid.text) := by
  intro text htext
  obtain ⟨gid, -, rfl⟩ := List.mem_map.1 htext
  exact ⟨gid.noNul, gid.short⟩

/-- The loop hands out the names from its place on. -/
theorem handOutLoop_eq (hnames : Names vec) {n i p : Nat} {xids : List Xid}
    (hvec : p + n ≤ vec.length) (hroom : i + n ≤ xids.length)
    (hsized : ∀ xid ∈ xids, xid.data.length = xidDataSize) :
    ∃ xids', handOutLoop vec n i p xids = some (xids', ((p + n : Nat) : Int)) ∧
      xids'.length = xids.length ∧ xids'.take i = xids.take i ∧
      List.Forall₂ ReadFrom ((vec.drop p).take n) ((xids'.drop i).take n) := by
  induction n generalizing i p xids with
  | zero => exact ⟨xids, rfl, rfl, rfl, by simp⟩
  | succ n ih =>
    have hp : p < vec.length := by omega
    have hi : i < xids.length := by omega
    obtain ⟨hnul, hshort⟩ := hnames vec[p] (List.getElem_mem hp)
    obtain ⟨xid, m, hread, hsize⟩ :=
      textToXid_isSome (hsized xids[i] (List.getElem_mem hi)) hnul hshort
    have hsized' : ∀ x ∈ xids.set i xid, x.data.length = xidDataSize := fun x hx ↦
      (List.mem_or_eq_of_mem_set hx).elim (hsized x) fun h ↦ h ▸ hsize
    obtain ⟨xids', hloop, hlength, htake, hrest⟩ := @ih (i + 1) (p + 1) (xids.set i xid)
      (by omega) (by rw [List.length_set]; omega) hsized'
    rw [List.length_set] at hlength
    have hset : xids'[i]? = some xid := by
      have h := congrArg (·[i]?) htake
      simpa [List.getElem?_take, hi] using h
    refine ⟨xids', ?_, hlength, ?_, ?_⟩
    · rw [handOutLoop, if_pos (Int.natCast_nonneg p), Int.toNat_natCast,
        List.getElem?_eq_getElem hp, Option.bind_some, List.getElem?_eq_getElem hi,
        Option.bind_some, hread, Option.bind_some]
      dsimp only
      rw [show (p : Int) + 1 = ((p + 1 : Nat) : Int) from rfl, hloop,
        show p + 1 + n = p + (n + 1) by omega]
    · have h := congrArg (List.take i) htake
      simpa [List.take_take, List.take_set_of_le] using h
    · have hi' : i < xids'.length := by omega
      have hget : xids'[i] = xid := by
        rw [List.getElem?_eq_getElem hi'] at hset
        exact Option.some.inj hset
      rw [List.drop_eq_getElem_cons hp, List.drop_eq_getElem_cons hi', List.take_succ_cons,
        List.take_succ_cons, hget]
      exact .cons ⟨_, _, hread⟩ hrest

/-- The names from the place of a scan on are handed out, as many as there is room for. -/
theorem handOut_eq (hnames : Names vec) {p : Nat} (hp : p ≤ vec.length) :
    ∃ xids, handOut call ⟨vec, p⟩ =
        some (⟨((min (vec.length - p) call.count : Nat) : Int), xids⟩,
          if call.endRScan then ⟨[], -1⟩
          else ⟨vec, ((p + min (vec.length - p) call.count : Nat) : Int)⟩) ∧
      xids.length = call.count ∧
      List.Forall₂ ReadFrom ((vec.drop p).take (min (vec.length - p) call.count))
        (xids.take (min (vec.length - p) call.count)) := by
  have hroom := call.room
  have hrmcode : (if (vec.length : Int) - p > call.count then (call.count : Int)
      else (vec.length : Int) - p) = ((min (vec.length - p) call.count : Nat) : Int) := by
    split_ifs <;> omega
  obtain ⟨xids, hloop, hlength, -, hread⟩ := @handOutLoop_eq vec hnames
    (min (vec.length - p) call.count) 0 p call.xids (by omega) (by omega) call.sized
  refine ⟨xids, ?_, hlength.trans hroom, hread⟩
  dsimp only [handOut]
  rw [hrmcode, Int.toNat_natCast, hloop]
  rfl

/-- The call that starts a scan hands out from the first name on. -/
theorem xaRecover_start (hactive : call.activation = .active) (hstart : call.startRScan = true)
    (hquery : call.querySucceeds = true) {gids : List Gid} {rest : List Fetched}
    (hfetches : call.fetches = gids.map .row ++ .noDataFound :: rest) :
    xaRecover call scan = handOut call ⟨gids.map Gid.text, 0⟩ := by
  simp only [xaRecover, hactive, hstart, hquery, if_true, hfetches, fetchLoop_rows,
    List.nil_append, Option.bind_some]

theorem xaRecover_continue (hactive : call.activation = .active)
    (hstart : call.startRScan = false) : xaRecover call scan = handOut call scan := by
  simp only [xaRecover, hactive, hstart, if_false, Bool.false_eq_true]

/-- What a scan can be between two calls. -/
structure ScanState.Good (scan : ScanState) : Prop where
  names : Names scan.vec
  place : scan.pos = -1 ∨ 0 ≤ scan.pos ∧ scan.pos ≤ scan.vec.length

theorem ScanState.good_none : ScanState.Good ⟨[], -1⟩ := ⟨List.forall_mem_nil _, .inl rfl⟩

theorem handOut_good (hnames : Names vec) {p : Nat} (hp : p ≤ vec.length) :
    ∃ answer scan', handOut call ⟨vec, p⟩ = some (answer, scan') ∧ scan'.Good ∧
      answer.xids.length = call.count ∧ answer.rmcode = answer.written.length ∧
      answer.rmcode ≤ call.count := by
  obtain ⟨xids, hcall, hlength, -⟩ := @handOut_eq vec call hnames p hp
  refine ⟨_, _, hcall, ?_, hlength, ?_, ?_⟩
  · split_ifs
    · exact ScanState.good_none
    · refine ⟨hnames, .inr ⟨Int.natCast_nonneg _, ?_⟩⟩
      change ((p + min (vec.length - p) call.count : Nat) : Int) ≤ vec.length
      omega
  · rw [RecoverAnswer.written, List.length_take, Int.toNat_natCast]
    dsimp only at hlength ⊢
    omega
  · change ((min (vec.length - p) call.count : Nat) : Int) ≤ call.count
    omega

/-- A call ends, stays inside the vector and the array, and returns how many it has written. -/
theorem xaRecover_good (hgood : scan.Good) (hmeets : call.Meets scan) :
    ∃ answer scan', xaRecover call scan = some (answer, scan') ∧ scan'.Good ∧
      answer.xids.length = call.count ∧
      (answer.rmcode = xaerRmerr ∨
        answer.rmcode = answer.written.length ∧ answer.rmcode ≤ call.count) := by
  obtain ⟨vec, pos⟩ := scan
  cases hactivation : call.activation with
  | failed =>
    exact ⟨_, _, by rw [xaRecover, hactivation], hgood, call.room, .inl rfl⟩
  | authenticationError =>
    exact ⟨_, _, by rw [xaRecover, hactivation], hgood, call.room,
      .inr ⟨rfl, Int.natCast_nonneg _⟩⟩
  | active =>
    rw [RecoverCall.Meets, hactivation] at hmeets
    dsimp only at hmeets
    cases hstart : call.startRScan with
    | true =>
      rw [hstart, if_pos rfl] at hmeets
      cases hquery : call.querySucceeds with
      | true =>
        obtain ⟨gids, rest, hfetches⟩ := hmeets hquery
        rw [xaRecover_start hactivation hstart hquery hfetches]
        obtain ⟨answer, scan', hcall, hgood', hlength, hanswer⟩ :=
          @handOut_good _ call (names_map_text gids) 0 (Nat.zero_le _)
        exact ⟨answer, scan', hcall, hgood', hlength, .inr hanswer⟩
      | false =>
        refine ⟨⟨xaerRmerr, call.xids⟩, ⟨[], -1⟩, ?_, ScanState.good_none, call.room, .inl rfl⟩
        simp only [xaRecover, hactivation, hstart, hquery, if_true, if_false, Bool.false_eq_true]
    | false =>
      rw [hstart, if_neg Bool.false_ne_true] at hmeets
      obtain ⟨p, rfl⟩ := Int.eq_ofNat_of_zero_le hmeets
      have hplace : (p : Int) = -1 ∨ 0 ≤ (p : Int) ∧ (p : Int) ≤ vec.length := hgood.place
      have hle : p ≤ vec.length := by omega
      rw [xaRecover_continue hactivation hstart]
      obtain ⟨answer, scan', hcall, hgood', hlength, hanswer⟩ :=
        @handOut_good vec call hgood.names p hle
      exact ⟨answer, scan', hcall, hgood', hlength, .inr hanswer⟩

end Call

/-! ## A scan -/

section Scan

variable {vec : List (List UInt8)} {p : Nat} {call : RecoverCall} {answer : RecoverAnswer}
  {scan' : ScanState}

/-- A call hands out the next names, all that are left if it returns fewer than there is room for,
and the scan goes on behind them or ends. -/
def HandsOut (vec : List (List UInt8)) (p : Nat) (call : RecoverCall) (answer : RecoverAnswer)
    (scan' : ScanState) : Prop :=
  ∃ n, p + n ≤ vec.length ∧ List.Forall₂ ReadFrom ((vec.drop p).take n) answer.written ∧
    (0 ≤ answer.rmcode → answer.rmcode < call.count → p + n = vec.length) ∧
    (scan' = ⟨vec, ((p + n : Nat) : Int)⟩ ∨ scan' = ⟨[], -1⟩)

theorem handsOut_handOut (hnames : Names vec) (hp : p ≤ vec.length)
    (hcall : handOut call ⟨vec, p⟩ = some (answer, scan')) : HandsOut vec p call answer scan' := by
  obtain ⟨xids, heq, -, hread⟩ := @handOut_eq vec call hnames p hp
  rw [heq] at hcall
  obtain ⟨rfl, rfl⟩ := Prod.mk.inj (Option.some.inj hcall)
  refine ⟨min (vec.length - p) call.count, by omega, hread, ?_, ?_⟩
  · intro _ hlt
    dsimp only at hlt
    omega
  · split_ifs
    · exact .inr rfl
    · exact .inl rfl

theorem handsOut_continue (hnames : Names vec) (hp : p ≤ vec.length)
    (hstart : call.startRScan = false) (hmeets : call.Meets ⟨vec, p⟩)
    (hcall : xaRecover call ⟨vec, p⟩ = some (answer, scan')) :
    HandsOut vec p call answer scan' := by
  cases hactivation : call.activation with
  | failed =>
    rw [xaRecover, hactivation] at hcall
    cases hcall
    exact ⟨0, hp, by simp [RecoverAnswer.written, xaerRmerr],
      fun h ↦ absurd h xaerRmerr_neg, .inl rfl⟩
  | authenticationError =>
    rw [xaRecover, hactivation] at hcall
    rw [RecoverCall.Meets, hactivation] at hmeets
    have hle : (vec.length : Int) ≤ p := hmeets.2
    cases hcall
    have hlast : p + 0 = vec.length := by omega
    exact ⟨0, hp, by simp [RecoverAnswer.written], fun _ _ ↦ hlast, .inl rfl⟩
  | active =>
    rw [xaRecover_continue hactivation hstart] at hcall
    exact handsOut_handOut hnames hp hcall

/-- When a scan has ended, no call that meets its condition hands out anything before another
starts. -/
theorem not_untilFewer_ended {calls : List RecoverCall}
    {answers : List (RecoverCall × RecoverAnswer)} {last : ScanState}
    (hrun : recoverRun ⟨[], -1⟩ calls = some (answers, last)) (hmeet : AllMeet ⟨[], -1⟩ calls)
    (hstart : ∀ pair ∈ answers.head?, pair.1.startRScan = false) : ¬UntilFewer answers := by
  induction calls generalizing answers with
  | nil =>
    cases hrun
    exact id
  | cons call calls ih =>
    obtain ⟨answer, next, rest, hcall, hrest, rfl⟩ := recoverRun_cons hrun
    have hmeets := hmeet.1
    have hfalse : call.startRScan = false := hstart _ rfl
    rw [RecoverCall.Meets, hfalse] at hmeets
    cases hactivation : call.activation with
    | active =>
      rw [hactivation] at hmeets
      exact absurd (show (0 : Int) ≤ -1 from hmeets) (by decide)
    | authenticationError =>
      rw [hactivation] at hmeets
      exact absurd (show (0 : Int) ≤ -1 from hmeets.2) (by decide)
    | failed =>
      have hmeet' := hmeet.2 answer next hcall
      rw [xaRecover, hactivation] at hcall
      cases hcall
      intro huntil
      cases rest with
      | nil => exact xaerRmerr_neg huntil.1
      | cons pair rest =>
        refine ih hrest hmeet' ?_ huntil.2.2
        rintro _ ⟨⟩
        exact huntil.2.1

/-- Behind a call that hands out names of a scan, the calls up to the first that returns fewer hand
out the others. -/
theorem handedOut_of_call (hnames : Names vec) {calls : List RecoverCall}
    {rest : List (RecoverCall × RecoverAnswer)} {last : ScanState}
    (hfirst : HandsOut vec p call answer scan')
    (hrun : recoverRun scan' calls = some (rest, last)) (hmeet : AllMeet scan' calls)
    (huntil : UntilFewer ((call, answer) :: rest)) :
    List.Forall₂ ReadFrom (vec.drop p) (handedOut ((call, answer) :: rest)) := by
  induction calls generalizing p call answer scan' rest with
  | nil =>
    cases hrun
    obtain ⟨n, -, hread, hlast, -⟩ := hfirst
    have hn := hlast huntil.1 huntil.2
    rw [List.take_of_length_le (by rw [List.length_drop]; omega)] at hread
    simpa [handedOut] using hread
  | cons next calls ih =>
    obtain ⟨answer', scan'', rest, hcall, hrest, rfl⟩ := recoverRun_cons hrun
    obtain ⟨n, hn, hread, -, rfl | rfl⟩ := hfirst
    · have hnext := handsOut_continue hnames hn huntil.2.1 hmeet.1 hcall
      have hothers := ih hnext hrest (hmeet.2 _ _ hcall) huntil.2.2
      rw [← List.drop_drop] at hothers
      have happend : List.Forall₂ ReadFrom ((vec.drop p).take n ++ (vec.drop p).drop n)
          (answer.written ++ handedOut ((next, answer') :: rest)) := List.rel_append hread hothers
      rwa [List.take_append_drop] at happend
    · refine absurd huntil.2.2 (not_untilFewer_ended hrun hmeet ?_)
      rintro _ ⟨⟩
      exact huntil.2.1

/-- The calls of a scan hand out each name that is listed once. -/
theorem handedOut_of_isScan {calls : List RecoverCall} {scan last : ScanState}
    {answers : List (RecoverCall × RecoverAnswer)}
    (hrun : recoverRun scan calls = some (answers, last)) (hmeet : AllMeet scan calls)
    (hscan : IsScan answers) : List.Forall₂ ReadFrom (scanned answers) (handedOut answers) := by
  cases calls with
  | nil =>
    cases hrun
    exact hscan.elim
  | cons call calls =>
    obtain ⟨answer, next, rest, hcall, hrest, rfl⟩ := recoverRun_cons hrun
    obtain ⟨hstart, hrmcode, huntil⟩ := hscan
    have hmeet' := hmeet.2 answer next hcall
    have hmeets := hmeet.1
    rw [RecoverCall.Meets] at hmeets
    cases hactivation : call.activation with
    | failed =>
      rw [xaRecover, hactivation] at hcall
      cases hcall
      exact absurd hrmcode xaerRmerr_neg
    | authenticationError =>
      rw [hactivation, hstart] at hmeets
      exact absurd hmeets.1 (by decide)
    | active =>
      rw [hactivation] at hmeets
      dsimp only at hmeets
      rw [hstart, if_pos rfl] at hmeets
      cases hquery : call.querySucceeds with
      | true =>
        obtain ⟨gids, tail, hfetches⟩ := hmeets hquery
        rw [xaRecover_start hactivation hstart hquery hfetches] at hcall
        have hfirst := handsOut_handOut (p := 0) (names_map_text gids) (Nat.zero_le _) hcall
        have hall := handedOut_of_call (names_map_text gids) hfirst hrest hmeet' huntil
        rwa [List.drop_zero, ← listed_rows gids tail, ← hfetches] at hall
      | false =>
        simp only [xaRecover, hactivation, hstart, hquery, if_true, if_false,
          Bool.false_eq_true] at hcall
        cases hcall
        exact absurd hrmcode xaerRmerr_neg

end Scan

/-! ## Runs -/

/-- A run of calls that meet their conditions. -/
theorem recoverRun_good {scan : ScanState} {calls : List RecoverCall} (hgood : scan.Good)
    (hmeet : AllMeet scan calls) :
    ∃ answers last, recoverRun scan calls = some (answers, last) ∧
      ∀ call answer, (call, answer) ∈ answers → answer.xids.length = call.count ∧
        (answer.rmcode = xaerRmerr ∨
          answer.rmcode = answer.written.length ∧ answer.rmcode ≤ call.count) := by
  induction calls generalizing scan with
  | nil => exact ⟨[], scan, rfl, fun _ _ h ↦ absurd h List.not_mem_nil⟩
  | cons call calls ih =>
    obtain ⟨answer, next, hcall, hgood', hanswer⟩ := xaRecover_good hgood hmeet.1
    obtain ⟨answers, last, hrun, hanswers⟩ := ih hgood' (hmeet.2 answer next hcall)
    refine ⟨(call, answer) :: answers, last, ?_, ?_⟩
    · rw [recoverRun, hcall, Option.bind_some]
      dsimp only
      rw [hrun]
      rfl
    · intro c a hmem
      rcases List.mem_cons.1 hmem with heq | hmem
      · cases heq
        exact hanswer
      · exact hanswers c a hmem

/-- The calls behind the first few are a run from where those end. -/
theorem recoverRun_append {scan last : ScanState} {calls : List RecoverCall}
    {before after : List (RecoverCall × RecoverAnswer)} (hmeet : AllMeet scan calls)
    (hrun : recoverRun scan calls = some (before ++ after, last)) :
    ∃ scan' calls', recoverRun scan' calls' = some (after, last) ∧ AllMeet scan' calls' := by
  induction before generalizing scan calls with
  | nil => exact ⟨scan, calls, hrun, hmeet⟩
  | cons pair before ih =>
    cases calls with
    | nil => cases hrun
    | cons call calls =>
      obtain ⟨answer, next, rest, hcall, hrest, heq⟩ := recoverRun_cons hrun
      obtain ⟨-, rfl⟩ := List.cons.inj heq
      exact ih (hmeet.2 answer next hcall) hrest

/-- The calls before the last few are a run of their own. -/
theorem recoverRun_front {scan last : ScanState} {calls : List RecoverCall}
    {before after : List (RecoverCall × RecoverAnswer)} (hmeet : AllMeet scan calls)
    (hrun : recoverRun scan calls = some (before ++ after, last)) :
    ∃ last' calls', recoverRun scan calls' = some (before, last') ∧ AllMeet scan calls' := by
  induction before generalizing scan calls with
  | nil => exact ⟨scan, [], rfl, trivial⟩
  | cons pair before ih =>
    cases calls with
    | nil => cases hrun
    | cons call calls =>
      obtain ⟨answer, next, rest, hcall, hrest, heq⟩ := recoverRun_cons hrun
      obtain ⟨rfl, rfl⟩ := List.cons.inj heq
      obtain ⟨last', calls', hrun', hmeet'⟩ := ih (hmeet.2 answer next hcall) hrest
      refine ⟨last', call :: calls', ?_, hmeet.1, ?_⟩
      · rw [recoverRun, hcall, Option.bind_some]
        dsimp only
        rw [hrun']
        rfl
      · intro answer' scan' hcall'
        rw [hcall] at hcall'
        cases hcall'
        exact hmeet'

/-- In a run whose calls meet their conditions the scans are complete. -/
theorem recoversAll_of_allMeet {calls : List RecoverCall} (hmeet : AllMeet .initial calls) :
    RecoversAll calls := by
  obtain ⟨answers, last, hrun, hanswers⟩ := recoverRun_good ScanState.good_none hmeet
  refine ⟨answers, last, hrun, recoverRun_fst hrun, hanswers, ?_⟩
  rintro before scan after rfl hscan
  rw [List.append_assoc] at hrun
  obtain ⟨start, calls', hrun', hmeet'⟩ := recoverRun_append hmeet hrun
  obtain ⟨stop, calls'', hrun'', hmeet''⟩ := recoverRun_front hmeet' hrun'
  exact handedOut_of_isScan hrun'' hmeet'' hscan

/-- A call with room for one identifier, on a server with two prepared transactions. -/
def recoverOne (startRScan endRScan : Bool) : RecoverCall where
  count := 1
  startRScan := startRScan
  endRScan := endRScan
  xids := [⟨0, 0, 0, List.replicate 128 0⟩]
  activation := .active
  querySucceeds := true
  buf := []
  fetches := [.row ⟨[0x36, 0x31, 0x2d, 0x36, 0x32], by decide, by decide⟩,
    .row ⟨[0x78], by decide, by decide⟩, .noDataFound]
  count_pos := by decide
  room := rfl
  sized xid hxid := by
    obtain rfl := List.mem_singleton.1 hxid
    exact List.length_replicate

/-- The two are handed out by two calls, and a third finds none. -/
theorem recoversAll_two : RecoversAll
    [recoverOne true false, recoverOne false false, recoverOne false true] := by
  have hfirst : (xaRecover (recoverOne true false) .initial).map Prod.snd =
      some ⟨[[0x36, 0x31, 0x2d, 0x36, 0x32], [0x78]], 1⟩ := by decide +kernel
  have hsecond : (xaRecover (recoverOne false false)
      ⟨[[0x36, 0x31, 0x2d, 0x36, 0x32], [0x78]], 1⟩).map Prod.snd =
      some ⟨[[0x36, 0x31, 0x2d, 0x36, 0x32], [0x78]], 2⟩ := by decide +kernel
  refine recoversAll_of_allMeet ⟨fun _ ↦ ⟨[⟨[0x36, 0x31, 0x2d, 0x36, 0x32], by decide, by decide⟩,
    ⟨[0x78], by decide, by decide⟩], [], rfl⟩, ?_⟩
  intro answer scan hcall
  rw [hcall] at hfirst
  obtain rfl := Option.some.inj hfirst
  refine ⟨(by decide : (0 : Int) ≤ 1), ?_⟩
  intro answer' scan' hcall'
  rw [hcall'] at hsecond
  obtain rfl := Option.some.inj hsecond
  exact ⟨(by decide : (0 : Int) ≤ 2), fun _ _ _ ↦ trivial⟩

/-- A call that goes on with a scan that was never started reads before the vector. -/
theorem recoversAll_not_started : recoverRun .initial [recoverOne false false] = none ∧
    ¬RecoversAll [recoverOne false false] := by
  have hnone : recoverRun .initial [recoverOne false false] = none := rfl
  refine ⟨hnone, ?_⟩
  rintro ⟨answers, scan, hrun, -⟩
  rw [hnone] at hrun
  cases hrun

end PsqlOdbc.Xa
