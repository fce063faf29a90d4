import PsqlOdbc.DiagField
import PsqlOdbc.ErrorInfoRight

/-!
# When the number of records is right

The calls behind `SQLGetDiagField` copy nothing, so they tell the length of one record at most.
Records are found by their numbers; where the last call has stopped does not matter for them, but
the size of the records does (`diagRight_iff`).
-/

namespace PsqlOdbc

open Lib Lib.CountingBuffer

/-! ## One call -/

section

variable {error error' : PgErrorInfo} {r : ErrorRequest}

theorem ErrorRequest.wrtlen_le (r : ErrorRequest) (recsize : UInt16) (left : Nat) :
    r.wrtlen recsize left ≤ left := by
  have hle : pcblen recsize left ≤ left := by
    rw [pcblen]
    split <;> omega
  rw [ErrorRequest.wrtlen]
  split_ifs <;> omega

/-- There is room for the terminator. -/
theorem ErrorRequest.wrtlen_lt (hpos : 0 < r.cbErrorMsgMax.toInt) (recsize : UInt16) (left : Nat) :
    (r.wrtlen recsize left : Int) < r.cbErrorMsgMax.toInt := by
  have hlt := r.cbErrorMsgMax.toInt_lt
  have hsize : wrapUnsigned 32 r.cbErrorMsgMax.toInt = r.cbErrorMsgMax.toInt :=
    Int.emod_eq_of_lt (by omega) (by omega)
  have hone : wrapUnsigned 32 (r.cbErrorMsgMax.toInt - 1) = r.cbErrorMsgMax.toInt - 1 :=
    Int.emod_eq_of_lt (by omega) (by omega)
  rw [ErrorRequest.wrtlen, hsize, hone]
  split_ifs <;> omega

theorem ErrorRequest.wrtlen_zero (hzero : r.cbErrorMsgMax = 0) (recsize : UInt16) (left : Nat) :
    r.wrtlen recsize left = 0 := by
  have hz : r.cbErrorMsgMax.toInt = 0 := by
    rw [hzero]
    rfl
  rw [ErrorRequest.wrtlen]
  rw [if_pos hz, if_neg (Nat.not_lt_zero _)]

/-- The message is copied if there is memory for it. -/
theorem ErrorRequest.copy_isSome
    (hmem : ∀ mem, r.szErrorMsg = some mem → r.cbErrorMsgMax.toInt ≤ mem.length) {msg : List UInt8}
    {recsize : UInt16} {left : Nat} (hleft : left ≤ msg.length) :
    ∃ szErrorMsg, r.copy msg (r.wrtlen recsize left) = some szErrorMsg := by
  rw [ErrorRequest.copy]
  cases hmsg : r.szErrorMsg with
  | none => exact ⟨none, rfl⟩
  | some mem =>
    dsimp only
    by_cases hpos : r.cbErrorMsgMax.toInt ≤ 0
    · rw [if_pos hpos]
      exact ⟨some mem, rfl⟩
    have hle := r.wrtlen_le recsize left
    have hlt := ErrorRequest.wrtlen_lt (Int.not_le.1 hpos) recsize left
    have hroom := hmem mem hmsg
    rw [if_neg hpos, if_neg (by omega), storeAll, if_pos]
    · exact ⟨_, rfl⟩
    · rw [List.length_append, List.length_take, List.length_singleton]
      omega

/-- What a call does. -/
theorem PgErrorInfo.returnError_cases (hsound : error.errsize.toNat ≤ error.errorMessage.length)
    (hmem : ∀ mem, r.szErrorMsg = some mem → r.cbErrorMsgMax.toInt ≤ mem.length)
    {recsize : UInt16} (hrec : r.recsize error.recsize = recsize) {stapos : UInt32}
    (hstapos : r.stapos recsize error.errpos = stapos) :
    (error.errsize ≤ stapos → error.returnError r = some ({ error with recsize }, r.noData)) ∧
      (¬error.errsize ≤ stapos → ∃ reply, error.returnError r =
          some ({ error with
            recsize
            errpos := UInt32.ofNat (stapos.toNat +
              r.wrtlen recsize (error.errsize.toNat - stapos.toNat)) }, reply) ∧
        reply.pcbErrorMsg = (if r.pcbErrorMsg = true then
          some (Int16.ofNat (pcblen recsize (error.errsize.toNat - stapos.toNat))) else none) ∧
        reply.retcode = if r.wrtlen recsize (error.errsize.toNat - stapos.toNat) <
          pcblen recsize (error.errsize.toNat - stapos.toNat) then .successWithInfo
          else .success) := by
  rw [PgErrorInfo.returnError, hrec]
  dsimp only
  rw [hstapos]
  constructor
  · intro hend
    rw [if_pos hend]
  · intro hend
    obtain ⟨szErrorMsg, hcopy⟩ := @ErrorRequest.copy_isSome r hmem
      (error.errorMessage.drop stapos.toNat) recsize (error.errsize.toNat - stapos.toNat)
      (by rw [List.length_drop]; omega)
    rw [if_neg hend, hcopy, Option.map_some]
    exact ⟨_, rfl, rfl, rfl⟩

/-- An error that differs in what does not matter for the records of the message. -/
structure PgErrorInfo.Alike (error error' : PgErrorInfo) : Prop where
  same : error' = { error with errpos := error'.errpos, recsize := error'.recsize }
  recsize : error.errsize = 0 ∨ error'.recsize = error.recsize

/-- Records are found by their numbers. -/
theorem PgErrorInfo.Alike.returnError (h : error.Alike error') (hr : 0 < r.recNumber.toInt) :
    (∃ e e' reply, error.returnError r = some (e, reply) ∧ error'.returnError r = some (e', reply) ∧
        e.Alike e' ∧ e.errorMessage = error.errorMessage ∧ e'.errorMessage = error.errorMessage) ∨
      error.returnError r = none ∧ error'.returnError r = none := by
  have hpos : ∀ (errpos errpos' : UInt32) (recsize : UInt16),
      r.stapos recsize errpos = r.stapos recsize errpos' := by
    intro errpos errpos' recsize
    rw [ErrorRequest.stapos, ErrorRequest.stapos, if_pos hr, if_pos hr]
  obtain ⟨hsame, hrec⟩ := h
  rw [hsame, PgErrorInfo.returnError, PgErrorInfo.returnError]
  dsimp only
  rcases hrec with hzero | hrec
  · have hend : ∀ stapos : UInt32, error.errsize ≤ stapos := by
      intro stapos
      rw [hzero]
      exact UInt32.zero_le
    rw [if_pos (hend _), if_pos (hend _)]
    exact .inl ⟨_, _, _, rfl, rfl, ⟨rfl, .inl hzero⟩, rfl, rfl⟩
  · rw [hrec, hpos error'.errpos error.errpos]
    by_cases hend : error.errsize ≤ r.stapos (r.recsize error.recsize) error.errpos
    · rw [if_pos hend, if_pos hend]
      exact .inl ⟨_, _, _, rfl, rfl, ⟨rfl, .inr rfl⟩, rfl, rfl⟩
    · rw [if_neg hend, if_neg hend]
      cases r.copy (error.errorMessage.drop _) _ with
      | none => exact .inr ⟨rfl, rfl⟩
      | some szErrorMsg => exact .inl ⟨_, _, _, rfl, rfl, ⟨rfl, .inr rfl⟩, rfl, rfl⟩

end

/-! ## The error of a statement -/

section

variable {self self' : DiagStmt} {error error' : PgErrorInfo} {r : ErrorRequest}

/-- The text of a memory error is put in once. -/
theorem DiagStmt.errorinfo_some (h : self.errorinfo = some error)
    (hmessage : error'.errorMessage = error.errorMessage) :
    ({ self with pgerror := some error' } : DiagStmt).errorinfo = some error' := by
  rw [errorinfo, Option.map_eq_some_iff] at h
  obtain ⟨pgerror, -, hif⟩ := h
  rw [errorinfo, scCreateErrorinfo, Option.map_some]
  dsimp only
  by_cases hempty : self.errorNumber = 4 ∧ pgerror.errorMessage.head? = some 0
  · rw [if_pos hempty] at hif
    rw [if_neg]
    rintro ⟨-, hhead⟩
    rw [hmessage, ← hif] at hhead
    exact absurd hhead (by decide : ¬some (77 : UInt8) = some 0)
  · rw [if_neg hempty] at hif
    rw [hmessage, ← hif, if_neg hempty]

theorem DiagStmt.errorinfo_sound (h : (DiagHandle.stmt self).Sound)
    (herror : self.errorinfo = some error) :
    error.errsize.toNat ≤ error.errorMessage.length := by
  rw [errorinfo, Option.map_eq_some_iff] at herror
  obtain ⟨pgerror, hcreate, hif⟩ := herror
  have hle : pgerror.errsize.toNat ≤ pgerror.errorMessage.length := by
    rw [scCreateErrorinfo] at hcreate
    cases hself : self.pgerror with
    | some pgerror' =>
      rw [hself] at hcreate
      cases hcreate
      exact h pgerror hself
    | none =>
      rw [hself] at hcreate
      obtain ⟨made, hmade, rfl⟩ := Option.map_eq_some_iff.1 hcreate
      rw [erConstructor] at hmade
      split at hmade
      · cases hmade
      · cases hmade
        dsimp only
        rw [List.length_append, List.length_cons]
        have hmod : ∀ n : Nat, (UInt32.ofNat n).toNat ≤ n := fun n ↦ by
          rw [UInt32.toNat_ofNat']
          exact Nat.mod_le n _
        exact (hmod _).trans (Nat.le_add_right _ _)
  split at hif
  · cases hif
    dsimp only
    rw [overwrite, List.length_append, List.length_drop]
    omega
  · cases hif
    exact hle

theorem DiagHandle.getDiagRec_stmt (h : self.errorinfo = some error) {reply : ErrorReply}
    (hcall : error.returnError r = some (error', reply)) :
    (DiagHandle.stmt self).pgapiGetDiagRec r =
      some (.stmt { self with pgerror := some error' }, reply) := by
  rw [pgapiGetDiagRec, DiagStmt.pgapiStmtError, h]
  dsimp only
  rw [hcall, Option.map_some, Option.map_some]

/-- Statements whose errors are alike give the same records. -/
theorem DiagHandle.replies_alike (h : self.errorinfo = some error)
    (h' : self'.errorinfo = some error') (halike : error.Alike error') {rs : List ErrorRequest}
    (hrs : ∀ r ∈ rs, r.IsDiagRec) :
    (DiagHandle.stmt self').replies rs = (DiagHandle.stmt self).replies rs := by
  induction rs generalizing self self' error error' with
  | nil => rfl
  | cons r rs ih =>
    have hmessage : error'.errorMessage = error.errorMessage := by
      rw [halike.same]
    rw [replies, replies]
    rcases halike.returnError (hrs r List.mem_cons_self).record with
      ⟨e, e', reply, hcall, hcall', hnext, hm, hm'⟩ | ⟨hcall, hcall'⟩
    · rw [getDiagRec_stmt h hcall, getDiagRec_stmt h' hcall', Option.bind_some, Option.bind_some]
      dsimp only
      rw [ih (DiagStmt.errorinfo_some h hm) (DiagStmt.errorinfo_some h' (hm'.trans hmessage.symm))
        hnext fun r hr ↦ hrs r (List.mem_cons_of_mem _ hr)]
    · rw [pgapiGetDiagRec, pgapiGetDiagRec, DiagStmt.pgapiStmtError, DiagStmt.pgapiStmtError, h, h']
      dsimp only
      rw [hcall, hcall']
      rfl

/-! ## Asking for a field -/

/-- The size of the records behind a call that has no room for the message. -/
def probedRecsize (recsize : UInt16) : UInt16 := if recsize = 0 then 511 else recsize

theorem probedRecsize_ne (recsize : UInt16) : probedRecsize recsize ≠ 0 := by
  rw [probedRecsize]
  split_ifs with hzero
  · decide
  · exact hzero

theorem ErrorRequest.recsize_probe (hzero : r.cbErrorMsgMax = 0) (recsize : UInt16) :
    r.recsize recsize = probedRecsize recsize := by
  have hnot : ¬0 < r.cbErrorMsgMax.toInt := by
    rw [hzero]
    decide
  have hfirst : ¬(r.recNumber = 1 ∧ 0 < r.cbErrorMsgMax.toInt) := fun h ↦ hnot h.2
  rw [ErrorRequest.recsize, if_neg hnot, if_neg hfirst, probedRecsize]

/-- What such a call leaves. -/
theorem PgErrorInfo.returnError_probe (hsound : error.errsize.toNat ≤ error.errorMessage.length)
    (hzero : r.cbErrorMsgMax = 0) (hmem : r.szErrorMsg = none) :
    ∃ e reply, error.returnError r = some (e, reply) ∧
      e = { error with errpos := e.errpos, recsize := probedRecsize error.recsize } := by
  obtain ⟨hend, hpiece⟩ := error.returnError_cases hsound (r := r)
    (fun mem h ↦ by rw [hmem] at h; cases h) (ErrorRequest.recsize_probe hzero _) rfl
  by_cases hle : error.errsize ≤ r.stapos (probedRecsize error.recsize) error.errpos
  · exact ⟨_, _, hend hle, rfl⟩
  · obtain ⟨reply, hcall, -⟩ := hpiece hle
    exact ⟨_, _, hcall, rfl⟩

/-- The number of records that is told: where the last call has stopped, and from one record. -/
theorem DiagHandle.getDiagNumber_stmt (h : self.errorinfo = some error)
    (hsound : error.errsize.toNat ≤ error.errorMessage.length) :
    (error.errsize ≤ error.errpos → ∃ reply,
        (DiagHandle.stmt self).getDiagNumber = some (.stmt { self with
          pgerror := some { error with recsize := probedRecsize error.recsize } }, reply) ∧
        reply.retcode = .noData) ∧
      (¬error.errsize ≤ error.errpos → ∃ reply,
        (DiagHandle.stmt self).getDiagNumber = some (.stmt { self with
          pgerror := some { error with recsize := probedRecsize error.recsize } }, reply) ∧
        reply.retcode = .success ∧ (reply.number = some 1 ∨ reply.number = some 0 ∧
          2 ^ 15 ≤ error.errsize.toNat)) := by
  obtain ⟨hend, hpiece⟩ := @PgErrorInfo.returnError_cases error
    ⟨-1, false, false, none, 0, true, false⟩ hsound nofun _ (ErrorRequest.recsize_probe rfl _) _ rfl
  have hstapos : ∀ recsize, (⟨-1, false, false, none, 0, true, false⟩ : ErrorRequest).stapos recsize
      error.errpos = error.errpos := fun _ ↦ rfl
  rw [hstapos] at hend hpiece
  constructor
  · intro hle
    refine ⟨⟨some 0, none, none, 4, .noData⟩, ?_, rfl⟩
    rw [getDiagNumber, DiagStmt.pgapiStmtError, h]
    dsimp only
    rw [hend hle, Option.map_some, Option.bind_some]
    exact if_neg (by rintro (h | h) <;> cases h)
  · intro hle
    obtain ⟨reply, hcall, hpcb, hretcode⟩ := hpiece hle
    have hwrtlen := @ErrorRequest.wrtlen_zero ⟨-1, false, false, none, 0, true, false⟩ rfl
    rw [hwrtlen, Nat.add_zero, UInt32.ofNat_toNat] at hcall
    have hlt := Nat.not_le.1 (mt UInt32.le_iff_toNat_le.2 hle)
    have hrec := probedRecsize_ne error.recsize
    have hrecpos : 0 < (probedRecsize error.recsize).toNat :=
      Nat.pos_of_ne_zero fun h ↦ hrec (UInt16.toNat_inj.1 h)
    have hreclt := (probedRecsize error.recsize).toNat_lt
    obtain ⟨p, hp⟩ : ∃ p, pcblen (probedRecsize error.recsize)
        (error.errsize.toNat - error.errpos.toNat) = p := ⟨_, rfl⟩
    have hmin := pcblen_eq_min (probedRecsize error.recsize)
      (error.errsize.toNat - error.errpos.toNat)
    have hsuccess : reply.retcode = .success ∨ reply.retcode = .successWithInfo := by
      rw [hretcode]
      split_ifs
      · exact .inr rfl
      · exact .inl rfl
    rw [hp, if_pos rfl] at hpcb
    rw [getDiagNumber, DiagStmt.pgapiStmtError, h]
    dsimp only
    rw [hcall, Option.map_some, Option.bind_some]
    dsimp only
    rw [if_pos hsuccess, hpcb]
    dsimp only
    by_cases hfits : p < 2 ^ 15
    · have hint := toInt_ofNat_of_lt hfits
      have hzero : ((p : Int) - 1).tdiv (probedRecsize error.recsize).toNat = 0 :=
        Int.tdiv_eq_zero_of_lt (by omega) (by omega)
      rw [hint, if_pos (by omega), if_neg hrec, hzero]
      exact ⟨_, rfl, rfl, .inl rfl⟩
    · have hneg := toInt_ofNat_neg (Nat.not_lt.1 hfits) (by omega)
      rw [if_neg (by omega)]
      exact ⟨_, rfl, rfl, .inr ⟨rfl, by omega⟩⟩

/-! ## Reading the records -/

variable {requests : DiagRecRequests}

theorem DiagRecRequests.size_lt (requests : DiagRecRequests) : requests.size.toInt < 2 ^ 15 :=
  requests.size.toInt_lt

/-- The first record is there if there is a message; its size is that of the buffers then. -/
theorem DiagHandle.getDiagRec_first (h : self.errorinfo = some error)
    (hsound : error.errsize.toNat ≤ error.errorMessage.length) (hrec : error.recsize ≠ 0)
    (hne : error.errsize ≠ 0) : ∃ errpos reply,
      (DiagHandle.stmt self).pgapiGetDiagRec (requests.request 0) = some (.stmt { self with
        pgerror := some { error with
          recsize := UInt16.ofNat (requests.size.toInt - 1).toNat, errpos } }, reply) ∧
      (reply.retcode = .success ∨ reply.retcode = .successWithInfo) := by
  have hone : (requests.request 0).recNumber = 1 := requests.record 0
  have hsize := requests.sameSize 0
  have hrecsize : (requests.request 0).recsize error.recsize =
      UInt16.ofNat (requests.size.toInt - 1).toNat := by
    rw [ErrorRequest.recsize, if_neg hrec, if_pos ⟨hone, by rw [hsize]; exact requests.pos⟩, hsize]
  have hstapos : ∀ recsize, (requests.request 0).stapos recsize error.errpos = 0 := by
    intro recsize
    rw [ErrorRequest.stapos, hone, if_pos (by decide)]
    exact congrArg UInt32.ofNat (Nat.zero_mul _)
  obtain ⟨-, hpiece⟩ := error.returnError_cases hsound
    (fun mem hmem ↦ by rw [hsize]; exact requests.memory 0 mem hmem) hrecsize (hstapos _)
  have hnot : ¬error.errsize ≤ 0 := fun hle ↦ hne (UInt32.le_antisymm hle UInt32.zero_le)
  obtain ⟨reply, hcall, -, hretcode⟩ := hpiece hnot
  refine ⟨_, reply, getDiagRec_stmt h hcall, ?_⟩
  rw [hretcode]
  split_ifs
  · exact .inr rfl
  · exact .inl rfl

/-- The second record is there if the message does not fit in the first one. -/
theorem DiagHandle.getDiagRec_second (h : self.errorinfo = some error)
    (hsound : error.errsize.toNat ≤ error.errorMessage.length)
    (hrec : error.recsize = UInt16.ofNat (requests.size.toInt - 1).toNat) : ∃ h' reply,
      (DiagHandle.stmt self).pgapiGetDiagRec (requests.request 1) = some (h', reply) ∧
        (reply.retcode = .noData ↔ (error.errsize.toNat : Int) + 1 ≤ requests.size.toInt) := by
  have hone : (requests.request 1).recNumber = 2 := requests.record 1
  have hsize := requests.sameSize 1
  have hpos := requests.pos
  have hlt := requests.size_lt
  have htoNat : (UInt16.ofNat (requests.size.toInt - 1).toNat).toNat =
      (requests.size.toInt - 1).toNat := UInt16.toNat_ofNat_of_lt' (by rw [UInt16.size]; omega)
  have hrecsize : (requests.request 1).recsize error.recsize =
      UInt16.ofNat (requests.size.toInt - 1).toNat := by
    have hnot : ¬((requests.request 1).recNumber = 1 ∧
        0 < (requests.request 1).cbErrorMsgMax.toInt) := by
      rintro ⟨hfirst, -⟩
      rw [hone] at hfirst
      exact absurd hfirst (by decide)
    rw [ErrorRequest.recsize, if_neg hnot, hsize, if_pos hpos, hrec, ite_self]
  have hstapos : (requests.request 1).stapos (UInt16.ofNat (requests.size.toInt - 1).toNat)
      error.errpos = UInt32.ofNat (requests.size.toInt - 1).toNat := by
    rw [ErrorRequest.stapos, hone, if_pos (by decide), htoNat]
    exact congrArg UInt32.ofNat (Nat.one_mul _)
  have htoNat' : (UInt32.ofNat (requests.size.toInt - 1).toNat).toNat =
      (requests.size.toInt - 1).toNat := UInt32.toNat_ofNat_of_lt' (by rw [UInt32.size]; omega)
  obtain ⟨hend, hpiece⟩ := error.returnError_cases hsound
    (fun mem hmem ↦ by rw [hsize]; exact requests.memory 1 mem hmem) hrecsize hstapos
  by_cases hle : error.errsize ≤ UInt32.ofNat (requests.size.toInt - 1).toNat
  · refine ⟨_, _, getDiagRec_stmt h (hend hle), iff_of_true rfl ?_⟩
    rw [UInt32.le_iff_toNat_le, htoNat'] at hle
    omega
  · obtain ⟨reply, hcall, -, hretcode⟩ := hpiece hle
    refine ⟨_, reply, getDiagRec_stmt h hcall, iff_of_false ?_ ?_⟩
    · rw [hretcode]
      split_ifs <;> rintro ⟨⟩
    · rw [UInt32.le_iff_toNat_le, htoNat'] at hle
      omega

/-- The number is right if all has been read, or if one record is enough. -/
theorem DiagHandle.numberRight_stmt (h : self.errorinfo = some error)
    (hsound : error.errsize.toNat ≤ error.errorMessage.length) :
    (DiagHandle.stmt self).NumberRight requests ↔
      error.errsize ≤ error.errpos ∨ (error.errsize.toNat : Int) + 1 ≤ requests.size.toInt := by
  obtain ⟨hend, hpiece⟩ := getDiagNumber_stmt h hsound
  by_cases hle : error.errsize ≤ error.errpos
  · obtain ⟨reply, hcall, hretcode⟩ := hend hle
    refine iff_of_true ⟨_, reply, hcall, fun hsuccess ↦ ?_⟩ (.inl hle)
    rw [hretcode] at hsuccess
    cases hsuccess
  have hne : error.errsize ≠ 0 := by
    intro hzero
    rw [hzero] at hle
    exact hle UInt32.zero_le
  have hlt := requests.size_lt
  obtain ⟨reply, hcall, hretcode, hnumber⟩ := hpiece hle
  have hprobed := @DiagStmt.errorinfo_some self error { error with
    recsize := probedRecsize error.recsize } h rfl
  obtain ⟨errpos, first, hfirst, hdata⟩ := @getDiagRec_first _ _ requests hprobed hsound
    (probedRecsize_ne _) hne
  obtain ⟨h', second, hsecond, hnone⟩ := @getDiagRec_second _ _ requests
    (@DiagStmt.errorinfo_some self error { error with
      recsize := UInt16.ofNat (requests.size.toInt - 1).toNat, errpos } h rfl) hsound rfl
  have hreplies : (DiagHandle.stmt { self with pgerror := some { error with
      recsize := probedRecsize error.recsize } }).replies ((List.range (1 + 1)).map
        requests.request) = some ([first] ++ [second]) := by
    change (DiagHandle.stmt _).replies [requests.request 0, requests.request 1] = _
    rw [replies, hfirst, Option.bind_some]
    dsimp only
    rw [replies, hsecond]
    rfl
  have hreply : (DiagHandle.stmt { self with pgerror := some { error with
      recsize := probedRecsize error.recsize } }).replies ((List.range (0 + 1)).map
        requests.request) = some ([] ++ [first]) := by
    change (DiagHandle.stmt _).replies [requests.request 0] = _
    rw [replies, hfirst]
    rfl
  have hnot : first.retcode ≠ .noData := by
    rcases hdata with hdata | hdata
    all_goals
      rw [hdata]
      exact nofun
  constructor
  · rintro ⟨h1, reply', hcall', hright⟩
    obtain ⟨rfl, rfl⟩ := Prod.mk.inj (Option.some.inj (hcall.symm.trans hcall'))
    obtain ⟨n, hn, records, last, hall, -, hlast⟩ := hright hretcode
    rcases hnumber with hone | ⟨hzero, -⟩
    · obtain rfl : n = 1 := by
        have heq := Option.some.inj (hn.symm.trans hone)
        omega
      rw [hreplies] at hall
      obtain ⟨-, hlast'⟩ := List.append_inj' (Option.some.inj hall) rfl
      obtain rfl := List.singleton_inj.1 hlast'
      exact .inr (hnone.1 hlast)
    · obtain rfl : n = 0 := by
        have heq := Option.some.inj (hn.symm.trans hzero)
        omega
      rw [hreply] at hall
      obtain ⟨-, hlast'⟩ := List.append_inj' (Option.some.inj hall) rfl
      obtain rfl := List.singleton_inj.1 hlast'
      exact (hnot hlast).elim
  · rintro (hle' | hroom)
    · exact (hle hle').elim
    rcases hnumber with hone | ⟨-, hlong⟩
    · refine ⟨_, reply, hcall, fun _ ↦ ⟨1, hone, [first], second, hreplies, ?_, hnone.2 hroom⟩⟩
      rintro record hrecord
      rw [List.mem_singleton.1 hrecord]
      exact hdata
    · omega

/-- What any of the calls leaves. -/
theorem DiagHandle.getDiagField_stmt (h : self.errorinfo = some error)
    (hsound : error.errsize.toNat ≤ error.errorMessage.length) (recNumber : Int16)
    (field : DiagIdentifier) : ∃ errpos reply,
      (DiagHandle.stmt self).pgapiGetDiagField recNumber field = some (.stmt { self with
        pgerror := some { error with errpos, recsize := probedRecsize error.recsize } }, reply) := by
  have hprobe : ∀ szSqlState pfNativeError, ∃ errpos reply,
      (DiagHandle.stmt self).pgapiGetDiagRec (probe recNumber szSqlState pfNativeError) =
        some (.stmt { self with
          pgerror := some { error with errpos, recsize := probedRecsize error.recsize } },
            reply) := by
    intro szSqlState pfNativeError
    obtain ⟨e, reply, hcall, he⟩ := @PgErrorInfo.returnError_probe error
      (probe recNumber szSqlState pfNativeError) hsound rfl rfl
    rw [he] at hcall
    exact ⟨_, reply, getDiagRec_stmt h hcall⟩
  cases field with
  | number =>
    obtain ⟨hend, hpiece⟩ := getDiagNumber_stmt h hsound
    by_cases hle : error.errsize ≤ error.errpos
    · obtain ⟨reply, hcall, -⟩ := hend hle
      exact ⟨_, reply, hcall⟩
    · obtain ⟨reply, hcall, -⟩ := hpiece hle
      exact ⟨_, reply, hcall⟩
  | native =>
    obtain ⟨errpos, reply, hcall⟩ := hprobe false true
    rw [pgapiGetDiagField, hcall]
    exact ⟨errpos, _, rfl⟩
  | sqlstate bufferLength =>
    obtain ⟨errpos, reply, hcall⟩ := hprobe true false
    rw [pgapiGetDiagField, hcall, Option.map_some]
    dsimp only
    by_cases hlen : bufferLength.toInt ≤ 5
    · rw [if_pos hlen]
      exact ⟨errpos, _, rfl⟩
    · rw [if_neg hlen]
      exact ⟨errpos, _, rfl⟩

/-- A request for the second record, with room for the terminator alone. -/
def secondRecord : ErrorRequest := ⟨2, false, false, none, 1, false, false⟩

/-- Without the call before, this request finds the beginning of the message. -/
theorem DiagHandle.getDiagRec_secondRecord (h : self.errorinfo = some error)
    (hsound : error.errsize.toNat ≤ error.errorMessage.length) (hne : error.errsize ≠ 0) :
    ∃ h' reply, (DiagHandle.stmt self).pgapiGetDiagRec secondRecord = some (h', reply) ∧
      (error.recsize = 0 → reply.retcode = .success) ∧
      (error.recsize = 511 → reply.retcode ≠ .success) := by
  obtain ⟨hend, hpiece⟩ := @PgErrorInfo.returnError_cases error secondRecord hsound nofun _ rfl _ rfl
  by_cases hle : error.errsize ≤
      secondRecord.stapos (secondRecord.recsize error.recsize) error.errpos
  · refine ⟨_, _, getDiagRec_stmt h (hend hle), fun hzero ↦ ?_, fun _ ↦ nofun⟩
    rw [hzero] at hle
    exact (hne (UInt32.le_antisymm hle UInt32.zero_le)).elim
  · obtain ⟨reply, hcall, -, hretcode⟩ := hpiece hle
    refine ⟨_, _, getDiagRec_stmt h hcall, fun hzero ↦ ?_, fun hprobed ↦ ?_⟩
    · rw [hretcode, hzero]
      refine if_neg ?_
      rw [pcblen_eq_min]
      exact fun hlt ↦ absurd (hlt.trans_le (Nat.min_le_right _ _)) (Nat.not_lt_zero _)
    · have hwrtlen := ErrorRequest.wrtlen_lt (r := secondRecord) (by decide)
        (secondRecord.recsize error.recsize) (error.errsize.toNat -
          (secondRecord.stapos (secondRecord.recsize error.recsize) error.errpos).toNat)
      have hsize : secondRecord.cbErrorMsgMax.toInt = 1 := rfl
      have hrec : (secondRecord.recsize error.recsize).toNat = 511 := by
        rw [hprobed]
        rfl
      rw [UInt32.le_iff_toNat_le] at hle
      rw [hretcode, pcblen_eq_min, hrec, if_pos (by omega)]
      exact nofun

/-- Behind a call for a field the records are the same, unless it has fixed their size. -/
theorem DiagHandle.unchanged_stmt (h : self.errorinfo = some error)
    (hsound : error.errsize.toNat ≤ error.errorMessage.length) :
    (DiagHandle.stmt self).Unchanged ↔ error.recsize ≠ 0 ∨ error.errsize = 0 := by
  constructor
  · intro hunchanged
    by_contra hnot
    rw [not_or, not_not] at hnot
    obtain ⟨hzero, hne⟩ := hnot
    obtain ⟨h', reply, hcall, hsame⟩ := hunchanged 1 .native
    obtain ⟨errpos, reply', hcall'⟩ := getDiagField_stmt h hsound 1 .native
    obtain ⟨rfl, -⟩ := Prod.mk.inj (Option.some.inj (hcall.symm.trans hcall'))
    obtain ⟨h1, first, hfirst, hsuccess, -⟩ := getDiagRec_secondRecord h hsound hne
    obtain ⟨h2, second, hsecond, -, hfail⟩ := getDiagRec_secondRecord
      (@DiagStmt.errorinfo_some self error { error with
        errpos, recsize := probedRecsize error.recsize } h rfl) hsound hne
    have hreplies := hsame [secondRecord] (by
      rintro r hr
      rw [List.mem_singleton.1 hr]
      exact ⟨by decide, nofun⟩)
    rw [replies, replies, hfirst, hsecond] at hreplies
    obtain rfl := List.singleton_inj.1 (Option.some.inj hreplies)
    exact hfail (if_pos hzero) (hsuccess hzero)
  · intro hrec recNumber field
    obtain ⟨errpos, reply, hcall⟩ := getDiagField_stmt h hsound recNumber field
    refine ⟨_, reply, hcall, fun rs hrs ↦ ?_⟩
    refine replies_alike h (@DiagStmt.errorinfo_some self error { error with
      errpos, recsize := probedRecsize error.recsize } h rfl) ⟨rfl, ?_⟩ hrs
    exact hrec.symm.imp_right fun hne ↦ if_neg hne

end

/-! ## All handles -/

/-- The message fits in one record, or it has been read; and the records have a size. -/
def DiagHandle.NumberFits (size : Int16) : DiagHandle → Prop
  | .stmt self => ∀ error, self.errorinfo = some error →
      (error.errsize ≤ error.errpos ∨ (error.errsize.toNat : Int) + 1 ≤ size.toInt) ∧
        (error.recsize ≠ 0 ∨ error.errsize = 0)
  | .dbc _ => True

/-- The message of a connection is stored if there is memory for it. -/
theorem ErrorRequest.putMessage_isSome {r : ErrorRequest}
    (hmem : ∀ mem, r.szErrorMsg = some mem → r.cbErrorMsgMax.toInt ≤ mem.length)
    (msg : List UInt8) : ∃ szErrorMsg, r.putMessage msg = some szErrorMsg := by
  rw [putMessage]
  cases hmsg : r.szErrorMsg with
  | none => exact ⟨none, rfl⟩
  | some mem =>
    dsimp only
    by_cases hpos : r.cbErrorMsgMax.toInt ≤ 0
    · rw [if_pos hpos]
      exact ⟨some mem, rfl⟩
    have hroom := hmem mem hmsg
    rw [if_neg hpos, storeAll, if_pos]
    · exact ⟨_, rfl⟩
    · rw [List.length_append, List.length_take, List.length_singleton]
      omega

/-- The only record of a connection is there with its message, if it has one. -/
theorem DiagConn.pgapiConnectError_cases (conn : DiagConn) {r : ErrorRequest}
    (hmem : ∀ mem, r.szErrorMsg = some mem → r.cbErrorMsgMax.toInt ≤ mem.length) :
    ∃ reply, conn.pgapiConnectError r = some reply ∧
      (r.recNumber ≠ 1 → r.recNumber ≠ -1 → reply.retcode = .noData) ∧
      (r.recNumber = 1 → 0 < r.cbErrorMsgMax.toInt →
        (conn.ccGetError = none → reply.retcode = .noData) ∧
        ∀ msg, conn.ccGetError = some msg → reply.retcode = .success ∧
          reply.pcbErrorMsg = if r.pcbErrorMsg = true then
            some (if r.cbErrorMsgMax = 0 then Int16.ofNat msg.length
              else if r.cbErrorMsgMax.toInt ≤ msg.length then r.cbErrorMsgMax - 1
              else Int16.ofNat msg.length) else none) := by
  rw [pgapiConnectError]
  by_cases hother : r.recNumber ≠ 1 ∧ r.recNumber ≠ -1
  · rw [if_pos hother]
    exact ⟨_, rfl, fun _ _ ↦ rfl, fun hone ↦ (hother.1 hone).elim⟩
  rw [if_neg hother]
  have hnot : ∀ {p : Prop}, r.recNumber ≠ 1 → r.recNumber ≠ -1 → p :=
    fun hone hminus ↦ (hother ⟨hone, hminus⟩).elim
  by_cases hneg : r.cbErrorMsgMax.toInt < 0
  · rw [if_pos hneg]
    exact ⟨_, rfl, hnot, fun _ hpos ↦ absurd hpos (by omega)⟩
  rw [if_neg hneg]
  cases conn.ccGetError with
  | none =>
    obtain ⟨szErrorMsg, hput⟩ := ErrorRequest.putMessage_isSome hmem []
    dsimp only
    rw [hput, Option.map_some]
    exact ⟨_, rfl, hnot, fun _ _ ↦ ⟨fun _ ↦ rfl, nofun⟩⟩
  | some msg =>
    obtain ⟨szErrorMsg, hput⟩ := ErrorRequest.putMessage_isSome hmem msg
    dsimp only
    rw [hput, Option.map_some]
    refine ⟨_, rfl, hnot, fun _ hpos ↦ ⟨nofun, ?_⟩⟩
    rintro msg' ⟨⟩
    refine ⟨if_neg ?_, rfl⟩
    rintro ⟨-, hzero⟩
    rw [hzero] at hpos
    exact absurd hpos (by decide)

theorem DiagHandle.getDiagRec_dbc {conn : DiagConn} {r : ErrorRequest} {reply : ErrorReply}
    (h : conn.pgapiConnectError r = some reply) :
    (DiagHandle.dbc conn).pgapiGetDiagRec r = some (.dbc conn, reply) := by
  rw [pgapiGetDiagRec, h, Option.map_some]

/-- A connection has one record at most. -/
theorem DiagHandle.numberRight_dbc (conn : DiagConn) (requests : DiagRecRequests) :
    (DiagHandle.dbc conn).NumberRight requests := by
  obtain ⟨reply, hcall, -, hreply⟩ := @DiagConn.pgapiConnectError_cases conn
    ⟨1, false, false, some (List.replicate 513 0), 513, true, false⟩ (by
      rintro mem ⟨⟩
      rw [List.length_replicate]
      decide)
  obtain ⟨hnone, hsome⟩ := hreply rfl (by decide)
  cases hmsg : conn.ccGetError with
  | none =>
    have hnumber : (DiagHandle.dbc conn).pgapiGetDiagField 0 .number =
        some (.dbc conn, ⟨some 0, none, none, 4, .noData⟩) := by
      rw [pgapiGetDiagField, getDiagNumber, hcall, Option.map_some, hnone hmsg]
      rfl
    exact ⟨_, _, hnumber, by rintro ⟨⟩⟩
  | some msg =>
    obtain ⟨hretcode, hpcb⟩ := hsome msg hmsg
    have hnumber {pcbErrm : Int16} (hpcb : reply.pcbErrorMsg = some pcbErrm) :
        (DiagHandle.dbc conn).pgapiGetDiagField 0 .number =
          some (.dbc conn,
            ⟨some ((pcbErrm.toInt - 1).tdiv 512 + 1), none, none, 4, .success⟩) := by
      rw [pgapiGetDiagField, getDiagNumber, hcall, Option.map_some, hretcode, hpcb]
    rw [if_pos rfl] at hpcb
    refine ⟨_, _, hnumber hpcb, fun _ ↦ ⟨1, ?_, ?_⟩⟩
    · -- The length that is told is that of the text in the buffer.
      have hbound : ∀ pcbErrm : Int16, 0 ≤ pcbErrm.toInt → pcbErrm.toInt ≤ 512 →
          some ((pcbErrm.toInt - 1).tdiv 512 + 1) = some 1 := by
        intro pcbErrm hle hlt
        have hzero : (pcbErrm.toInt - 1).tdiv 512 = 0 := by
          rcases hle.lt_or_eq with hpos | hzero
          · exact Int.tdiv_eq_zero_of_lt (by omega) (by omega)
          · rw [← hzero]
            rfl
        rw [hzero]
        rfl
      refine hbound _ ?_ ?_
      all_goals
        rw [if_neg (by decide : ¬(513 : Int16) = 0)]
        split_ifs with hlong
        · decide
        · change ¬(513 : Int) ≤ msg.length at hlong
          rw [toInt_ofNat_of_lt (by omega)]
          omega
    · have hmem : ∀ k mem, (requests.request k).szErrorMsg = some mem →
          (requests.request k).cbErrorMsgMax.toInt ≤ mem.length := by
        intro k mem hmem
        rw [requests.sameSize k]
        exact requests.memory k mem hmem
      have hpos := requests.pos
      rw [← requests.sameSize 0] at hpos
      obtain ⟨first, hfirst, -, hdata⟩ := conn.pgapiConnectError_cases (hmem 0)
      obtain ⟨second, hsecond, hend, -⟩ := conn.pgapiConnectError_cases (hmem 1)
      refine ⟨[first], second, ?_, ?_, ?_⟩
      · change (DiagHandle.dbc conn).replies [requests.request 0, requests.request 1] = _
        rw [replies, getDiagRec_dbc hfirst, Option.bind_some]
        dsimp only
        rw [replies, getDiagRec_dbc hsecond]
        rfl
      · intro record hrecord
        rw [List.mem_singleton.1 hrecord]
        exact .inl ((hdata (requests.record 0) hpos).2 msg hmsg).1
      · have htwo : (requests.request 1).recNumber = 2 := requests.record 1
        refine hend ?_ ?_
        all_goals
          rw [htwo]
          decide

/-- A connection stays as it is. -/
theorem DiagHandle.unchanged_dbc (conn : DiagConn) : (DiagHandle.dbc conn).Unchanged := by
  intro recNumber field
  have hprobe : ∀ szSqlState pfNativeError, ∃ reply,
      (DiagHandle.dbc conn).pgapiGetDiagRec (probe recNumber szSqlState pfNativeError) =
        some (.dbc conn, reply) := by
    intro szSqlState pfNativeError
    obtain ⟨reply, hcall, -⟩ := @DiagConn.pgapiConnectError_cases conn
      (probe recNumber szSqlState pfNativeError) nofun
    exact ⟨reply, getDiagRec_dbc hcall⟩
  cases field with
  | number =>
    obtain ⟨reply, hcall, -⟩ := @DiagConn.pgapiConnectError_cases conn
      ⟨1, false, false, some (List.replicate 513 0), 513, true, false⟩ (by
        rintro mem ⟨⟩
        rw [List.length_replicate]
        decide)
    rw [pgapiGetDiagField, getDiagNumber, hcall, Option.map_some]
    split
    all_goals exact ⟨_, _, rfl, fun _ _ ↦ rfl⟩
  | native =>
    obtain ⟨reply, hcall⟩ := hprobe false true
    rw [pgapiGetDiagField, hcall]
    exact ⟨_, _, rfl, fun _ _ ↦ rfl⟩
  | sqlstate bufferLength =>
    obtain ⟨reply, hcall⟩ := hprobe true false
    rw [pgapiGetDiagField, hcall, Option.map_some]
    dsimp only
    by_cases hlen : bufferLength.toInt ≤ 5
    · rw [if_pos hlen]
      exact ⟨_, _, rfl, fun _ _ ↦ rfl⟩
    · rw [if_neg hlen]
      exact ⟨_, _, rfl, fun _ _ ↦ rfl⟩

/-- A statement without an error has no records. -/
theorem DiagHandle.diagRight_noError {self : DiagStmt} (h : self.errorinfo = none)
    (requests : DiagRecRequests) : (DiagHandle.stmt self).DiagRight requests := by
  have hcall : ∀ r, self.pgapiStmtError r = some (self, r.noData) := by
    intro r
    rw [DiagStmt.pgapiStmtError, h]
  have hnumber : (DiagHandle.stmt self).getDiagNumber =
      some (.stmt self, ⟨some 0, none, none, 4, .noData⟩) := by
    rw [getDiagNumber, hcall, Option.bind_some]
    exact if_neg (by rintro (h | h) <;> cases h)
  have hrec : ∀ r, (DiagHandle.stmt self).pgapiGetDiagRec r = some (.stmt self, r.noData) := by
    intro r
    rw [pgapiGetDiagRec, hcall, Option.map_some]
  refine ⟨⟨_, _, hnumber, nofun⟩, fun recNumber field ↦ ?_⟩
  cases field with
  | number => exact ⟨_, _, hnumber, fun _ _ ↦ rfl⟩
  | native =>
    rw [pgapiGetDiagField, hrec]
    exact ⟨_, _, rfl, fun _ _ ↦ rfl⟩
  | sqlstate bufferLength =>
    rw [pgapiGetDiagField, hrec, Option.map_some]
    dsimp only
    by_cases hlen : bufferLength.toInt ≤ 5
    · rw [if_pos hlen]
      exact ⟨_, _, rfl, fun _ _ ↦ rfl⟩
    · rw [if_neg hlen]
      exact ⟨_, _, rfl, fun _ _ ↦ rfl⟩

/-- The number of records is right exactly where the message fits. -/
theorem DiagHandle.diagRight_iff {h : DiagHandle} (hsound : h.Sound) (requests : DiagRecRequests) :
    h.DiagRight requests ↔ h.NumberFits requests.size := by
  cases h with
  | dbc conn => exact iff_of_true ⟨numberRight_dbc conn requests, unchanged_dbc conn⟩ trivial
  | stmt self =>
    cases herror : self.errorinfo with
    | none =>
      refine iff_of_true (diagRight_noError herror requests) ?_
      rw [NumberFits, herror]
      exact nofun
    | some error =>
      have hroom := DiagStmt.errorinfo_sound hsound herror
      rw [DiagRight, numberRight_stmt herror hroom, unchanged_stmt herror hroom, NumberFits, herror]
      constructor
      · rintro hright error' ⟨⟩
        exact hright
      · intro hfits
        exact hfits error rfl

/-- A statement with a message of three characters, none of which has been read. -/
def DiagStmt.threeCharacters : DiagStmt := ⟨none, 1, some (ascii "abc"), ascii "HY000"⟩

/-- Calls that ask for the records, with buffers of one size but without memory for the texts. -/
def DiagRecRequests.ofSize (size : Int16) (pos : 0 < size.toInt) : DiagRecRequests where
  size
  pos
  request k := ⟨Int16.ofNat (k + 1), true, true, none, size, true, false⟩
  record _ := rfl
  sameSize _ := rfl
  memory _ _ := nofun

theorem DiagHandle.diagRight_threeCharacters :
    (DiagHandle.stmt .threeCharacters).DiagRight (.ofSize 4 (by decide)) := by
  refine (@diagRight_iff (.stmt .threeCharacters) (by rintro pgerror ⟨⟩) _).2 ?_
  rintro error ⟨⟩
  exact ⟨.inr (by decide), .inl (by decide)⟩

/-- With buffers for one character there are three records, not one. -/
theorem DiagHandle.not_diagRight_threeCharacters :
    ¬∀ h : DiagHandle, h.Sound → ∀ requests, h.DiagRight requests := by
  intro hall
  obtain ⟨error, herror⟩ : ∃ error, DiagStmt.threeCharacters.errorinfo = some error := ⟨_, rfl⟩
  have hsound : (DiagHandle.stmt .threeCharacters).Sound := by rintro pgerror ⟨⟩
  have hright := (hall _ hsound (.ofSize 2 (by decide))).1
  have hfits := (numberRight_stmt herror (DiagStmt.errorinfo_sound hsound herror)).1 hright
  cases herror
  exact absurd hfits (by decide)

end PsqlOdbc
