import PsqlOdbc.ErrorInfo

/-!
# Which messages are delivered

The state behind the first calls is known, so each call gives the next piece.  The sequence goes
wrong where a length does not fit in a `SQLSMALLINT`, or where the record numbers end
(`delivers_iff`).
-/

namespace PsqlOdbc

open Lib Lib.CountingBuffer

section

variable {error : PgErrorInfo} {text msg : List UInt8} {r : ErrorRequest} {errnumber : Int32}

/-- What `ER_Constructor` keeps of a message. -/
def keptText (msg : List UInt8) : List UInt8 := msg.take (2 ^ 32 - 1)

theorem length_keptText (msg : List UInt8) : (keptText msg).length = min (2 ^ 32 - 1) msg.length :=
  List.length_take

theorem keptText_eq (h : msg.length < 2 ^ 32) : keptText msg = msg :=
  List.take_of_length_le (by omega)

/-- The error that `ER_Constructor` makes, and the state behind some calls. -/
theorem erConstructor_holds (h : errnumber ≠ 0) (msg : List UInt8) :
    ∃ error, erConstructor errnumber (some msg) = some error ∧ error.Holds (keptText msg) ∧
      error.errpos = 0 ∧ error.recsize = 0xffff := by
  rw [erConstructor, if_neg h]
  refine ⟨_, rfl, ⟨?_, ⟨_, rfl⟩⟩, rfl, rfl⟩
  have hle := length_keptText msg
  exact UInt32.toNat_ofNat_of_lt' (hle.trans_lt (by rw [UInt32.size]; omega))

theorem PgErrorInfo.Holds.update (h : error.Holds text) (recsize : UInt16) (errpos : UInt32) :
    ({ error with recsize := recsize, errpos := errpos } : PgErrorInfo).Holds text :=
  ⟨h.size, h.memory⟩

theorem toInt_ofNat_of_lt {n : Nat} (h : n < 2 ^ 15) : (Int16.ofNat n).toInt = n :=
  Int16.toInt_ofNat_of_lt h

/-- A length that does not fit is negative. -/
theorem toInt_ofNat_neg {n : Nat} (h : 2 ^ 15 ≤ n) (hlt : n < 2 ^ 16) :
    (Int16.ofNat n).toInt < 0 := by
  rw [Int16.toInt_ofNat', Int.bmod_def]
  have hsize : Int16.size = 65536 := rfl
  rw [hsize]
  split <;> omega

theorem erReturnError_of {error' : PgErrorInfo} {reply : ErrorReply}
    (h : error.returnError r = some (error', reply)) :
    erReturnError (some error) r = some (some error', reply) := by
  rw [erReturnError, h, Option.map_some]

/-- A piece whose length is told right. -/
theorem ErrorReply.gives_of {reply : ErrorReply} {piece : List UInt8} {n : Nat} (hn : n < 2 ^ 15)
    (hroom : (piece.length : Int) + 1 ≤ r.cbErrorMsgMax.toInt) (hle : piece.length ≤ n)
    (hstored : ∃ mem, r.szErrorMsg = some mem ∧
      reply.szErrorMsg = some (overwrite mem (piece ++ [0])))
    (htold : reply.pcbErrorMsg = some (Int16.ofNat n))
    (hretcode : reply.retcode = if piece.length < n then .successWithInfo else .success) :
    reply.Gives r piece := by
  refine ⟨hstored, hroom, ⟨_, htold, ?_, ?_⟩, ?_⟩
  · rw [toInt_ofNat_of_lt hn]
    omega
  · rw [toInt_ofNat_of_lt hn, hretcode]
    by_cases hlt : piece.length < n
    · rw [if_pos hlt]
      exact iff_of_false (fun h ↦ by cases h) (by omega)
    · rw [if_neg hlt]
      exact iff_of_true rfl (by omega)
  · rw [hretcode]
    by_cases hlt : piece.length < n
    · exact .inr (if_pos hlt)
    · exact .inl (if_neg hlt)

/-! ## From where the last call has stopped -/

theorem ErrorRequest.recsize_of_below (hbelow : r.recNumber.toInt < 1) :
    r.recsize 0xffff = 0xffff := by
  rw [ErrorRequest.recsize, if_neg (by decide), if_neg]
  rintro ⟨hone, -⟩
  rw [hone] at hbelow
  exact absurd hbelow (by decide)

theorem ErrorRequest.stapos_of_below (hbelow : r.recNumber.toInt < 1) (recsize : UInt16)
    (errpos : UInt32) : r.stapos recsize errpos = errpos := by
  rw [ErrorRequest.stapos, if_neg (by omega)]

/-- Each call gives the next piece. -/
theorem delivers_running (requests : RunningRequests) (hshort : text.length < 2 ^ 15)
    (hholds : error.Holds text) (hrec : error.recsize = 0xffff)
    (hpos : error.errpos.toNat ≤ text.length) (k : Nat) :
    ∃ n, Delivers (some error) ((List.range' k n).map requests.request)
      (text.drop error.errpos.toNat) := by
  induction hleft : text.length - error.errpos.toNat using Nat.strongRecOn
    generalizing error k with
  | ind left ih =>
    have hfits := requests.fits k
    have hroom := hfits.room
    have hlt16 := (requests.request k).cbErrorMsgMax.toInt_lt
    have hrecsize : (requests.request k).recsize error.recsize = 0xffff := by
      rw [hrec, ErrorRequest.recsize_of_below (requests.below k)]
    have hstapos := ErrorRequest.stapos_of_below (requests.below k) 0xffff error.errpos
    by_cases hend : text.length ≤ error.errpos.toNat
    · have hcall := hholds.returnError_end hrecsize (by rw [hstapos]; exact hend)
      rw [List.drop_eq_nil_of_le hend]
      exact ⟨1, .noData (erReturnError_of hcall)⟩
    · have hmax : (0xffff : UInt16).toNat = 65535 := rfl
      obtain ⟨piece, hpiece⟩ : ∃ piece, piece = (text.drop error.errpos.toNat).take
        ((requests.request k).cbErrorMsgMax.toInt - 1).toNat := ⟨_, rfl⟩
      obtain ⟨reply, hcall, hstored, htold, hretcode⟩ := hholds.returnError_piece hfits hrecsize
        hstapos (by omega) (by omega) hpiece
      have hlength : piece.length = min ((requests.request k).cbErrorMsgMax.toInt - 1).toNat
          (text.length - error.errpos.toNat) := by
        rw [hpiece, List.length_take, List.length_drop]
      have hnext : (UInt32.ofNat (error.errpos.toNat + piece.length)).toNat =
          error.errpos.toNat + piece.length :=
        UInt32.toNat_ofNat_of_lt' (by rw [UInt32.size]; omega)
      obtain ⟨n, hn⟩ := ih (text.length - (error.errpos.toNat + piece.length)) (by omega)
        (hholds.update 0xffff (UInt32.ofNat (error.errpos.toNat + piece.length))) rfl
        (by rw [hnext]; omega) (k + 1) (by rw [hnext])
      refine ⟨n + 1, ?_⟩
      have hsplit : text.drop error.errpos.toNat =
          piece ++ text.drop (error.errpos.toNat + piece.length) := by
        rw [← List.drop_drop, List.prefix_iff_eq_append.1]
        rw [hpiece]
        exact List.take_prefix _ _
      rw [hsplit, List.range'_succ, List.map_cons]
      refine .piece (erReturnError_of hcall) (ErrorReply.gives_of (by omega) (by omega) (by omega)
        hstored htold hretcode) ?_
      rw [hnext] at hn
      exact hn

/-- The first call tells a length that does not fit. -/
theorem not_delivers_running (requests : RunningRequests) (hlong : 2 ^ 15 ≤ text.length)
    (hholds : error.Holds text) (hrec : error.recsize = 0xffff) (hpos : error.errpos = 0) (n : Nat)
    (msg : List UInt8) :
    ¬Delivers (some error) ((List.range' 0 n).map requests.request) msg := by
  have hfits := requests.fits 0
  have hroom := hfits.room
  have hlt16 := (requests.request 0).cbErrorMsgMax.toInt_lt
  have hmax : (0xffff : UInt16).toNat = 65535 := rfl
  have hzero : (0 : UInt32).toNat = 0 := rfl
  have hrecsize : (requests.request 0).recsize error.recsize = 0xffff := by
    rw [hrec, ErrorRequest.recsize_of_below (requests.below 0)]
  have hstapos : (requests.request 0).stapos 0xffff error.errpos = 0 := by
    rw [ErrorRequest.stapos_of_below (requests.below 0), hpos]
  obtain ⟨reply, hcall, -, htold, hretcode⟩ := hholds.returnError_piece hfits hrecsize hstapos
    (by omega) (by omega) rfl
  cases n with
  | zero => exact fun h ↦ nomatch h
  | succ n =>
    rw [List.range'_succ, List.map_cons]
    generalize (List.range' (0 + 1) n).map requests.request = rs
    intro h
    cases h with
    | noData h =>
      rw [erReturnError_of hcall] at h
      cases h
      cases htold
    | piece h hgives _ =>
      rw [erReturnError_of hcall] at h
      cases h
      obtain ⟨m, hm, hnonneg, -⟩ := hgives.told
      rw [htold] at hm
      cases hm
      have hneg := toInt_ofNat_neg (n := min (text.length - (0 : UInt32).toNat)
        (0xffff : UInt16).toNat) (by omega) (by omega)
      omega

/-! ## Records -/

/-- The state in which a record is asked for. -/
structure RecordState (requests : RecordRequests) (text : List UInt8) (k : Nat)
    (error : PgErrorInfo) : Prop where
  holds : error.Holds text
  recsize : error.recsize ≠ 0
  applied : k ≠ 0 → (error.recsize.toNat : Int) = requests.size.toInt - 1

theorem RecordRequests.size_room (requests : RecordRequests) : 2 ≤ requests.size.toInt := by
  rw [← requests.sameSize 0]
  exact (requests.fits 0).room

/-- The size of a record is that of the first request. -/
theorem RecordState.recsize_eq {requests : RecordRequests} {k : Nat}
    (h : RecordState requests text k error) (hk : k < 32767) :
    (requests.request k).recsize error.recsize =
      UInt16.ofNat (requests.size.toInt - 1).toNat := by
  have hroom := requests.size_room
  have hlt := requests.size.toInt_lt
  have hrecord := requests.record k hk
  rw [ErrorRequest.recsize, if_neg h.recsize, requests.sameSize]
  by_cases hzero : k = 0
  · rw [if_pos ⟨Int16.toInt_inj.1 (by rw [hrecord, hzero]; rfl), by omega⟩]
  · have happlied := h.applied hzero
    rw [if_neg]
    · rw [← UInt16.toNat_inj, UInt16.toNat_ofNat_of_lt' (by rw [UInt16.size]; omega)]
      omega
    · rintro ⟨hone, -⟩
      rw [hone] at hrecord
      have : (1 : Int16).toInt = 1 := rfl
      omega

/-- A record starts behind the records before it. -/
theorem RecordRequests.stapos_eq (requests : RecordRequests) {k : Nat} (hk : k < 32767)
    (errpos : UInt32) :
    ((requests.request k).stapos (UInt16.ofNat (requests.size.toInt - 1).toNat) errpos).toNat =
      k * (requests.size.toInt - 1).toNat := by
  have hroom := requests.size_room
  have hlt := requests.size.toInt_lt
  have hrecord := requests.record k hk
  have hle : k * (requests.size.toInt - 1).toNat ≤ 32766 * 32766 :=
    Nat.mul_le_mul (by omega) (by omega)
  rw [ErrorRequest.stapos, if_pos (by omega),
    UInt16.toNat_ofNat_of_lt' (by rw [UInt16.size]; omega), hrecord,
    show ((k : Int) + 1 - 1).toNat = k by omega,
    UInt32.toNat_ofNat_of_lt' (by rw [UInt32.size]; omega)]

/-- Where the text ends, there is no record. -/
theorem RecordState.noData {requests : RecordRequests} {k : Nat}
    (h : RecordState requests text k error) (hk : k < 32767)
    (hend : text.length ≤ k * (requests.size.toInt - 1).toNat) :
    ∃ error', erReturnError (some error) (requests.request k) =
      some (some error', (requests.request k).noData) :=
  ⟨_, erReturnError_of (h.holds.returnError_end (h.recsize_eq hk)
    (by rw [requests.stapos_eq hk]; exact hend))⟩

/-- Before that, the call gives a record, as long as the buffer has room for. -/
theorem RecordState.piece {requests : RecordRequests} {k : Nat}
    (h : RecordState requests text k error) (hk : k < 32767)
    (hlt : k * (requests.size.toInt - 1).toNat < text.length) :
    ∃ error' reply, erReturnError (some error) (requests.request k) =
        some (some error', reply) ∧ RecordState requests text (k + 1) error' ∧
      reply.Gives (requests.request k) ((text.drop (k * (requests.size.toInt - 1).toNat)).take
        (requests.size.toInt - 1).toNat) ∧ reply.retcode = .success := by
  have hroom := requests.size_room
  have hlt16 := requests.size.toInt_lt
  have hsize : (UInt16.ofNat (requests.size.toInt - 1).toNat).toNat =
      (requests.size.toInt - 1).toNat := UInt16.toNat_ofNat_of_lt' (by rw [UInt16.size]; omega)
  have hstapos := requests.stapos_eq hk error.errpos
  have hsame := requests.sameSize k
  have hmin : min (text.length - k * (requests.size.toInt - 1).toNat)
      (requests.size.toInt - 1).toNat = ((text.drop (k * (requests.size.toInt - 1).toNat)).take
        (requests.size.toInt - 1).toNat).length := by
    rw [List.length_take, List.length_drop, Nat.min_comm]
  obtain ⟨reply, hcall, hstored, htold, hretcode⟩ := h.holds.returnError_piece (requests.fits k)
    (h.recsize_eq hk) rfl (by rw [hstapos]; exact hlt) (by rw [hsize, hsame]; omega) rfl
  rw [hstapos, hsize, hsame, hmin] at hretcode
  rw [hstapos, hsize, hmin] at htold
  rw [hstapos, hsame] at hstored
  refine ⟨_, reply, erReturnError_of hcall, ⟨h.holds.update _ _, ?_, fun _ ↦ ?_⟩,
    ErrorReply.gives_of (by rw [← hmin]; omega) (by rw [← hmin, hsame]; omega) (Nat.le_refl _)
      hstored htold hretcode, hretcode.trans (if_neg (Nat.lt_irrefl _))⟩
  · intro hzero
    have := congrArg UInt16.toNat hzero
    rw [hsize] at this
    have hzero16 : (0 : UInt16).toNat = 0 := rfl
    omega
  · dsimp only
    rw [hsize]
    omega

/-- The records from one on give the rest of the text if the record numbers reach its end. -/
theorem delivers_records (requests : RecordRequests)
    (hshort : text.length ≤ 32766 * (requests.size.toInt - 1).toNat) {k : Nat} (hk : k < 32767)
    (h : RecordState requests text k error) :
    ∃ n, k + n ≤ 32767 ∧ Delivers (some error) ((List.range' k n).map requests.request)
      (text.drop (k * (requests.size.toInt - 1).toNat)) := by
  induction hleft : 32766 - k generalizing error k with
  | zero =>
    obtain ⟨error', hcall⟩ := h.noData hk (by
      rw [show k = 32766 by omega]
      exact hshort)
    rw [List.drop_eq_nil_of_le (by rw [show k = 32766 by omega]; exact hshort)]
    exact ⟨1, by omega, .noData hcall⟩
  | succ left ih =>
    by_cases hend : text.length ≤ k * (requests.size.toInt - 1).toNat
    · obtain ⟨error', hcall⟩ := h.noData hk hend
      rw [List.drop_eq_nil_of_le hend]
      exact ⟨1, by omega, .noData hcall⟩
    · obtain ⟨error', reply, hcall, hstate, hgives, -⟩ := h.piece hk (by omega)
      obtain ⟨n, hn, hrest⟩ := ih (by omega) hstate (by omega)
      refine ⟨n + 1, by omega, ?_⟩
      rw [List.range'_succ, List.map_cons]
      have hsplit := List.take_append_drop (requests.size.toInt - 1).toNat
        (text.drop (k * (requests.size.toInt - 1).toNat))
      rw [List.drop_drop, ← Nat.succ_mul] at hsplit
      rw [← hsplit]
      exact .piece hcall hgives hrest

/-- If the text is longer, each call gives a record. -/
theorem not_delivers_records (requests : RecordRequests)
    (hlong : 32766 * (requests.size.toInt - 1).toNat < text.length) {k n : Nat}
    (hn : k + n ≤ 32767) (h : RecordState requests text k error) (msg : List UInt8) :
    ¬Delivers (some error) ((List.range' k n).map requests.request) msg := by
  induction n generalizing error k msg with
  | zero => exact fun h ↦ nomatch h
  | succ n ih =>
    have hlt : k * (requests.size.toInt - 1).toNat < text.length :=
      (Nat.mul_le_mul_right _ (by omega : k ≤ 32766)).trans_lt hlong
    obtain ⟨error', reply, hcall, hstate, -, hretcode⟩ := h.piece (by omega) hlt
    rw [List.range'_succ, List.map_cons]
    have hnever := fun msg ↦ ih (by omega : k + 1 + n ≤ 32767) hstate msg
    generalize (List.range' (k + 1) n).map requests.request = rs at hnever
    intro hdelivers
    cases hdelivers with
    | noData h =>
      rw [hcall] at h
      cases h
      cases hretcode
    | piece h _ hrest =>
      rw [hcall] at h
      cases h
      exact hnever _ hrest

/-! ## The message -/

/-- A message is delivered exactly if it is short enough. -/
theorem delivers_iff (h : errnumber ≠ 0) (msg : List UInt8) (asking : Asking) :
    asking.Delivers (erConstructor errnumber (some msg)) msg ↔ asking.Short msg := by
  obtain ⟨error, herror, hholds, hpos, hrec⟩ := erConstructor_holds h msg
  have hkept := length_keptText msg
  rw [herror]
  cases asking with
  | running requests =>
    constructor
    · rintro ⟨n, hn⟩
      by_contra hlong
      change ¬msg.length < 2 ^ 15 at hlong
      exact not_delivers_running requests (by omega) hholds hrec hpos n msg hn
    · intro hshort
      change msg.length < 2 ^ 15 at hshort
      rw [keptText_eq (by omega)] at hholds
      have hzero : (0 : UInt32).toNat = 0 := rfl
      have hrun := delivers_running requests hshort hholds hrec (by rw [hpos, hzero]; omega) 0
      rwa [hpos, hzero, List.drop_zero] at hrun
  | records requests =>
    have hroom := requests.size_room
    have hlt16 := requests.size.toInt_lt
    have hstate : RecordState requests (keptText msg) 0 error :=
      ⟨hholds, by rw [hrec]; decide, fun h ↦ absurd rfl h⟩
    constructor
    · rintro ⟨n, hn, hdelivers⟩
      by_contra hlong
      change ¬(msg.length : Int) ≤ 32766 * (requests.size.toInt - 1) at hlong
      exact not_delivers_records requests (by rw [hkept]; omega) (by omega) hstate msg hdelivers
    · intro hshort
      change (msg.length : Int) ≤ 32766 * (requests.size.toInt - 1) at hshort
      rw [keptText_eq (by omega)] at hstate
      obtain ⟨n, hn, hrun⟩ := delivers_records requests (by omega) (by omega) hstate
      rw [Nat.zero_mul, List.drop_zero] at hrun
      exact ⟨n, by omega, hrun⟩

end

/-- Requests with `RecNumber` -1 and 512 bytes. -/
def runningRequests : RunningRequests where
  request _ := ⟨-1, true, true, some (List.replicate 512 0), 512, true, false⟩
  fits _ := ⟨by decide, ⟨_, rfl, by rw [List.length_replicate]; decide⟩, rfl⟩
  below _ := by decide

/-- A short message is delivered. -/
theorem delivers_short :
    (Asking.running runningRequests).Delivers (erConstructor 1 (some [0x6f, 0x6b])) [0x6f, 0x6b] :=
  (delivers_iff (by decide) [0x6f, 0x6b] (.running runningRequests)).2 (by
    show 2 < 2 ^ 15
    decide)

/-- The length of a message of 32768 bytes is told as -32768. -/
theorem not_delivers_long :
    ¬∀ (errnumber : Int32) (msg : List UInt8) (asking : Asking), errnumber ≠ 0 →
      asking.Delivers (erConstructor errnumber (some msg)) msg := by
  intro h
  obtain ⟨n, hn⟩ := h 1 (List.replicate (2 ^ 15) 0x61) (.running runningRequests) (by decide)
  obtain ⟨error, herror, hholds, hpos, hrec⟩ :=
    @erConstructor_holds 1 (by decide) (List.replicate (2 ^ 15) 0x61)
  rw [herror] at hn
  exact not_delivers_running runningRequests (by
    rw [length_keptText, List.length_replicate]
    decide) hholds hrec hpos n _ hn

end PsqlOdbc
