import PsqlOdbc.Lib.Doubling
import PsqlOdbc.Lib.Stores
import PsqlOdbc.Statement.BatchExecute

/-!
# Messages of errors (`environ.c`)

`ER_ReturnError` gives a message in pieces, by record numbers or from where the last call has
stopped.  `Asking.Delivers` is what the application may expect of a sequence of calls.
-/

namespace PsqlOdbc

open Lib Lib.CountingBuffer

/-! ## The driver -/

/-- `PG_ErrorInfo`, with the memory of `__error_message`. -/
structure PgErrorInfo where
  status : UInt32
  errsize : UInt32
  errpos : UInt32
  recsize : UInt16
  sqlstate : List UInt8
  errorMessage : List UInt8
  deriving DecidableEq

/-- `sizeof(error->__error_message)`. -/
def sizeofErrorMessage : Nat := 44

/-- `ER_Constructor`: there is no error with the number `DESC_OK`. -/
def erConstructor (errnumber : Int32) (msg : Option (List UInt8)) : Option PgErrorInfo :=
  if errnumber = 0 then none
  else
    let text := (msg.getD []).take (2 ^ 32 - 1) -- not more than `UINT32_MAX`
    some {
      status := errnumber.toUInt32
      errsize := UInt32.ofNat text.length
      errpos := 0
      recsize := 0xffff -- `-1`
      sqlstate := []
      errorMessage := text ++ 0 :: List.replicate (sizeofErrorMessage - (text.length + 1)) 0 }

/-- The arguments of `ER_ReturnError`: pointers that are only stored through are Booleans. -/
structure ErrorRequest where
  recNumber : Int16
  szSqlState : Bool
  pfNativeError : Bool
  /-- The memory of `szErrorMsg`. -/
  szErrorMsg : Option (List UInt8)
  cbErrorMsgMax : Int16
  pcbErrorMsg : Bool
  /-- `flag` has `PODBC_ALLOW_PARTIAL_EXTRACT`. -/
  partialOk : Bool

/-- What `ER_ReturnError` returns and stores. -/
structure ErrorReply where
  szSqlState : Option (List UInt8)
  pfNativeError : Option Int32
  szErrorMsg : Option (List UInt8)
  pcbErrorMsg : Option Int16
  retcode : Retcode
  deriving DecidableEq

/-- Nothing is stored. -/
def ErrorRequest.noData (r : ErrorRequest) : ErrorReply :=
  ⟨none, none, r.szErrorMsg, none, .noData⟩

/-- `recsize` for the call. -/
def ErrorRequest.recsize (r : ErrorRequest) (recsize : UInt16) : UInt16 :=
  if recsize = 0 then
    -- Apply the first request.
    if 0 < r.cbErrorMsgMax.toInt then UInt16.ofNat (r.cbErrorMsgMax.toInt - 1).toNat
    else 511 -- `DRVMNGRDIV`
  else if r.recNumber = 1 ∧ 0 < r.cbErrorMsgMax.toInt then
    UInt16.ofNat (r.cbErrorMsgMax.toInt - 1).toNat
  else recsize

/-- `stapos`. -/
def ErrorRequest.stapos (r : ErrorRequest) (recsize : UInt16) (errpos : UInt32) : UInt32 :=
  if 0 < r.recNumber.toInt then UInt32.ofNat ((r.recNumber.toInt - 1).toNat * recsize.toNat)
  else errpos

/-- `pcblen`, of what is left of the message. -/
def pcblen (recsize : UInt16) (left : Nat) : Nat :=
  if recsize.toNat < left then recsize.toNat else left

/-- `wrtlen`.  A negative `cbErrorMsgMax` is large where it is compared with an unsigned length. -/
def ErrorRequest.wrtlen (r : ErrorRequest) (recsize : UInt16) (left : Nat) : Nat :=
  let room := (wrapUnsigned 32 (r.cbErrorMsgMax.toInt - 1)).toNat
  let wrtlen :=
    if r.cbErrorMsgMax.toInt = 0 then 0
    else if wrapUnsigned 32 r.cbErrorMsgMax.toInt ≤ left then
      if r.partialOk = true then room
      else if r.cbErrorMsgMax.toInt ≤ recsize.toNat then room
      else recsize.toNat
    else left
  if pcblen recsize left < wrtlen then pcblen recsize left else wrtlen

/-- `memcpy` of `wrtlen` bytes and the terminator.  There is no result if this reads behind the
message or stores behind the memory of the caller. -/
def ErrorRequest.copy (r : ErrorRequest) (msg : List UInt8) (wrtlen : Nat) :
    Option (Option (List UInt8)) :=
  match r.szErrorMsg with
  | none => some none
  | some mem =>
    if r.cbErrorMsgMax.toInt ≤ 0 then some (some mem)
    else if msg.length < wrtlen then none
    else (storeAll mem 0 (msg.take wrtlen ++ [0])).map some

/-- `ER_ReturnError` with an error. -/
def PgErrorInfo.returnError (error : PgErrorInfo) (r : ErrorRequest) :
    Option (PgErrorInfo × ErrorReply) :=
  let error := { error with recsize := r.recsize error.recsize }
  let stapos := r.stapos error.recsize error.errpos
  if error.errsize ≤ stapos then some (error, r.noData)
  else
    let left := error.errsize.toNat - stapos.toNat
    let wrtlen := r.wrtlen error.recsize left
    (r.copy (error.errorMessage.drop stapos.toNat) wrtlen).map fun szErrorMsg ↦
      ({ error with errpos := UInt32.ofNat (stapos.toNat + wrtlen) },
        { szSqlState := if r.szSqlState = true then some (error.sqlstate.take 5) else none
          pfNativeError := if r.pfNativeError = true then some error.status.toInt32 else none
          szErrorMsg := szErrorMsg
          pcbErrorMsg :=
            if r.pcbErrorMsg = true then some (Int16.ofNat (pcblen error.recsize left)) else none
          retcode := if wrtlen < pcblen error.recsize left then .successWithInfo else .success })

/-- `ER_ReturnError`. -/
def erReturnError (pgerror : Option PgErrorInfo) (r : ErrorRequest) :
    Option (Option PgErrorInfo × ErrorReply) :=
  match pgerror with
  | none => some (none, r.noData)
  | some error => (error.returnError r).map fun (error, reply) ↦ (some error, reply)

/-! ## What the application may expect -/

/-- There is room for a byte and the terminator, and a place for the length. -/
structure ErrorRequest.Fits (r : ErrorRequest) : Prop where
  room : 2 ≤ r.cbErrorMsgMax.toInt
  memory : ∃ mem, r.szErrorMsg = some mem ∧ r.cbErrorMsgMax.toInt ≤ mem.length
  told : r.pcbErrorMsg = true

/-- A reply that gives `piece`. -/
structure ErrorReply.Gives (reply : ErrorReply) (r : ErrorRequest) (piece : List UInt8) : Prop where
  /-- The bytes behind the terminator are as before. -/
  stored : ∃ mem, r.szErrorMsg = some mem ∧
    reply.szErrorMsg = some (overwrite mem (piece ++ [0]))
  room : (piece.length : Int) + 1 ≤ r.cbErrorMsgMax.toInt
  told : ∃ n : Int16, reply.pcbErrorMsg = some n ∧ 0 ≤ n.toInt ∧
    (reply.retcode = .success ↔ n.toInt = piece.length)
  succeeds : reply.retcode = .success ∨ reply.retcode = .successWithInfo

/-- Calls that give a text in pieces; the last one tells that there is no more. -/
inductive Delivers : Option PgErrorInfo → List ErrorRequest → List UInt8 → Prop
  | noData {pgerror pgerror' : Option PgErrorInfo} {r : ErrorRequest}
      (h : erReturnError pgerror r = some (pgerror', r.noData)) : Delivers pgerror [r] []
  | piece {pgerror pgerror' : Option PgErrorInfo} {r : ErrorRequest} {reply : ErrorReply}
      {rs : List ErrorRequest} {piece text : List UInt8}
      (h : erReturnError pgerror r = some (pgerror', reply)) (hgives : reply.Gives r piece)
      (htext : Delivers pgerror' rs text) : Delivers pgerror (r :: rs) (piece ++ text)

/-- Requests for what the calls before have left. -/
structure RunningRequests where
  request : ℕ → ErrorRequest
  fits : ∀ k, (request k).Fits
  below : ∀ k, (request k).recNumber.toInt < 1

/-- Requests for the records 1, 2, 3, …  There is no record number 32768. -/
structure RecordRequests where
  size : Int16
  request : ℕ → ErrorRequest
  fits : ∀ k, (request k).Fits
  record : ∀ k < 32767, (request k).recNumber.toInt = k + 1
  sameSize : ∀ k, (request k).cbErrorMsgMax = size

/-- A sequence of requests. -/
inductive Asking
  | running (requests : RunningRequests)
  | records (requests : RecordRequests)

/-- The first requests give the text and that there is no more. -/
def Asking.Delivers (pgerror : Option PgErrorInfo) (text : List UInt8) : Asking → Prop
  | .running requests => ∃ n,
      PsqlOdbc.Delivers pgerror ((List.range' 0 n).map requests.request) text
  | .records requests => ∃ n ≤ 32767,
      PsqlOdbc.Delivers pgerror ((List.range' 0 n).map requests.request) text

/-- A message that is short enough: its length has to fit in a `SQLSMALLINT`, or the number of its
records. -/
def Asking.Short (msg : List UInt8) : Asking → Prop
  | .running _ => msg.length < 2 ^ 15
  | .records requests => (msg.length : Int) ≤ 32766 * (requests.size.toInt - 1)

/-! ## One call -/

/-- The error has the message `text`. -/
structure PgErrorInfo.Holds (error : PgErrorInfo) (text : List UInt8) : Prop where
  size : error.errsize.toNat = text.length
  memory : ∃ rest, error.errorMessage = text ++ 0 :: rest

section

variable {error : PgErrorInfo} {text mem : List UInt8} {r : ErrorRequest} {recsize : UInt16}
  {left : Nat}

theorem pcblen_eq_min (recsize : UInt16) (left : Nat) :
    pcblen recsize left = min left recsize.toNat := by
  rw [pcblen]
  split <;> omega

/-- As many bytes are stored as there is room for, and not more than the record has. -/
theorem ErrorRequest.Fits.wrtlen (h : r.Fits) (hrec : r.cbErrorMsgMax.toInt - 1 ≤ recsize.toNat) :
    r.wrtlen recsize left = min left (r.cbErrorMsgMax.toInt - 1).toNat := by
  have hroom := h.room
  have hlt := r.cbErrorMsgMax.toInt_lt
  have hsize : wrapUnsigned 32 r.cbErrorMsgMax.toInt = r.cbErrorMsgMax.toInt :=
    Int.emod_eq_of_lt (by omega) (by omega)
  have hone : wrapUnsigned 32 (r.cbErrorMsgMax.toInt - 1) = r.cbErrorMsgMax.toInt - 1 :=
    Int.emod_eq_of_lt (by omega) (by omega)
  rw [ErrorRequest.wrtlen, hsize, hone, pcblen_eq_min]
  split_ifs <;> omega

theorem ErrorRequest.Fits.copy (h : r.Fits) {msg : List UInt8} {n : Nat}
    (hmem : r.szErrorMsg = some mem) (hn : n ≤ msg.length)
    (hroom : (n : Int) + 1 ≤ r.cbErrorMsgMax.toInt) :
    r.copy msg n = some (some (overwrite mem (msg.take n ++ [0]))) := by
  obtain ⟨mem', hmem', hle⟩ := h.memory
  obtain rfl : mem = mem' := Option.some.inj (hmem.symm.trans hmem')
  have hstore := @storeAll_append _ [] mem (msg.take n ++ [0])
    (by rw [List.length_append, List.length_take, List.length_singleton]; omega)
  rw [List.nil_append, List.length_nil, List.nil_append] at hstore
  rw [ErrorRequest.copy, hmem]
  dsimp only
  rw [if_neg (by omega), if_neg (by omega), hstore, Option.map_some]

/-- Where the message ends, there is no more data. -/
theorem PgErrorInfo.Holds.returnError_end (h : error.Holds text)
    (hrec : r.recsize error.recsize = recsize)
    (hend : text.length ≤ (r.stapos recsize error.errpos).toNat) :
    error.returnError r = some ({ error with recsize := recsize }, r.noData) := by
  rw [PgErrorInfo.returnError, hrec]
  dsimp only
  rw [if_pos (by rw [UInt32.le_iff_toNat_le, h.size]; exact hend)]

/-- Before that, the call gives the piece that starts at `stapos`. -/
theorem PgErrorInfo.Holds.returnError_piece (h : error.Holds text) (hfits : r.Fits)
    (hrec : r.recsize error.recsize = recsize) {stapos : UInt32}
    (hstapos : r.stapos recsize error.errpos = stapos) (hlt : stapos.toNat < text.length)
    (hroom : r.cbErrorMsgMax.toInt - 1 ≤ recsize.toNat) {piece : List UInt8}
    (hpiece : piece = (text.drop stapos.toNat).take (r.cbErrorMsgMax.toInt - 1).toNat) :
    ∃ reply, error.returnError r =
        some ({ error with
          recsize := recsize, errpos := UInt32.ofNat (stapos.toNat + piece.length) }, reply) ∧
      (∃ mem, r.szErrorMsg = some mem ∧
        reply.szErrorMsg = some (overwrite mem (piece ++ [0]))) ∧
      reply.pcbErrorMsg = some (Int16.ofNat (min (text.length - stapos.toNat) recsize.toNat)) ∧
      reply.retcode =
        if piece.length < min (text.length - stapos.toNat) recsize.toNat then .successWithInfo
        else .success := by
  obtain ⟨mem, hmem, -⟩ := hfits.memory
  obtain ⟨rest, hmessage⟩ := h.memory
  have hge := hfits.room
  have hlength : piece.length =
      min (text.length - stapos.toNat) (r.cbErrorMsgMax.toInt - 1).toNat := by
    rw [hpiece, List.length_take, List.length_drop, Nat.min_comm]
  have htake : (error.errorMessage.drop stapos.toNat).take piece.length = piece := by
    rw [hmessage, List.drop_append_of_le_length hlt.le, List.take_append_of_le_length
      (by rw [List.length_drop]; omega), hlength, hpiece, ← List.length_drop,
      Nat.min_comm, ← List.take_eq_take_min]
  have hcopy : r.copy (error.errorMessage.drop stapos.toNat) piece.length =
      some (some (overwrite mem (piece ++ [0]))) := by
    rw [hfits.copy hmem (by rw [hmessage, List.length_drop, List.length_append]; omega) (by omega),
      htake]
  rw [PgErrorInfo.returnError, hrec]
  dsimp only
  rw [hstapos, if_neg (by rw [UInt32.le_iff_toNat_le, h.size]; omega), h.size,
    hfits.wrtlen hroom, ← hlength, hcopy, Option.map_some, pcblen_eq_min, hfits.told]
  exact ⟨_, rfl, ⟨mem, hmem, rfl⟩, rfl, rfl⟩

end

end PsqlOdbc
