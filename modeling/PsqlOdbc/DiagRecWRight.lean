import PsqlOdbc.DiagRecW
import PsqlOdbc.ErrorInfoRight

/-!
# Which messages arrive in wide records

The records of a message are cut bytes.  A record that begins or ends within a character cannot
be converted, and in a locale of UTF-8 it is no text either, so the application gets a text of ASCII
characters for it.  As there are fewer other characters in what it gets than in the message, the
message has not arrived (`delivered_iff`).
-/

namespace PsqlOdbc

open Lib Lib.CountingBuffer

/-! ## One call -/

/-- A locale of UTF-8, or of fewer characters: what is not UTF-8 is no text of the locale. -/
def LocaleToSqlwchar.Rejects (locale : LocaleToSqlwchar) : Prop :=
  ∀ ldt n, (∀ chars, ldt ≠ utf8Encode chars) →
    (locale.convert ldt n).1 = -1 ∨ (locale.convert ldt n).1 = -2

/-- What `PGAPI_GetDiagRec` has stored for a record. -/
structure ErrorReply.Stores (reply : ErrorReply) (r : WideRequest) (sqlstate record : List UInt8) :
    Prop where
  retcode : reply.retcode = .success
  state : reply.szSqlState = some (sqlstate.take 5)
  text : ∃ rest, reply.szErrorMsg = some (record ++ 0 :: rest)
  told : ∃ tlen, reply.pcbErrorMsg = some tlen ∧ tlen.toInt = record.length
  room : (record.length : Int) + 1 ≤ r.cbErrorMsgMax.toInt
  noNul : 0 ∉ record

section

variable {reply : ErrorReply} {r : WideRequest} {sqlstate record : List UInt8} {mem : List UInt16}
  {locale : LocaleToSqlwchar}

theorem WideRequest.convert_of_some (h : reply.Stores r sqlstate record)
    (hmem : r.cbErrorMsgMax.toInt ≤ mem.length) {rest : List UInt8} {tlen : Int16}
    (htlen : tlen.toInt = record.length) {units : List UInt16}
    (hloop : utf8Loop false true none (record ++ 0 :: rest) record.length = some units)
    (hunits : units.length ≤ record.length) (qstrAnsi : List UInt8) :
    r.convert locale qstrAnsi (record ++ 0 :: rest) tlen .success mem =
      some (Int16.ofNat units.length, .success, overwrite mem (units ++ [0])) := by
  have hroom := h.room
  have hlt := r.cbErrorMsgMax.toInt_lt
  have hlength : utf8Length (record ++ 0 :: rest) tlen.toInt = record.length := by
    rw [utf8Length, if_neg (by omega), htlen, Int.toNat_natCast]
  rw [← hlength] at hloop
  have htold : (Int16.ofNat units.length).toInt = units.length := toInt_ofNat_of_lt (by omega)
  have hcall := @utf8ToUcs2LfBuffer_of_some _ _ false true mem r.cbErrorMsgMax.toInt.toNat _
    (by omega) hloop
  rw [if_pos (by omega)] at hcall
  rw [WideRequest.convert]
  dsimp only
  rw [hcall, Option.bind_some]
  dsimp only
  have hne : ¬units.length = sqlulenMinusOne := by
    rw [sqlulenMinusOne]
    omega
  have hle : ¬r.cbErrorMsgMax.toInt ≤ (Int16.ofNat units.length).toInt := by omega
  have hnonneg : ¬(Int16.ofNat units.length).toInt < 0 := by omega
  rw [if_neg hne]
  dsimp only
  rw [if_neg hle, if_neg hnonneg]

/-- What is no text gives the state only. -/
theorem WideRequest.convert_of_none (h : reply.Stores r sqlstate record)
    (hmem : r.cbErrorMsgMax.toInt ≤ mem.length) {rest : List UInt8} {tlen : Int16}
    (htlen : tlen.toInt = record.length)
    (hloop : utf8Loop false true none (record ++ 0 :: rest) record.length = none)
    (hlocale : locale.Rejects) {q : List UInt8} (hascii : ∀ b ∈ q, 0 < b.toNat ∧ b.toNat < 0x80) :
    ∃ mem' err, r.convert locale q (record ++ 0 :: rest) tlen .success mem =
        some (Int16.ofNat err.length, .success, overwrite mem' (if err.length <
          r.cbErrorMsgMax.toInt.toNat then err ++ [0] else err.take r.cbErrorMsgMax.toInt.toNat)) ∧
      IsAscii err ∧ 0 ∉ err := by
  have hroom := h.room
  have hlength : utf8Length (record ++ 0 :: rest) tlen.toInt = record.length := by
    rw [utf8Length, if_neg (by omega), htlen, Int.toNat_natCast]
  have htake : (record ++ 0 :: rest).takeWhile (· ≠ 0) = record := by
    rw [List.takeWhile_append_of_pos]
    · exact List.append_nil record
    · intro x hx
      exact decide_eq_true fun hzero ↦ h.noNul (hzero ▸ hx)
  have hnot : ∀ chars, record ≠ utf8Encode chars := by
    rintro chars rfl
    have h0 : Char.ofNat 0 ∉ chars := by
      intro hmem
      refine h.noNul (List.mem_flatMap.2 ⟨_, hmem, ?_⟩)
      decide
    rw [utf8Loop_text h0 true none _ rfl] at hloop
    cases hloop
  rw [← hlength] at hloop
  obtain ⟨mem', hcall, hlen⟩ := @utf8ToUcs2LfBuffer_of_none _ _ false mem
    r.cbErrorMsgMax.toInt.toNat (by omega) hloop
  obtain ⟨l, hl, hneg⟩ : ∃ l, (locale.convert record r.cbErrorMsgMax.toInt.toNat).1 = l ∧
      (Int16.ofInt l).toInt < 0 := by
    rcases hlocale record r.cbErrorMsgMax.toInt.toNat hnot with hl | hl
    · exact ⟨_, hl, by decide⟩
    · exact ⟨_, hl, by decide⟩
  have hbounded := locale.bounded record r.cbErrorMsgMax.toInt.toNat
  have hmem' : r.cbErrorMsgMax.toInt.toNat ≤
      (overwrite mem' (locale.convert record r.cbErrorMsgMax.toInt.toNat).2).length := by
    rw [length_overwrite (by omega)]
    omega
  have herrc : ∀ b ∈ errc q, 0 < b.toNat ∧ b.toNat < 0x80 := by
    intro b hb
    rcases List.mem_append.1 (List.mem_of_mem_take hb) with hb | hb
    · have hall : (ascii "Error: SqlState=").all fun b ↦ 0 < b.toNat ∧ b.toNat < 0x80 := by decide
      exact of_decide_eq_true (List.all_eq_true.1 hall b hb)
    · exact hascii b hb
  have herrlen : utf8Length (errc q ++ [0]) (-1) = (errc q).length := by
    rw [utf8Length, if_pos (by decide), List.takeWhile_append_of_pos]
    · rw [List.takeWhile_cons_of_neg (by decide), List.append_nil]
    · intro x hx
      refine decide_eq_true fun hzero ↦ ?_
      rw [hzero] at hx
      exact absurd (herrc 0 hx).1 (by decide)
  have herr := @utf8Loop_ascii (errc q) false herrc none [0]
  rw [← herrlen] at herr
  refine ⟨overwrite mem' (locale.convert record r.cbErrorMsgMax.toInt.toNat).2,
    (errc q).map fun b ↦ UInt16.ofNat b.toNat, ?_, ?_, ?_⟩
  · rw [WideRequest.convert]
    dsimp only
    rw [hcall, Option.bind_some, if_pos rfl, htake]
    dsimp only
    have hle : ¬r.cbErrorMsgMax.toInt ≤ (Int16.ofInt l).toInt := by omega
    rw [hl, if_neg hle, if_pos hneg, utf8ToUcs2LfBuffer_of_some hmem' herr, Option.map_some]
  · intro u hu
    obtain ⟨b, hb, rfl⟩ := List.mem_map.1 hu
    have hlt := (herrc b hb).2
    rw [uint16_toNat_ofNat (by omega)]
    exact hlt
  · intro hu
    obtain ⟨b, hb, hzero⟩ := List.mem_map.1 hu
    have hrange := herrc b hb
    have := congrArg UInt16.toNat hzero
    rw [uint16_toNat_ofNat (by omega)] at this
    have hnat : (0 : UInt16).toNat = 0 := rfl
    omega

theorem WideRequest.Fits.storeState (h : r.Fits) (qstrAnsi : List UInt8) :
    ∃ state, r.storeState qstrAnsi = some state := by
  rw [WideRequest.storeState]
  cases hstate : r.szSqlState with
  | none => exact ⟨none, rfl⟩
  | some mem =>
    obtain ⟨n, mem', hcall⟩ := @utf8ToUcs2LfBuffer_isSome (qstrAnsi ++ [0]) (-1) false false mem 6
      (h.state mem hstate)
    dsimp only
    rw [hcall]
    exact ⟨some mem', rfl⟩

/-- The reply for a record. -/
theorem WideRequest.widen_eq (h : reply.Stores r sqlstate record) {rest : List UInt8}
    (htext : reply.szErrorMsg = some (record ++ 0 :: rest)) {tlen : Int16}
    (htold : reply.pcbErrorMsg = some tlen) (hlen : tlen.toInt = record.length)
    (hmem : r.szErrorMsg = some mem) {state : Option (List UInt16)}
    (hstate : r.storeState (sqlstate.take 5) = some state) :
    r.widen locale reply =
      (r.convert locale (sqlstate.take 5) (record ++ 0 :: rest) tlen .success mem).map
        fun (tlen, ret, mem) ↦
          { szSqlState := state
            pfNativeError := reply.pfNativeError
            szErrorMsg := some mem
            pcbErrorMsg := if r.pcbErrorMsg = true then some tlen else none
            retcode := ret } := by
  have hroom := h.room
  rw [WideRequest.widen, if_pos (Or.inl h.retcode), h.state, htext, htold, hmem, h.retcode]
  dsimp only [Option.getD_some]
  rw [if_pos (by omega)]
  rw [hstate, Option.bind_some, Option.map_map]
  rfl

theorem WideRequest.widen_of_some (h : reply.Stores r sqlstate record) (hfits : r.Fits)
    {units : List UInt16}
    (hloop : ∀ rest, utf8Loop false true none (record ++ 0 :: rest) record.length = some units)
    (hunits : units.length ≤ record.length) (h0 : 0 ∉ units) :
    ∃ reply', r.widen locale reply = some reply' ∧ reply'.Gives r units := by
  obtain ⟨mem, hmem, hle⟩ := hfits.memory
  obtain ⟨rest, htext⟩ := h.text
  obtain ⟨tlen, htold, hlen⟩ := h.told
  obtain ⟨state, hstate⟩ := hfits.storeState (sqlstate.take 5)
  have hroom := h.room
  have hlt := r.cbErrorMsgMax.toInt_lt
  have hnat : (Int16.ofNat units.length).toInt = units.length := toInt_ofNat_of_lt (by omega)
  rw [widen_eq h htext htold hlen hmem hstate, convert_of_some h hle hlen (hloop rest) hunits]
  refine ⟨_, rfl, ⟨mem, hmem, rfl⟩, h0, by omega, ?_, Or.inl rfl⟩
  intro n hn
  dsimp only at hn
  split_ifs at hn
  rw [← Option.some.inj hn, hnat]
  exact ⟨Int.natCast_nonneg _, fun _ ↦ rfl⟩

theorem WideRequest.convert_retcode {q mtxt : List UInt8} {tlen tlen' : Int16} {ret : Retcode}
    {mem' : List UInt16}
    (h : r.convert locale q mtxt tlen .success mem = some (tlen', ret, mem')) :
    ret ≠ .noData := by
  rw [WideRequest.convert] at h
  dsimp only at h
  obtain ⟨⟨ulen, mem1⟩, -, h⟩ := Option.bind_eq_some_iff.1 h
  dsimp only at h
  generalize (if ulen = sqlulenMinusOne then _ else _ : Int16 × List UInt16) = x at h
  obtain ⟨tlen1, mem2⟩ := x
  dsimp only at h
  split_ifs at h
  · cases h
    exact Retcode.noConfusion
  · obtain ⟨⟨n, mem3⟩, -, h⟩ := Option.map_eq_some_iff.1 h
    cases h
    exact Retcode.noConfusion
  · cases h
    exact Retcode.noConfusion

/-- A record is never told as no data. -/
theorem WideRequest.widen_retcode (h : reply.Stores r sqlstate record) (hfits : r.Fits)
    {reply' : WideReply} (hreply : r.widen locale reply = some reply') :
    reply'.retcode ≠ .noData := by
  obtain ⟨mem, hmem, hle⟩ := hfits.memory
  obtain ⟨rest, htext⟩ := h.text
  obtain ⟨tlen, htold, hlen⟩ := h.told
  obtain ⟨state, hstate⟩ := hfits.storeState (sqlstate.take 5)
  rw [widen_eq h htext htold hlen hmem hstate] at hreply
  obtain ⟨⟨tlen', ret, mem'⟩, hconvert, rfl⟩ := Option.map_eq_some_iff.1 hreply
  exact convert_retcode hconvert

/-- What the application gets for a record that is no text. -/
theorem WideRequest.widen_of_none (h : reply.Stores r sqlstate record) (hfits : r.Fits)
    (hloop : ∀ rest, utf8Loop false true none (record ++ 0 :: rest) record.length = none)
    (hlocale : locale.Rejects) (hascii : ∀ b ∈ sqlstate, 0 < b.toNat ∧ b.toNat < 0x80)
    {reply' : WideReply} (hreply : r.widen locale reply = some reply') {piece : List UInt16}
    (hgives : reply'.Gives r piece) : IsAscii piece := by
  obtain ⟨mem, hmem, hle⟩ := hfits.memory
  obtain ⟨rest, htext⟩ := h.text
  obtain ⟨tlen, htold, hlen⟩ := h.told
  obtain ⟨state, hstate⟩ := hfits.storeState (sqlstate.take 5)
  obtain ⟨mem', err, hconvert, herr, h0⟩ := convert_of_none h hle hlen (hloop rest) hlocale
    fun b hb ↦ hascii b (List.mem_of_mem_take hb)
  rw [widen_eq h htext htold hlen hmem hstate, hconvert] at hreply
  obtain rfl := Option.some.inj hreply
  obtain ⟨mem'', -, hstored⟩ := hgives.stored
  have hover := Option.some.inj hstored
  have hroom := hgives.room
  by_cases hfit : err.length < r.cbErrorMsgMax.toInt.toNat
  · rw [if_pos hfit] at hover
    rw [overwrite_inj hgives.terminated h0 hover.symm]
    exact herr
  · rw [if_neg hfit] at hover
    -- There is no terminator where the piece should end.
    have hget : (overwrite mem' (err.take r.cbErrorMsgMax.toInt.toNat))[piece.length]? =
        (overwrite mem'' (piece ++ [0]))[piece.length]? := by rw [hover]
    rw [overwrite, overwrite, List.getElem?_append_left (by rw [List.length_take]; omega),
      List.append_assoc, List.getElem?_append_right le_rfl, Nat.sub_self] at hget
    exact (h0 (List.mem_of_mem_take (List.mem_of_getElem? hget))).elim

end

/-! ## Records -/

theorem WideRequest.Fits.buflen {r : WideRequest} (h : r.Fits) : r.buflen = r.cbErrorMsgMax := by
  obtain ⟨mem, hmem, -⟩ := h.memory
  have hroom := h.room
  rw [WideRequest.buflen, if_pos ⟨by rw [hmem]; rfl, by omega⟩]

theorem WideRequest.Fits.narrow {r : WideRequest} (h : r.Fits) : r.narrow.Fits := by
  obtain ⟨mem, hmem, -⟩ := h.memory
  have hroom := h.room
  constructor
  · change 2 ≤ r.buflen.toInt
    rw [h.buflen]
    omega
  · refine ⟨List.replicate r.buflen.toInt.toNat 0, if_pos ⟨by rw [hmem]; rfl, by omega⟩, ?_⟩
    change r.buflen.toInt ≤ _
    rw [List.length_replicate]
    omega
  · rfl

/-- The requests for bytes. -/
def WideRecordRequests.narrow (requests : WideRecordRequests) : RecordRequests where
  size := requests.size
  request k := (requests.request k).narrow
  fits k := (requests.fits k).narrow
  record := requests.record
  sameSize k := (requests.fits k).buflen.trans (requests.sameSize k)

/-- The length of a record. -/
def WideRecordRequests.step (requests : WideRecordRequests) : Nat := (requests.size.toInt - 1).toNat

theorem WideRecordRequests.step_ne (requests : WideRecordRequests) : requests.step ≠ 0 := by
  have hroom := requests.narrow.size_room
  change 2 ≤ requests.size.toInt at hroom
  rw [WideRecordRequests.step]
  omega

theorem returnError_sqlstate {error error' : PgErrorInfo} {r : ErrorRequest} {reply : ErrorReply}
    (h : erReturnError (some error) r = some (some error', reply)) (hasks : r.szSqlState = true) :
    error'.sqlstate = error.sqlstate ∧
      (reply.retcode ≠ .noData → reply.szSqlState = some (error.sqlstate.take 5)) := by
  obtain ⟨⟨error1, reply1⟩, hcall, heq⟩ := Option.map_eq_some_iff.1 h
  obtain ⟨heq1, rfl⟩ := Prod.mk.inj heq
  obtain rfl := Option.some.inj heq1
  rw [PgErrorInfo.returnError] at hcall
  dsimp only at hcall
  by_cases hend : error.errsize ≤ r.stapos (r.recsize error.recsize) error.errpos
  · rw [if_pos hend] at hcall
    obtain ⟨rfl, rfl⟩ := Prod.mk.inj (Option.some.inj hcall)
    exact ⟨rfl, fun hne ↦ absurd rfl hne⟩
  · rw [if_neg hend] at hcall
    obtain ⟨stored, -, heq⟩ := Option.map_eq_some_iff.1 hcall
    obtain ⟨rfl, rfl⟩ := Prod.mk.inj heq
    exact ⟨rfl, fun _ ↦ if_pos hasks⟩

section

variable {d : WideDiagnosis} {requests : WideRecordRequests} {msg : List UInt8} {k : Nat}
  {error : PgErrorInfo} {locale : LocaleToSqlwchar}

/-- The state in which a record is asked for. -/
structure WideState (d : WideDiagnosis) (requests : WideRecordRequests) (msg : List UInt8) (k : Nat)
    (error : PgErrorInfo) : Prop where
  records : RecordState requests.narrow msg k error
  sqlstate : error.sqlstate = d.sqlstate
  noNul : 0 ∉ msg

/-- The bytes of a record. -/
def recordBytes (msg : List UInt8) (requests : WideRecordRequests) (k : Nat) : List UInt8 :=
  (msg.drop (k * requests.step)).take requests.step

theorem WideState.noData (h : WideState d requests msg k error) (hk : k < 32767)
    (hend : msg.length ≤ k * requests.step) (locale : LocaleToSqlwchar) :
    ∃ error', sqlGetDiagRecW locale (some error) (requests.request k) =
      some (some error', (requests.request k).noData) := by
  obtain ⟨error', hcall⟩ := h.records.noData hk hend
  refine ⟨error', ?_⟩
  rw [sqlGetDiagRecW]
  change (erReturnError (some error) (requests.narrow.request k)).bind _ = _
  rw [hcall, Option.bind_some]
  dsimp only
  rw [WideRequest.widen, if_neg]
  · rfl
  · rintro (h | h)
    · exact Retcode.noConfusion h
    · exact Retcode.noConfusion h

/-- What is stored for a record, and the state behind it. -/
theorem WideState.record (h : WideState d requests msg k error) (hk : k < 32767)
    (hlt : k * requests.step < msg.length) :
    ∃ error' reply, WideState d requests msg (k + 1) error' ∧
      ErrorReply.Stores reply (requests.request k) d.sqlstate (recordBytes msg requests k) ∧
      ∀ locale, sqlGetDiagRecW locale (some error) (requests.request k) =
        ((requests.request k).widen locale reply).map fun reply ↦ (some error', reply) := by
  obtain ⟨error', reply, hcall, hstate, hgives, hretcode⟩ := h.records.piece hk hlt
  obtain ⟨hsame, hqstr⟩ := returnError_sqlstate hcall rfl
  obtain ⟨mem, -, hstored⟩ := hgives.stored
  obtain ⟨n, hn, -, htold⟩ := hgives.told
  have hroom := hgives.room
  refine ⟨error', reply, ⟨hstate, hsame.trans h.sqlstate, h.noNul⟩,
    ⟨hretcode, ?_, ?_, ?_, ?_, ?_⟩, ?_⟩
  · rw [hqstr (by rw [hretcode]; exact Retcode.noConfusion), h.sqlstate]
  · refine ⟨mem.drop (recordBytes msg requests k ++ [0]).length, ?_⟩
    rw [hstored, overwrite, List.append_assoc]
    rfl
  · exact ⟨n, hn, htold.1 hretcode⟩
  · change _ ≤ (requests.request k).buflen.toInt at hroom
    rwa [(requests.fits k).buflen] at hroom
  · exact fun hmem ↦ h.noNul
      (List.mem_of_mem_drop (List.mem_of_mem_take hmem))
  · intro locale
    rw [sqlGetDiagRecW]
    change (erReturnError (some error) (requests.narrow.request k)).bind _ = _
    rw [hcall, Option.bind_some]

/-- A record that is text arrives as text. -/
theorem WideState.text (h : WideState d requests (utf8Encode d.message) k error) (hk : k < 32767)
    (hlt : k * requests.step < (utf8Encode d.message).length) {mid : List Char}
    (htext : IsText d.message (k * requests.step) requests.step mid) (locale : LocaleToSqlwchar) :
    ∃ error' reply, sqlGetDiagRecW locale (some error) (requests.request k) =
        some (some error', reply) ∧ WideState d requests (utf8Encode d.message) (k + 1) error' ∧
      reply.Gives (requests.request k) (utf16Encode mid) := by
  obtain ⟨error', reply, hstate, hstores, hcall⟩ := h.record hk hlt
  have h0 : Char.ofNat 0 ∉ mid := fun hmem ↦ d.noNul (htext.sublist.subset hmem)
  have hrecord : recordBytes (utf8Encode d.message) requests k = utf8Encode mid := htext.record
  rw [hrecord] at hstores
  obtain ⟨reply', hwiden, hgives⟩ := @WideRequest.widen_of_some _ _ _ _ locale hstores
    (requests.fits k) _ (fun rest ↦ utf8Loop_text h0 true none _ rfl) (length_utf16Encode_le mid)
    (zero_notMem_utf16Encode h0)
  refine ⟨error', reply', ?_, hstate, hgives⟩
  rw [hcall, hwiden, Option.map_some]

/-- What arrives for a record that is none has ASCII characters only. -/
theorem WideState.cut (h : WideState d requests (utf8Encode d.message) k error) (hk : k < 32767)
    (hlt : k * requests.step < (utf8Encode d.message).length)
    (hcut : IsCut d.message (k * requests.step) requests.step) (hlocale : locale.Rejects)
    {pgerror' : Option PgErrorInfo} {reply : WideReply}
    (hcall : sqlGetDiagRecW locale (some error) (requests.request k) = some (pgerror', reply))
    {piece : List UInt16} (hgives : reply.Gives (requests.request k) piece) : IsAscii piece := by
  obtain ⟨error', reply', -, hstores, hcall'⟩ := h.record hk hlt
  rw [hcall'] at hcall
  obtain ⟨reply'', hwiden, heq⟩ := Option.map_eq_some_iff.1 hcall
  obtain ⟨-, rfl⟩ := Prod.mk.inj heq
  exact WideRequest.widen_of_none hstores (requests.fits k)
    (fun rest ↦ hcut.notText (0 :: rest) none) hlocale d.ascii hwiden hgives

/-- Behind a record there is the next one, and it is not told as no data. -/
theorem WideState.next (h : WideState d requests msg k error) (hk : k < 32767)
    (hlt : k * requests.step < msg.length) {pgerror' : Option PgErrorInfo}
    {reply : WideReply}
    (hcall : sqlGetDiagRecW locale (some error) (requests.request k) = some (pgerror', reply)) :
    reply.retcode ≠ .noData ∧ ∃ error', pgerror' = some error' ∧
      WideState d requests msg (k + 1) error' := by
  obtain ⟨error', reply', hstate, hstores, hcall'⟩ := h.record hk hlt
  rw [hcall'] at hcall
  obtain ⟨reply'', hwiden, heq⟩ := Option.map_eq_some_iff.1 hcall
  obtain ⟨rfl, rfl⟩ := Prod.mk.inj heq
  exact ⟨WideRequest.widen_retcode hstores (requests.fits k) hwiden, error', rfl, hstate⟩

/-! ## Whole messages -/

/-- Where no record ends within a character, the records from one on give the rest of the text. -/
theorem wideDelivers (hwhole : requests.Whole d) (hk : k < 32767)
    (h : WideState d requests (utf8Encode d.message) k error) (locale : LocaleToSqlwchar) :
    ∃ n, k + n ≤ 32767 ∧ WideDelivers locale (some error) ((List.range' k n).map requests.request)
      (utf16Encode (charsFrom (k * requests.step) d.message)) := by
  have hshort : (utf8Encode d.message).length ≤ 32766 * requests.step := by
    have hroom := requests.narrow.size_room
    change 2 ≤ requests.size.toInt at hroom
    have := hwhole.short
    rw [WideRecordRequests.step]
    omega
  induction hleft : 32766 - k generalizing error k with
  | zero =>
    have hend : (utf8Encode d.message).length ≤ k * requests.step := by
      rw [show k = 32766 by omega]
      exact hshort
    obtain ⟨error', hcall⟩ := h.noData hk hend locale
    rw [charsFrom_of_le hend]
    exact ⟨1, by omega, .noData hcall⟩
  | succ left ih =>
    by_cases hend : (utf8Encode d.message).length ≤ k * requests.step
    · obtain ⟨error', hcall⟩ := h.noData hk hend locale
      rw [charsFrom_of_le hend]
      exact ⟨1, by omega, .noData hcall⟩
    · have hlt := Nat.lt_of_not_le hend
      rcases isText_or_isCut d.noNul hlt requests.step_ne with ⟨mid, htext⟩ | hcut
      · obtain ⟨error', reply, hcall, hstate, hgives⟩ := h.text hk hlt htext locale
        obtain ⟨n, hn, hrest⟩ := ih (by omega) hstate (by omega)
        refine ⟨n + 1, by omega, ?_⟩
        rw [List.range'_succ, List.map_cons, htext.from_eq, utf16Encode_append, ← Nat.succ_mul]
        exact .piece hcall hgives hrest
      · rcases hcut.cut with hinside | hinside
        · exact (hinside.not_isBoundary (hwhole.boundary k hlt)).elim
        · have hnext := hinside.lt
          rw [← Nat.succ_mul] at hinside hnext
          exact (hinside.not_isBoundary (hwhole.boundary (k + 1) hnext)).elim

/-- The first call of a sequence that gives a text. -/
theorem WideDelivers.cons {pgerror : Option PgErrorInfo} {r : WideRequest} {rs : List WideRequest}
    {text : List UInt16} (h : WideDelivers locale pgerror (r :: rs) text) :
    (∃ pgerror', sqlGetDiagRecW locale pgerror r = some (pgerror', r.noData) ∧ text = []) ∨
      ∃ pgerror' reply piece rest, sqlGetDiagRecW locale pgerror r = some (pgerror', reply) ∧
        reply.Gives r piece ∧ WideDelivers locale pgerror' rs rest ∧ text = piece ++ rest := by
  cases h with
  | noData h => exact Or.inl ⟨_, h, rfl⟩
  | piece h hgives hrest => exact Or.inr ⟨_, _, _, _, h, hgives, hrest, rfl⟩

theorem WideReply.Gives.unique {reply : WideReply} {r : WideRequest} {piece piece' : List UInt16}
    (h : reply.Gives r piece) (h' : reply.Gives r piece') : piece = piece' := by
  obtain ⟨mem, -, hstored⟩ := h.stored
  obtain ⟨mem', -, hstored'⟩ := h'.stored
  exact overwrite_inj h.terminated h'.terminated
    (Option.some.inj (hstored.symm.trans hstored'))

/-- Before the end of the message, a sequence begins with a record. -/
theorem WideState.delivers_cons (h : WideState d requests msg k error) (hk : k < 32767)
    (hlt : k * requests.step < msg.length) {n : Nat} {text : List UInt16}
    (hdelivers : WideDelivers locale (some error) ((List.range' k (n + 1)).map requests.request)
      text) :
    ∃ error' reply piece rest, sqlGetDiagRecW locale (some error) (requests.request k) =
        some (some error', reply) ∧ WideState d requests msg (k + 1) error' ∧
      reply.Gives (requests.request k) piece ∧
      WideDelivers locale (some error') ((List.range' (k + 1) n).map requests.request) rest ∧
      text = piece ++ rest := by
  rw [List.range'_succ, List.map_cons] at hdelivers
  rcases hdelivers.cons with ⟨pgerror', hcall, -⟩ | ⟨pgerror', reply, piece, rest, hcall, hgives,
    hrest, htext⟩
  · exact absurd rfl (h.next hk hlt hcall).1
  · obtain ⟨-, error', rfl, hstate⟩ := h.next hk hlt hcall
    exact ⟨error', reply, piece, rest, hcall, hstate, hgives, hrest, htext⟩

/-- If the text is longer than the records, each call gives a record. -/
theorem not_wideDelivers (hlong : 32766 * requests.step < msg.length) {n : Nat}
    (hn : k + n ≤ 32767) (h : WideState d requests msg k error) (text : List UInt16) :
    ¬WideDelivers locale (some error) ((List.range' k n).map requests.request) text := by
  induction n generalizing error k text with
  | zero => exact fun h ↦ nomatch h
  | succ n ih =>
    intro hdelivers
    have hlt : k * requests.step < msg.length :=
      (Nat.mul_le_mul_right _ (by omega : k ≤ 32766)).trans_lt hlong
    obtain ⟨error', reply, piece, rest, -, hstate, -, hrest, -⟩ :=
      h.delivers_cons (by omega) hlt hdelivers
    exact ih (by omega) hstate rest hrest

/-- The number of units that are not ASCII. -/
def otherUnits (units : List UInt16) : Nat := units.countP fun u ↦ 0x80 ≤ u.toNat

theorem otherUnits_append (us vs : List UInt16) :
    otherUnits (us ++ vs) = otherUnits us + otherUnits vs := List.countP_append

theorem otherUnits_of_isAscii {us : List UInt16} (h : IsAscii us) : otherUnits us = 0 := by
  refine List.countP_eq_zero.2 fun u hu ↦ ?_
  rw [decide_eq_true_eq]
  exact Nat.not_le_of_lt (h u hu)

theorem otherUnits_suffix {chars chars' : List Char} (h : chars' <:+ chars) :
    otherUnits (utf16Encode chars') ≤ otherUnits (utf16Encode chars) := by
  obtain ⟨before, rfl⟩ := h
  rw [utf16Encode_append, otherUnits_append]
  exact Nat.le_add_left _ _

/-- Not more of them arrive from one record on than the message has there. -/
theorem otherUnits_le (hlocale : locale.Rejects) {n : Nat} (hn : k + n ≤ 32767)
    (h : WideState d requests (utf8Encode d.message) k error) {text : List UInt16}
    (hdelivers : WideDelivers locale (some error) ((List.range' k n).map requests.request) text) :
    otherUnits text ≤ otherUnits (utf16Encode (charsFrom (k * requests.step) d.message)) := by
  induction n generalizing error k text with
  | zero => exact nomatch hdelivers
  | succ n ih =>
    by_cases hend : (utf8Encode d.message).length ≤ k * requests.step
    · obtain ⟨error', hcall'⟩ := h.noData (by omega) hend locale
      rw [List.range'_succ, List.map_cons] at hdelivers
      rcases hdelivers.cons with ⟨-, -, rfl⟩ | ⟨pgerror', reply, piece, rest, hcall, hgives, -, -⟩
      · exact Nat.zero_le _
      · rw [hcall'] at hcall
        obtain ⟨-, rfl⟩ := Prod.mk.inj (Option.some.inj hcall)
        rcases hgives.succeeds with hcode | hcode
        · exact Retcode.noConfusion hcode
        · exact Retcode.noConfusion hcode
    · have hlt := Nat.lt_of_not_le hend
      obtain ⟨error', reply, piece, rest, hcall, hstate, hgives, hrest, rfl⟩ :=
        h.delivers_cons (by omega) hlt hdelivers
      have hle := ih (by omega) hstate hrest
      rw [Nat.succ_mul] at hle
      rw [otherUnits_append]
      rcases isText_or_isCut d.noNul hlt requests.step_ne with ⟨mid, htext⟩ | hcut
      · obtain ⟨error'', reply', hcall', -, hgives'⟩ := h.text (by omega) hlt htext locale
        rw [hcall'] at hcall
        obtain ⟨-, rfl⟩ := Prod.mk.inj (Option.some.inj hcall)
        rw [hgives.unique hgives', htext.from_eq, utf16Encode_append, otherUnits_append]
        exact Nat.add_le_add_left hle _
      · rw [otherUnits_of_isAscii (h.cut (by omega) hlt hcut hlocale hcall hgives), Nat.zero_add]
        exact hle.trans (otherUnits_suffix (charsFrom_suffix_of_le (Nat.le_add_right _ _) _))

/-- If the rest of the message arrives from a boundary on, no record behind that ends within a
character. -/
theorem boundary_of_wideDelivers (hlocale : locale.Rejects) {n : Nat} (hn : k + n ≤ 32767)
    (h : WideState d requests (utf8Encode d.message) k error) (hboundary : k * requests.step <
      (utf8Encode d.message).length → IsBoundary d.message (k * requests.step))
    (hdelivers : WideDelivers locale (some error) ((List.range' k n).map requests.request)
      (utf16Encode (charsFrom (k * requests.step) d.message))) {j : Nat} (hj : k ≤ j)
    (hlt : j * requests.step < (utf8Encode d.message).length) :
    IsBoundary d.message (j * requests.step) := by
  induction n generalizing error k with
  | zero => exact nomatch hdelivers
  | succ n ih =>
    rcases Nat.eq_or_lt_of_le hj with rfl | hj
    · exact hboundary hlt
    have hklt : k * requests.step < (utf8Encode d.message).length :=
      (Nat.mul_le_mul_right _ hj.le).trans_lt hlt
    obtain ⟨error', reply, piece, rest, hcall, hstate, hgives, hrest, htexts⟩ :=
      h.delivers_cons (by omega) hklt hdelivers
    rcases isText_or_isCut d.noNul hklt requests.step_ne with ⟨mid, htext⟩ | hcut
    · obtain ⟨error'', reply', hcall', -, hgives'⟩ := h.text (by omega) hklt htext locale
      rw [hcall'] at hcall
      obtain ⟨-, rfl⟩ := Prod.mk.inj (Option.some.inj hcall)
      rw [hgives.unique hgives', htext.from_eq, utf16Encode_append, List.append_cancel_left_eq,
        ← Nat.succ_mul] at htexts
      rw [← htexts] at hrest
      refine ih (by omega) hstate ?_ hrest hj
      rw [Nat.succ_mul]
      exact htext.boundary
    · -- The character in which the record ends does not arrive.
      obtain ⟨mid, c, hc, hfrom⟩ := hcut.lost (hboundary hklt)
      obtain ⟨u, hu, hge⟩ := exists_unit_of_length_ne hc
      have hpos : 0 < otherUnits (utf16EncodeChar c) :=
        List.countP_pos_iff.2 ⟨u, hu, decide_eq_true hge⟩
      have hle := otherUnits_le hlocale (by omega) hstate hrest
      have hpiece := otherUnits_of_isAscii (h.cut (by omega) hklt hcut hlocale hcall hgives)
      have hcount := congrArg otherUnits htexts
      rw [hfrom, utf16Encode_append, utf16Encode_cons, otherUnits_append, otherUnits_append,
        otherUnits_append, hpiece, ← Nat.succ_mul, Nat.succ_eq_add_one] at hcount
      omega

/-! ## The message -/

/-- The state before the first record. -/
theorem WideDiagnosis.wideState (d : WideDiagnosis) (requests : WideRecordRequests) :
    ∃ error, d.pgerror = some error ∧
      WideState d requests (keptText (utf8Encode d.message)) 0 error := by
  obtain ⟨error, herror, hholds, -, hrec⟩ := erConstructor_holds d.isError (utf8Encode d.message)
  refine ⟨{ error with sqlstate := d.sqlstate }, ?_,
    ⟨⟨hholds.size, hholds.memory⟩, ?_, ?_⟩, rfl, ?_⟩
  · rw [WideDiagnosis.pgerror, herror, Option.map_some]
  · change error.recsize ≠ 0
    rw [hrec]
    decide
  · exact fun h ↦ absurd rfl h
  · exact fun h ↦ zero_notMem_utf8Encode d.noNul (List.mem_of_mem_take h)

theorem WideRecordRequests.step_eq (requests : WideRecordRequests) :
    (requests.step : Int) = requests.size.toInt - 1 := by
  have hroom := requests.narrow.size_room
  change 2 ≤ requests.size.toInt at hroom
  rw [WideRecordRequests.step]
  omega

theorem charsFrom_begin (requests : WideRecordRequests) (chars : List Char) :
    charsFrom (0 * requests.step) chars = chars := by
  rw [Nat.zero_mul, charsFrom_zero]

theorem delivered_of_whole (hwhole : requests.Whole d) (locale : LocaleToSqlwchar) :
    requests.Delivered locale d := by
  obtain ⟨error, herror, hstate⟩ := d.wideState requests
  have hlt16 := requests.size.toInt_lt
  have hshort := hwhole.short
  rw [keptText_eq (by omega)] at hstate
  obtain ⟨n, hn, hdelivers⟩ := wideDelivers hwhole (by omega) hstate locale
  rw [charsFrom_begin] at hdelivers
  refine ⟨n, by omega, ?_⟩
  rwa [herror]

theorem whole_of_delivered (hlocale : locale.Rejects) (h : requests.Delivered locale d) :
    requests.Whole d := by
  obtain ⟨error, herror, hstate⟩ := d.wideState requests
  obtain ⟨n, hn, hdelivers⟩ := h
  have hlt16 := requests.size.toInt_lt
  have hstep := requests.step_eq
  have hkept := length_keptText (utf8Encode d.message)
  rw [herror] at hdelivers
  have hshort : ((utf8Encode d.message).length : Int) ≤ 32766 * (requests.size.toInt - 1) := by
    by_contra hlong
    exact not_wideDelivers (by omega) (by omega) hstate _ hdelivers
  rw [keptText_eq (by omega)] at hstate
  rw [← charsFrom_begin requests d.message] at hdelivers
  refine ⟨hshort, fun j hj ↦ ?_⟩
  refine boundary_of_wideDelivers hlocale (by omega) hstate (fun _ ↦ ?_) hdelivers
    (Nat.zero_le j) hj
  exact ⟨[], d.message, rfl, by rw [Nat.zero_mul, utf8Encode_nil, List.length_nil]⟩

end

/-- A message arrives in each locale if no record ends within a character and the record numbers
reach its end; and in a locale of UTF-8 only then. -/
theorem delivered_iff (d : WideDiagnosis) (requests : WideRecordRequests) :
    (requests.Whole d → ∀ locale, requests.Delivered locale d) ∧
      ∀ locale : LocaleToSqlwchar, locale.Rejects →
        (requests.Delivered locale d ↔ requests.Whole d) :=
  ⟨delivered_of_whole, fun _ hlocale ↦
    ⟨whole_of_delivered hlocale, fun hwhole ↦ delivered_of_whole hwhole _⟩⟩

/-- A locale of which no text is converted. -/
def noConversion : LocaleToSqlwchar where
  convert _ _ := (-2, [])
  bounded _ n := Nat.zero_le n

/-- Requests with room for two units and the terminator. -/
def smallRequests : WideRecordRequests where
  size := 3
  request k := ⟨Int16.ofNat (k + 1), none, true, some [0, 0, 0], 3, true⟩
  fits _ := ⟨(by decide : 3 ≤ (3 : Int16).toInt),
    ⟨_, rfl, (by decide : (3 : Int16).toInt ≤ 3)⟩, nofun⟩
  record k hk := toInt_ofNat_of_lt (by omega)
  sameSize _ := rfl

/-- An ASCII character and one of two bytes. -/
def shortDiagnosis : WideDiagnosis where
  errnumber := 1
  isError := by decide
  message := ['a', 'é']
  noNul := by decide
  sqlstate := ascii "42601"
  ascii := forall_mem_of_all (by decide)

/-- The first record has the first byte of the second character. -/
theorem not_delivered :
    ¬∀ (locale : LocaleToSqlwchar) (d : WideDiagnosis) (requests : WideRecordRequests),
      requests.Delivered locale d := by
  intro h
  have hwhole := whole_of_delivered (fun _ _ _ ↦ Or.inr rfl)
    (h noConversion shortDiagnosis smallRequests)
  have hinside : IsInside ['a', 'é'] 2 := ⟨['a'], 'é', [], rfl, by decide, by decide⟩
  exact hinside.not_isBoundary (hwhole.boundary 1 (by decide))

end PsqlOdbc
