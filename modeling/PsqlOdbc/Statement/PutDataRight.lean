import PsqlOdbc.Statement.PutDataPieces

/-!
# Which sequences of pieces are assembled

From a state that stores what has been supplied, a call is as it should be exactly under its
condition, and then leaves such a state (`CallLeaves`).  A sequence of calls is as it should be if
each of them is (`putsRight_iff`).
-/

namespace PsqlOdbc

open Lib

/-- The state behind the calls that have supplied a value. -/
def PutsAt (param : PutParam) : PutValue → PutState → Prop
  | .nothing, s => s = .fresh
  | .null, s => s.putData = true ∧
      ∃ used, s.execUsed = some used ∧ (param.handlingLo = false → used = -1)
  | .data text, s => s.putData = true ∧ Stores param text s ∧
      (param.handlingLo = true → s.lobjOpen = true)

/-- What a call leaves. -/
inductive CallLeaves (param : PutParam) (call : PutCall) (value : PutValue) (s : PutState) :
    Option (Retcode × PutState) → Prop
  | fine {retval : Retcode} {s' : PutState} (hfine : StepFine param call value)
      (hright : CallRight param call value s retval s')
      (hnext : value.next param.ctype call retval = value.following param.ctype call)
      (hat : PutsAt param (value.following param.ctype call) s') :
      CallLeaves param call value s (some (retval, s'))
  | wrong {retval : Retcode} {s' : PutState} (hfine : ¬StepFine param call value)
      (hright : ¬CallRight param call value s retval s') :
      CallLeaves param call value s (some (retval, s'))
  | outside (hfine : ¬StepFine param call value) : CallLeaves param call value s none

section

variable {param : PutParam} {call : PutCall} {value : PutValue} {s s' : PutState}
  {piece text putbuf : List UInt8} {retval : Retcode} {n : Nat}

theorem PutCall.Given.ne_null (h : call.Given) : call.cbValue ≠ -1 := by
  rcases h with h | ⟨h, -⟩
  · omega
  · omega

theorem CallLeaves.of_not_fine {result : Option (Retcode × PutState)}
    (hfine : ¬StepFine param call value)
    (hright : ∀ retval s', result = some (retval, s') → ¬CallRight param call value s retval s') :
    CallLeaves param call value s result := by
  match result with
  | none => exact .outside hfine
  | some (retval, s') => exact .wrong hfine (hright retval s' rfl)

/-! ## Calls that leave what is stored -/

theorem callRight_iff_same
    (h : value = .null ∨ retval = .error ∨ call.cbValue ≠ -1 ∧ call.piece param.ctype = none) :
    CallRight param call value s retval s' ↔ s'.stored = s.stored := by
  rw [CallRight, if_pos h]

theorem callRight_iff_stores (hvalue : value ≠ .null) (hretval : retval ≠ .error)
    (hpiece : call.piece param.ctype ≠ none)
    (hnext : value.next param.ctype call retval = .data text) :
    CallRight param call value s retval s' ↔ Stores param text s' := by
  have hsupplied : ¬(value = .null ∨ retval = .error ∨
      call.cbValue ≠ -1 ∧ call.piece param.ctype = none) := by
    rintro (h | h | ⟨-, h⟩)
    · exact hvalue h
    · exact hretval h
    · exact hpiece h
  rw [CallRight, if_neg hsupplied, hnext]

theorem stored_ne (h : s'.execUsed ≠ s.execUsed) : s'.stored ≠ s.stored :=
  fun hstored ↦ h (congrArg Prod.fst hstored)

/-- The length is stored whatever else the first call does. -/
theorem putFirst_execUsed {putlen : Int}
    (h : putFirst param call putbuf putlen s = some (retval, s')) : s'.execUsed = some putlen := by
  rw [putFirst] at h
  dsimp only at h
  split at h
  · cases h
    rfl
  · split at h
    · split at h
      · cases h
        rfl
      · split at h
        · cases h
          rfl
        · split at h
          · cases h
            rfl
          · cases h
            rfl
    · split at h
      · cases h
        rfl
      · obtain ⟨cells, -, hcells⟩ := Option.map_eq_some_iff.1 h
        cases hcells
        rfl

/-- A call behind others that supplies nothing for memory is refused. -/
theorem putNext_refused {used putlen : Int} (hlo : param.handlingLo = false)
    (hused : s.execUsed = some used) (hputlen : putlen ≤ 0) :
    putNext param call putbuf putlen s = some (.error, s) := by
  rw [putNext, hused, Option.bind_some, hlo, if_neg Bool.false_ne_true, if_neg (by omega)]

theorem putNext_lo {used putlen : Int} (hlo : param.handlingLo = true)
    (hused : s.execUsed = some used) :
    putNext param call putbuf putlen s =
      some (.success, { odbcLoWrite call.writes putbuf (wrapInt 32 putlen) s with
        execUsed := some (used + putlen) }) := by
  rw [putNext, hused, Option.bind_some, if_pos hlo]

/-! ## Large objects -/

/-- What the server has got is the value. -/
def WrittenFor (param : PutParam) (text written : List UInt8) : Prop :=
  if param.ctype = .char then isHexText text = true → written = hexDecode text else written = text

theorem stores_lo (hlo : param.handlingLo = true) :
    Stores param text s ↔ s.execUsed = some (s.written.length : Int) ∧
      WrittenFor param text s.written := by
  rw [Stores, if_pos hlo, WrittenFor]

theorem WrittenFor.append_iff (hlo : param.handlingLo = true)
    (hhanded : Handed param piece putbuf n) (h : WrittenFor param text s.written) :
    WrittenFor param (text ++ piece) (s.written ++ putbuf.take n) ↔
      (param.ctype = .char → isHexText (text ++ piece) = true → DigitsFit text piece) := by
  rw [WrittenFor] at h ⊢
  by_cases hchar : param.ctype = .char
  · rw [if_pos hchar] at h ⊢
    rw [imp_iff_right hchar]
    refine imp_congr_right fun hhex ↦ ?_
    have hboth := hhex
    rw [isHexText, List.all_append, Bool.and_eq_true] at hboth
    rw [h hboth.1, hhanded.digits hlo hchar hboth.2, eq_comm]
    exact hexDecode_append_iff hhex
  · rw [if_neg hchar] at h ⊢
    rw [h, hhanded.plain fun hboth ↦ hchar hboth.2]
    exact iff_of_true rfl fun h ↦ absurd h hchar

/-- A piece that is written behind the others. -/
theorem stores_lo_iff (hlo : param.handlingLo = true) (hhanded : Handed param piece putbuf n)
    (hopen : s.lobjOpen = true) (htext : WrittenFor param text s.written) {w : Int}
    (hw : w = wrapInt 32 n) :
    (s.written.length : Int) + n = (odbcLoWrite call.writes putbuf w s).written.length ∧
        WrittenFor param (text ++ piece) (odbcLoWrite call.writes putbuf w s).written ↔
      WriteFine param call piece ∧
        (param.ctype = .char → isHexText (text ++ piece) = true → DigitsFit text piece) := by
  have hlength : n = loLength param piece := by
    rw [hhanded.length, if_pos hlo]
  rw [WriteFine, ← hlength, hw]
  by_cases hfine : n < 2 ^ 31 ∧ (n = 0 ∨ call.writes = true)
  · rw [written_odbcLoWrite hopen hfine.1 hfine.2, htext.append_iff hlo hhanded]
    refine and_congr (iff_of_true ?_ hfine) Iff.rfl
    rw [List.length_append, List.length_take_of_le hhanded.room]
    push_cast
    rfl
  · refine iff_of_false (fun h ↦ ?_) (fun h ↦ hfine h.1)
    have hne := @length_odbcLoWrite_ne s putbuf n call.writes hfine
    have heq := h.1
    omega

/-! ## The steps -/

/-- `SQL_NULL_DATA` in the first call. -/
theorem putData_null_first (h : call.cbValue = -1) :
    ∃ used, (param.handlingLo = false → used = -1) ∧ pgapiPutData param call .fresh =
      some (.success, { PutState.fresh with putData := true, execUsed := some used }) := by
  have hnts : ∀ {p : Prop}, ¬(call.cbValue = -3 ∧ p) := fun hboth ↦ by
    have := hboth.1
    omega
  have hputlen : putlen param.ctype call = -1 := by
    rw [putlen.eq_def, if_neg hnts, if_neg hnts, if_pos (by omega), h]
  have hfirst : ∀ putbuf used, putFirst param call putbuf used .fresh =
      some (.success, { PutState.fresh with putData := true, execUsed := some used }) :=
    fun putbuf used ↦ if_pos h
  by_cases hlo : param.handlingLo = true ∧ param.ctype = .char
  · obtain ⟨out, hout, -⟩ := pgHex2bin_room (Nat.zero_le call.memory.length)
    have hhex : hexPiece call.memory (-1) = some (out, 0) :=
      congrArg (Option.map fun allocbuf ↦ (allocbuf, (0 : Int))) hout
    refine ⟨0, fun h ↦ absurd (h.symm.trans hlo.1) Bool.false_ne_true, ?_⟩
    rw [pgapiPutData, hputlen, if_pos hlo, hhex]
    exact hfirst out 0
  · refine ⟨-1, fun _ ↦ rfl, ?_⟩
    rw [pgapiPutData, hputlen, if_neg hlo]
    exact hfirst call.memory (-1)

/-- What supplies a piece. -/
structure Supplies (param : PutParam) (call : PutCall) (piece : List UInt8) : Prop where
  nonnull : call.cbValue ≠ -1
  piece : call.piece param.ctype = some piece

theorem Supplies.some (h : Supplies param call piece) : call.piece param.ctype ≠ none := by
  rw [h.piece]
  exact nofun

theorem Supplies.next_first (h : Supplies param call piece) :
    PutValue.next param.ctype call .success .nothing = .data piece := by
  rw [PutValue.next, if_neg nofun, if_neg h.nonnull, h.piece]

theorem Supplies.following_first (h : Supplies param call piece) :
    PutValue.following param.ctype call .nothing = .data piece := by
  rw [PutValue.following, if_neg h.nonnull, h.piece, Option.getD_some]

theorem Supplies.next_data (h : Supplies param call piece) :
    PutValue.next param.ctype call .success (.data text) = .data (text ++ piece) := by
  rw [PutValue.next, if_neg nofun, h.piece, Option.getD_some]

theorem Supplies.following_data (h : Supplies param call piece) :
    PutValue.following param.ctype call (.data text) = .data (text ++ piece) := by
  rw [PutValue.following, h.piece, Option.getD_some]

theorem PutValue.next_refused :
    PutValue.next param.ctype call .error (.data text) = .data text := by
  rw [PutValue.next, if_pos rfl]

theorem putFirst_wrong {putlen : Int} (hfine : ¬StepFine param call .nothing)
    (hsame : ∀ retval s', putFirst param call putbuf putlen .fresh = some (retval, s') →
      retval = .error ∨ call.cbValue ≠ -1 ∧ call.piece param.ctype = none) :
    CallLeaves param call .nothing .fresh (putFirst param call putbuf putlen .fresh) := by
  refine .of_not_fine hfine fun retval s' h ↦ ?_
  rw [callRight_iff_same (Or.inr (hsame retval s' h))]
  refine stored_ne fun hused ↦ ?_
  rw [putFirst_execUsed h] at hused
  cases hused

/-- The first piece, to memory. -/
theorem putFirst_memory (hlo : param.handlingLo = false) (hcall : Supplies param call piece)
    (hhanded : Handed param piece putbuf n) :
    CallLeaves param call .nothing .fresh (putFirst param call putbuf n .fresh) := by
  have hmemory : ¬param.handlingLo = true := Bool.not_eq_true _ ▸ hlo
  have hlength : n = piece.length := by
    rw [hhanded.length, if_neg hmemory]
  have htake : putbuf.take n = piece := hhanded.plain fun h ↦ hmemory h.1
  obtain ⟨behind, hcopy⟩ := copyPiece_first hhanded.room
  have hresult : putFirst param call putbuf n .fresh =
      some (.success, ⟨true, some (n : Int), some (piece ++ 0 :: behind), false, []⟩) := by
    rw [putFirst]
    dsimp only
    rw [if_neg hcall.nonnull, if_neg hmemory, if_neg (by omega), Int.toNat_natCast, hcopy, htake]
    rfl
  have hstores : Stores param piece
      ⟨true, some (n : Int), some (piece ++ 0 :: behind), false, []⟩ := by
    rw [Stores, if_neg hmemory, hlength]
    exact ⟨rfl, behind, rfl⟩
  rw [hresult]
  refine .fine (fun _ ↦ ⟨piece, hcall.piece, fun h ↦ absurd h hmemory⟩)
    ((@callRight_iff_stores param call .nothing .fresh _ piece .success nofun nofun hcall.some
      hcall.next_first).2 hstores) (hcall.next_first.trans hcall.following_first.symm) ?_
  rw [hcall.following_first]
  exact ⟨rfl, hstores, fun h ↦ absurd h hmemory⟩

/-- The first piece, to a large object. -/
theorem putFirst_large (hlo : param.handlingLo = true) (hcall : Supplies param call piece)
    (hhanded : Handed param piece putbuf n) :
    CallLeaves param call .nothing .fresh (putFirst param call putbuf n .fresh) := by
  by_cases hstart : call.begins = true ∧ call.creates = true ∧ call.opens = true
  · obtain ⟨hbegins, hcreates, hopens⟩ := hstart
    have hresult : putFirst param call putbuf n .fresh =
        some (.success, odbcLoWrite call.writes putbuf (wrapInt 32 n)
          ⟨true, some (n : Int), none, true, []⟩) := by
      rw [putFirst]
      dsimp only
      rw [if_neg hcall.nonnull, if_pos hlo, hbegins, hcreates, hopens]
      rfl
    have hwritten : WrittenFor param [] [] := by
      rw [WrittenFor]
      split
      · exact fun _ ↦ rfl
      · rfl
    have hdigits : param.ctype = .char → isHexText ([] ++ piece) = true → DigitsFit [] piece :=
      fun _ _ ↦ Or.inl rfl
    have hiff := @stores_lo_iff param call ⟨true, some (n : Int), none, true, []⟩ piece [] putbuf n
      hlo hhanded rfl hwritten _ rfl
    rw [and_iff_left hdigits, List.nil_append, List.length_nil, Nat.cast_zero, Int.zero_add] at hiff
    have hstores : Stores param piece (odbcLoWrite call.writes putbuf (wrapInt 32 n)
        ⟨true, some (n : Int), none, true, []⟩) ↔ WriteFine param call piece := by
      rw [stores_lo hlo]
      exact (and_congr_left' Option.some_inj).trans hiff
    have hright := fun s' ↦ @callRight_iff_stores param call .nothing .fresh s' piece .success nofun
      nofun hcall.some hcall.next_first
    rw [hresult]
    by_cases hfine : WriteFine param call piece
    · refine .fine (fun _ ↦ ⟨piece, hcall.piece, fun _ ↦ ⟨hbegins, hcreates, hopens, hfine⟩⟩)
        ((hright _).2 (hstores.2 hfine)) (hcall.next_first.trans hcall.following_first.symm) ?_
      rw [hcall.following_first]
      exact ⟨rfl, hstores.2 hfine, fun _ ↦ rfl⟩
    · refine .wrong (fun h ↦ ?_) fun h ↦ hfine (hstores.1 ((hright _).1 h))
      obtain ⟨_, hsome, hall⟩ := h hcall.nonnull
      cases hcall.piece.symm.trans hsome
      exact hfine (hall hlo).2.2.2
  · have hresult : ∃ s', putFirst param call putbuf n .fresh = some (.error, s') := by
      rw [putFirst]
      dsimp only
      rw [if_neg hcall.nonnull, if_pos hlo]
      split
      · exact ⟨_, rfl⟩
      · next hbegins =>
        split
        · exact ⟨_, rfl⟩
        · next hcreates =>
          split
          · exact ⟨_, rfl⟩
          · next hopens =>
            exact absurd ⟨Bool.of_not_eq_false hbegins, Bool.of_not_eq_false hcreates,
              Bool.of_not_eq_false hopens⟩ hstart
    obtain ⟨s', hresult⟩ := hresult
    refine putFirst_wrong (fun h ↦ ?_) fun retval s'' h ↦ Or.inl ?_
    · obtain ⟨_, -, hall⟩ := h hcall.nonnull
      exact hstart ⟨(hall hlo).1, (hall hlo).2.1, (hall hlo).2.2.1⟩
    · cases hresult.symm.trans h
      rfl

/-- The first call. -/
theorem putData_first (htype : ∀ length, param.ctype ≠ .fixed length)
    (h : call.cbValue = -1 ∨ call.Given) :
    CallLeaves param call .nothing .fresh (pgapiPutData param call .fresh) := by
  rcases h with hnull | hgiven
  · obtain ⟨used, hmemory, hresult⟩ := @putData_null_first param call hnull
    have hfollowing : PutValue.following param.ctype call .nothing = .null := if_pos hnull
    have hnext : PutValue.next param.ctype call .success .nothing = .null := by
      rw [PutValue.next, if_neg nofun, if_pos hnull]
    have hsupplied : ¬((PutValue.nothing : PutValue) = .null ∨ Retcode.success = .error ∨
        call.cbValue ≠ -1 ∧ call.piece param.ctype = none) := by
      rintro (h | h | ⟨h, -⟩)
      · cases h
      · cases h
      · exact h hnull
    rw [hresult]
    refine .fine (fun h ↦ absurd hnull h) ?_ (hnext.trans hfollowing.symm) ?_
    · rw [CallRight, if_neg hsupplied, hnext]
      exact trivial
    · rw [hfollowing]
      exact ⟨rfl, used, rfl, hmemory⟩
  · cases hpiece : call.piece param.ctype with
    | none =>
      rw [pgapiPutData_of_none htype hpiece]
      refine putFirst_wrong (fun h ↦ ?_) fun _ _ _ ↦ Or.inr ⟨hgiven.ne_null, hpiece⟩
      obtain ⟨piece, hsome, -⟩ := h hgiven.ne_null
      cases hpiece.symm.trans hsome
    | some piece =>
      obtain ⟨putbuf, n, hhanded, hcall⟩ := pgapiPutData_of_piece hgiven htype hpiece
      have hsupplies : Supplies param call piece := ⟨hgiven.ne_null, hpiece⟩
      rw [hcall]
      cases hlo : param.handlingLo with
      | true => exact putFirst_large hlo hsupplies hhanded
      | false => exact putFirst_memory hlo hsupplies hhanded

/-- A call behind `SQL_NULL_DATA`. -/
theorem putData_null (htype : ∀ length, param.ctype ≠ .fixed length) (hgiven : call.Given)
    (hat : PutsAt param .null s) : CallLeaves param call .null s (pgapiPutData param call s) := by
  obtain ⟨hput, used, hused, hmemory⟩ := hat
  have hbehind : ¬s.putData = false := by
    rw [hput]
    exact Bool.noConfusion
  have hright := fun retval s' ↦ @callRight_iff_same param call .null s s' retval (Or.inl rfl)
  have hkept : ∀ retval, StepFine param call .null →
      CallLeaves param call .null s (some (retval, s)) := fun retval hfine ↦
    .fine hfine ((hright retval s).2 rfl) rfl ⟨hput, used, hused, hmemory⟩
  cases hpiece : call.piece param.ctype with
  | none =>
    rw [pgapiPutData_of_none htype hpiece, if_neg hbehind]
    cases hlo : param.handlingLo with
    | true =>
      rw [putNext_lo hlo hused]
      refine .wrong (fun h ↦ ?_) fun h ↦ ?_
      · rw [StepFine, if_pos hlo] at h
        obtain ⟨piece, hsome, -⟩ := h
        cases hpiece.symm.trans hsome
      · refine stored_ne (fun heq ↦ ?_) ((hright _ _).1 h)
        have hlength := Option.some_inj.1 (heq.trans hused)
        omega
    | false =>
      rw [putNext_refused hlo hused (by omega)]
      refine hkept _ ?_
      rw [StepFine, hlo, if_neg Bool.false_ne_true, hpiece]
      exact nofun
  | some piece =>
    obtain ⟨putbuf, n, hhanded, hcall⟩ := pgapiPutData_of_piece hgiven htype hpiece
    rw [hcall, if_neg hbehind]
    cases hlo : param.handlingLo with
    | true =>
      have hlength : n = loLength param piece := by
        rw [hhanded.length, if_pos hlo]
      have hfine : StepFine param call .null ↔ n = 0 := by
        rw [StepFine, if_pos hlo, hpiece, hlength]
        constructor
        · rintro ⟨_, hsome, hzero⟩
          cases hsome
          exact hzero
        · exact fun hzero ↦ ⟨piece, rfl, hzero⟩
      rw [putNext_lo hlo hused]
      by_cases hzero : n = 0
      · rw [hzero, odbcLoWrite_nonpos (by decide), Nat.cast_zero, Int.add_zero, ← hused]
        exact hkept _ (hfine.2 hzero)
      · refine .wrong (fun h ↦ hzero (hfine.1 h)) fun h ↦ ?_
        refine stored_ne (fun heq ↦ ?_) ((hright _ _).1 h)
        have hlength := Option.some_inj.1 (heq.trans hused)
        omega
    | false =>
      have hfine : StepFine param call .null ↔ piece = [] := by
        rw [StepFine, hlo, if_neg Bool.false_ne_true, hpiece]
        exact ⟨fun h ↦ h piece rfl, fun h _ hsome ↦ Option.some_inj.1 hsome ▸ h⟩
      have hlength : n = piece.length := by
        rw [hhanded.length, hlo, if_neg Bool.false_ne_true]
      by_cases hnil : piece = []
      · rw [hnil, List.length_nil] at hlength
        rw [putNext_refused hlo hused (by omega)]
        exact hkept _ (hfine.2 hnil)
      · have hpos : 0 < piece.length := List.length_pos_iff.2 hnil
        have hresult : putNext param call putbuf n s = none := by
          rw [putNext, hused, Option.bind_some, hlo, if_neg Bool.false_ne_true, if_pos (by omega),
            Option.bind_eq_none_iff]
          intro a _
          rw [hmemory hlo, copyPiece, if_pos (Or.inl (by decide))]
          rfl
        rw [hresult]
        exact .outside fun h ↦ hnil (hfine.1 h)

/-- Another piece, to memory. -/
theorem putNext_memory (hlo : param.handlingLo = false) (hcall : Supplies param call piece)
    (hhanded : Handed param piece putbuf n) (hat : PutsAt param (.data text) s) :
    CallLeaves param call (.data text) s (putNext param call putbuf n s) := by
  obtain ⟨hput, hstores, hopen⟩ := hat
  have hmemory : ¬param.handlingLo = true := Bool.not_eq_true _ ▸ hlo
  have hlength : n = piece.length := by
    rw [hhanded.length, if_neg hmemory]
  have htake : putbuf.take n = piece := hhanded.plain fun h ↦ hmemory h.1
  have hfine : StepFine param call (.data text) ↔
      piece = [] ∨ text.length + piece.length < 2 ^ 62 := by
    rw [StepFine, if_neg hmemory, hcall.piece]
    exact ⟨fun h ↦ h piece rfl, fun h _ hsome ↦ Option.some_inj.1 hsome ▸ h⟩
  have hstores' := hstores
  rw [Stores, if_neg hmemory] at hstores'
  obtain ⟨hused, behind, hbuffer⟩ := hstores'
  by_cases hnil : piece = []
  · have hfollowing : PutValue.following param.ctype call (.data text) = .data text := by
      rw [hcall.following_data, hnil, List.append_nil]
    rw [hnil, List.length_nil] at hlength
    rw [putNext_refused hlo hused (by omega)]
    refine .fine (hfine.2 (Or.inl hnil)) ((callRight_iff_same (Or.inr (Or.inl rfl))).2 rfl)
      (PutValue.next_refused.trans hfollowing.symm) ?_
    rw [hfollowing]
    exact ⟨hput, hstores, hopen⟩
  · have hpos : 0 < piece.length := List.length_pos_iff.2 hnil
    rw [putNext, hused, Option.bind_some, if_neg hmemory, if_pos (by omega)]
    by_cases hlt : text.length + piece.length < 2 ^ 62
    · obtain ⟨a, hloop, ha⟩ := @allocsize_reaches (text.length + n) (by omega)
      obtain ⟨behind', hcopy⟩ := @copyPiece_next text putbuf behind n a hhanded.room ha
      rw [htake] at hcopy
      have hstored : Stores param (text ++ piece) { s with
          execUsed := some ((text.length : Int) + n)
          execBuffer := some (text ++ piece ++ 0 :: behind') } := by
        rw [Stores, if_neg hmemory, List.length_append, hlength]
        exact ⟨rfl, behind', rfl⟩
      rw [hloop, Option.bind_some, hbuffer, Int.toNat_natCast, hcopy]
      refine .fine (hfine.2 (Or.inr hlt))
        ((@callRight_iff_stores param call (.data text) s _ (text ++ piece) .success nofun nofun
          hcall.some hcall.next_data).2 hstored)
        (hcall.next_data.trans hcall.following_data.symm) ?_
      rw [hcall.following_data]
      exact ⟨hput, hstored, hopen⟩
    · rw [allocsize_none (by omega)]
      exact .outside fun h ↦ (hfine.1 h).elim hnil hlt

/-- Another piece, to a large object. -/
theorem putNext_large (hlo : param.handlingLo = true) (hcall : Supplies param call piece)
    (hhanded : Handed param piece putbuf n) (hat : PutsAt param (.data text) s) :
    CallLeaves param call (.data text) s (putNext param call putbuf n s) := by
  obtain ⟨hput, hstores, hopen⟩ := hat
  obtain ⟨hused, hwritten⟩ := (stores_lo hlo).1 hstores
  rw [putNext_lo hlo hused]
  obtain ⟨w, hw⟩ : ∃ w, w = wrapInt 32 n := ⟨_, rfl⟩
  rw [← hw]
  have hright := fun s' ↦ @callRight_iff_stores param call (.data text) s s' (text ++ piece)
    .success nofun nofun hcall.some hcall.next_data
  have hiff := @stores_lo_iff param call s piece text putbuf n hlo hhanded (hopen hlo) hwritten
  have hiff := @stores_lo_iff param call s piece text putbuf n hlo hhanded (hopen hlo) hwritten
    w hw
  have hstep : Stores param (text ++ piece)
      { odbcLoWrite call.writes putbuf w s with
        execUsed := some ((s.written.length : Int) + n) } ↔ WriteFine param call piece ∧
      (param.ctype = .char → isHexText (text ++ piece) = true → DigitsFit text piece) := by
    rw [stores_lo hlo, Option.some_inj]
    exact hiff
  have hfine : StepFine param call (.data text) ↔ WriteFine param call piece ∧
      (param.ctype = .char → isHexText (text ++ piece) = true → DigitsFit text piece) := by
    rw [StepFine, if_pos hlo, hcall.piece]
    constructor
    · rintro ⟨_, hsome, hall⟩
      cases hsome
      exact hall
    · exact fun hall ↦ ⟨piece, rfl, hall⟩
  by_cases hstored : StepFine param call (.data text)
  · refine .fine hstored ((hright _).2 (hstep.2 (hfine.1 hstored)))
      (hcall.next_data.trans hcall.following_data.symm) ?_
    rw [hcall.following_data]
    exact ⟨hput, hstep.2 (hfine.1 hstored), hopen⟩
  · exact .wrong hstored fun h ↦ hstored (hfine.2 (hstep.1 ((hright _).1 h)))

/-- A call behind one that has supplied a piece. -/
theorem putData_data (htype : ∀ length, param.ctype ≠ .fixed length) (hgiven : call.Given)
    (hat : PutsAt param (.data text) s) :
    CallLeaves param call (.data text) s (pgapiPutData param call s) := by
  have hbehind : ¬s.putData = false := by
    rw [hat.1]
    exact Bool.noConfusion
  cases hpiece : call.piece param.ctype with
  | none =>
    have hright := fun retval s' ↦ @callRight_iff_same param call (.data text) s s' retval
      (Or.inr (Or.inr ⟨hgiven.ne_null, hpiece⟩))
    rw [pgapiPutData_of_none htype hpiece, if_neg hbehind]
    cases hlo : param.handlingLo with
    | true =>
      obtain ⟨hused, -⟩ := (stores_lo hlo).1 hat.2.1
      rw [putNext_lo hlo hused]
      refine .wrong (fun h ↦ ?_) fun h ↦ ?_
      · rw [StepFine, if_pos hlo] at h
        obtain ⟨piece, hsome, -⟩ := h
        cases hpiece.symm.trans hsome
      · refine stored_ne (fun heq ↦ ?_) ((hright _ _).1 h)
        have hlength := Option.some_inj.1 (heq.trans hused)
        omega
    | false =>
      have hfollowing : PutValue.following param.ctype call (.data text) = .data text := by
        rw [PutValue.following, hpiece, Option.getD_none, List.append_nil]
      have hstores := hat.2.1
      rw [Stores, hlo, if_neg Bool.false_ne_true] at hstores
      rw [putNext_refused hlo hstores.1 (by omega)]
      refine .fine ?_ ((hright _ _).2 rfl) (PutValue.next_refused.trans hfollowing.symm) ?_
      · rw [StepFine, hlo, if_neg Bool.false_ne_true, hpiece]
        exact nofun
      · rw [hfollowing]
        exact hat
  | some piece =>
    obtain ⟨putbuf, n, hhanded, hcall⟩ := pgapiPutData_of_piece hgiven htype hpiece
    have hsupplies : Supplies param call piece := ⟨hgiven.ne_null, hpiece⟩
    rw [hcall, if_neg hbehind]
    cases hlo : param.handlingLo with
    | true => exact putNext_large hlo hsupplies hhanded hat
    | false => exact putNext_memory hlo hsupplies hhanded hat

/-! ## The theorem -/

/-- A sequence of calls that supply pieces. -/
theorem putsRight_iff_of_given {calls : List PutCall}
    (htype : ∀ length, param.ctype ≠ .fixed length) (hcalls : ∀ call ∈ calls, call.Given)
    (hvalue : value ≠ .nothing) (hat : PutsAt param value s) :
    PutsRight param value calls s ↔ PutsFine param value calls := by
  induction calls generalizing value s with
  | nil => exact Iff.rfl
  | cons call calls ih =>
    obtain ⟨hgiven, hcalls⟩ := List.forall_mem_cons.1 hcalls
    have hleaves : CallLeaves param call value s (pgapiPutData param call s) := by
      cases value with
      | nothing => exact absurd rfl hvalue
      | null => exact putData_null htype hgiven hat
      | data text => exact putData_data htype hgiven hat
    have hfollowing : value.following param.ctype call ≠ .nothing := by
      cases value with
      | nothing => exact absurd rfl hvalue
      | null => exact nofun
      | data text => exact nofun
    rw [PutsRight, PutsFine]
    generalize pgapiPutData param call s = result at hleaves
    cases hleaves with
    | fine hfine hright hnext hat' =>
      dsimp only
      rw [hnext]
      exact and_congr (iff_of_true hright hfine) (ih hcalls hfollowing hat')
    | wrong hfine hright => exact iff_of_false (fun h ↦ hright h.1) fun h ↦ hfine h.1
    | outside hfine => exact iff_of_false id fun h ↦ hfine h.1

end

/-- A sequence of calls stores the pieces they supply, in buffers that are large enough and whatever
comes behind `SQL_NULL_DATA`, exactly if each is as the condition says. -/
theorem putsRight_iff (param : PutParam) (calls : List PutCall) (h : CallsGiven param calls) :
    PutsRight param .nothing calls .fresh ↔ PutsFine param .nothing calls := by
  obtain ⟨htype, hfirst, hcalls⟩ := h
  match calls with
  | [] => exact Iff.rfl
  | call :: calls =>
    have hleaves := @putData_first param call htype (hfirst call rfl)
    have hfollowing : PutValue.following param.ctype call .nothing ≠ .nothing := by
      rw [PutValue.following]
      split
      · exact nofun
      · exact nofun
    rw [PutsRight, PutsFine]
    generalize pgapiPutData param call .fresh = result at hleaves
    cases hleaves with
    | fine hfine hright hnext hat =>
      dsimp only
      rw [hnext]
      exact and_congr (iff_of_true hright hfine)
        (putsRight_iff_of_given htype hcalls hfollowing hat)
    | wrong hfine hright => exact iff_of_false (fun h ↦ hright h.1) fun h ↦ hfine h.1
    | outside hfine => exact iff_of_false id fun h ↦ hfine h.1

/-- The digits `30` and `3` for a large object. -/
theorem putsRight_two : PutsRight ⟨.char, true⟩ .nothing
    [⟨-3, [51, 48, 0], true, true, true, true⟩, ⟨1, [51], true, true, true, true⟩] .fresh := by
  refine (putsRight_iff ⟨.char, true⟩ _ ⟨nofun, ?_, ?_⟩).2 ⟨fun _ ↦ ?_, ?_, trivial⟩
  · rintro call ⟨⟩
    exact Or.inr (Or.inl rfl)
  · exact List.forall_mem_singleton.2 (Or.inr ⟨by decide, by decide⟩)
  · exact ⟨[51, 48], rfl, fun _ ↦ ⟨rfl, rfl, rfl, by decide, Or.inr rfl⟩⟩
  · exact ⟨[51], rfl, ⟨by decide, Or.inl rfl⟩, fun _ _ ↦ Or.inl rfl⟩

/-- A piece behind `SQL_NULL_DATA` goes outside of the memory. -/
theorem not_putsRight : ¬∀ param calls, CallsGiven param calls →
    PutsRight param .nothing calls .fresh := by
  intro h
  refine (h ⟨.char, false⟩
    [⟨-1, [], true, true, true, true⟩, ⟨1, [97], true, true, true, true⟩] ⟨nofun, ?_, ?_⟩).2
  · rintro call ⟨⟩
    exact Or.inl rfl
  · exact List.forall_mem_singleton.2 (Or.inr ⟨by decide, by decide⟩)

end PsqlOdbc
