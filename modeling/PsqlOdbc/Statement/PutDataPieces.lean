import PsqlOdbc.Statement.PutData

/-!
# Pieces of the data of a parameter

What a call of `PGAPI_PutData` does with its piece.  A piece that is appended to memory finds what
has been supplied at the beginning of it (`copyPiece_next`).  Digits that are decoded piece by piece
give the bytes of the whole text if each piece begins with a whole byte (`hexDecode_append_iff`).
-/

namespace PsqlOdbc

open Lib Lib.CountingBuffer

/-! ## Digits -/

section

variable {text piece rest : List UInt8} {c d : UInt8}

theorem hexDecode_append_of_even (h : text.length % 2 = 0) (rest : List UInt8) :
    hexDecode (text ++ rest) = hexDecode text ++ hexDecode rest := by
  fun_induction hexDecode text with
  | case1 high low text ih =>
    rw [List.length_cons, List.length_cons] at h
    exact congrArg (_ :: ·) (ih (by omega))
  | case2 text hshort =>
    match text with
    | [] => rfl
    | [_] => cases h
    | high :: low :: text => exact absurd rfl (hshort high low text)

theorem length_hexDecode (text : List UInt8) : (hexDecode text).length = text.length / 2 := by
  fun_induction hexDecode text with
  | case1 high low text ih =>
    rw [List.length_cons, ih, List.length_cons, List.length_cons]
    omega
  | case2 text hshort =>
    match text with
    | [] => rfl
    | [_] => exact show (0 : Nat) = 1 / 2 by decide
    | high :: low :: text => exact absurd rfl (hshort high low text)

/-- The digits of a byte can be read off. -/
theorem hexByte_inj {a b a' b' : Nat} (ha : a < 16) (hb : b < 16) (ha' : a' < 16) (hb' : b' < 16)
    (h : UInt8.ofNat (16 * a + b) = UInt8.ofNat (16 * a' + b')) : a = a' ∧ b = b' := by
  have h' := congrArg UInt8.toNat h
  rw [UInt8.toNat_ofNat', UInt8.toNat_ofNat'] at h'
  omega

theorem isHexText_cons :
    isHexText (c :: text) = true ↔ digitValue c < 16 ∧ isHexText text = true := by
  rw [isHexText, List.all_cons, Bool.and_eq_true, decide_eq_true_eq]
  rfl

/-- Digits that follow half a byte. -/
theorem hexDecode_cons_iff (hd : digitValue d < 16) (hpiece : isHexText piece = true) :
    hexDecode (d :: piece) = hexDecode piece ↔
      piece = [] ∨ piece.length % 2 = 0 ∧ ∀ c ∈ piece, digitValue c = digitValue d := by
  fun_induction hexDecode piece generalizing d with
  | case1 high low rest ih =>
    obtain ⟨hhigh, hpiece⟩ := isHexText_cons.1 hpiece
    obtain ⟨hlow, hrest⟩ := isHexText_cons.1 hpiece
    have hmod : (rest.length + 1 + 1) % 2 = rest.length % 2 := Nat.add_mod_right _ 2
    rw [hexDecode, List.cons.injEq, or_iff_right (List.cons_ne_nil _ _), List.length_cons,
      List.length_cons, List.forall_mem_cons, List.forall_mem_cons, hmod, ih hlow hrest]
    constructor
    · rintro ⟨hbyte, htail⟩
      obtain ⟨hhd, hlh⟩ := hexByte_inj hd hhigh hhigh hlow hbyte
      refine ⟨?_, hhd.symm, hlh.symm.trans hhd.symm, ?_⟩
      · rcases htail with rfl | ⟨heven, -⟩
        · rfl
        · exact heven
      · rcases htail with rfl | ⟨-, hall⟩
        · exact List.forall_mem_nil _
        · exact fun c hc ↦ (hall c hc).trans (hlh.symm.trans hhd.symm)
    · rintro ⟨heven, hhd, hld, hall⟩
      rw [hhd, hld]
      exact ⟨rfl, Or.inr ⟨heven, hall⟩⟩
  | case2 rest hshort =>
    match rest with
    | [] => exact iff_of_true rfl (Or.inl rfl)
    | [c] =>
      refine iff_of_false (fun h ↦ List.cons_ne_nil _ _ h) ?_
      rintro (h | ⟨h, -⟩)
      · exact List.cons_ne_nil _ _ h
      · cases h
    | high :: low :: rest => exact absurd rfl (hshort high low rest)

/-- A text that is decoded in two pieces. -/
theorem hexDecode_append_iff (h : isHexText (text ++ piece) = true) :
    hexDecode (text ++ piece) = hexDecode text ++ hexDecode piece ↔ DigitsFit text piece := by
  rw [DigitsFit]
  by_cases heven : text.length % 2 = 0
  · exact iff_of_true (hexDecode_append_of_even heven piece) (Or.inl heven)
  rw [or_iff_right heven]
  rcases List.eq_nil_or_concat text with rfl | ⟨front, d, rfl⟩
  · exact absurd rfl heven
  rw [List.concat_eq_append] at heven h ⊢
  have hfront : front.length % 2 = 0 := by
    rw [List.length_append, List.length_singleton] at heven
    omega
  rw [isHexText, List.append_assoc, List.all_append, Bool.and_eq_true] at h
  obtain ⟨hd, hpiece⟩ := isHexText_cons.1 h.2
  have hsingle : hexDecode [d] = [] := rfl
  rw [List.append_assoc, hexDecode_append_of_even hfront, hexDecode_append_of_even hfront, hsingle,
    List.append_nil, List.append_cancel_left_eq, List.getLastD_concat]
  exact hexDecode_cons_iff hd hpiece

end

/-! ## Decoding a piece -/

section

variable {text src out front cells : List UInt8} {n dst : Nat} {hByte : Bool} {c : UInt8}

theorem hex2binVal_eq (h : digitValue c < 16) : hex2binVal c = UInt8.ofNat (digitValue c) := by
  have hall : ∀ n < 256, digitValue (UInt8.ofNat n) < 16 →
      hex2binVal (UInt8.ofNat n) = UInt8.ofNat (digitValue (UInt8.ofNat n)) := by decide +kernel
  have hc := hall c.toNat c.toNat_lt
  rw [UInt8.ofNat_toNat] at hc
  exact hc h

theorem ne_zero_of_digit (h : digitValue c < 16) : c ≠ 0 := by
  rintro rfl
  exact absurd h (by decide)

theorem byte_of_digits {high low : UInt8} (hhigh : digitValue high < 16)
    (hlow : digitValue low < 16) :
    hex2binVal high <<< 4 + hex2binVal low =
      UInt8.ofNat (16 * digitValue high + digitValue low) := by
  have hall : ∀ a < 16, ∀ b < 16,
      UInt8.ofNat a <<< 4 + UInt8.ofNat b = UInt8.ofNat (16 * a + b) := by decide
  rw [hex2binVal_eq hhigh, hex2binVal_eq hlow]
  exact hall _ hhigh _ hlow

/-- The loop stays in a buffer that has room for its bytes and one more. -/
theorem pgHex2binLoop_room (hsrc : n ≤ src.length)
    (hroom : dst + (n + if hByte then 0 else 1) / 2 < out.length) :
    ∃ out' dst', pgHex2binLoop n hByte src out dst = some (out', dst') ∧
      out'.length = out.length ∧ dst' < out.length := by
  induction n generalizing hByte src out dst with
  | zero => exact ⟨out, dst, by cases src <;> rfl, rfl, by omega⟩
  | succ n ih =>
    obtain ⟨chr, src, rfl⟩ := List.exists_cons_of_length_pos (Nat.zero_lt_of_lt hsrc)
    rw [List.length_cons] at hsrc
    have hdst : dst < out.length := by omega
    rw [pgHex2binLoop]
    by_cases hzero : chr = 0
    · rw [if_pos hzero]
      exact ⟨out, dst, rfl, rfl, hdst⟩
    rw [if_neg hzero]
    cases hByte with
    | true =>
      rw [if_pos rfl, store, if_pos hdst, Option.bind_some]
      obtain ⟨out', dst', hloop, hlen, hlt⟩ :=
        @ih src (out.set dst (hex2binVal chr <<< 4)) dst false (Nat.le_of_succ_le_succ hsrc)
          (by rw [List.length_set]; exact hroom)
      rw [List.length_set] at hlen hlt
      exact ⟨out', dst', hloop, hlen, hlt⟩
    | false =>
      rw [if_neg Bool.false_ne_true, List.getElem?_eq_getElem hdst, Option.bind_some, store,
        if_pos hdst, Option.bind_some]
      obtain ⟨out', dst', hloop, hlen, hlt⟩ :=
        @ih src (out.set dst (out[dst] + hex2binVal chr)) (dst + 1) true
          (Nat.le_of_succ_le_succ hsrc) (by rw [List.length_set]; simp at hroom ⊢; omega)
      rw [List.length_set] at hlen hlt
      exact ⟨out', dst', hloop, hlen, hlt⟩

/-- Of a text in digits the loop makes its bytes. -/
theorem pgHex2binLoop_digits (h : isHexText text = true) (hroom : text.length / 2 < cells.length)
    (src : List UInt8) :
    ∃ rest, pgHex2binLoop text.length true (text ++ src) (front ++ cells) front.length =
        some (front ++ (hexDecode text ++ rest), front.length + text.length / 2) ∧
      rest ≠ [] := by
  fun_induction hexDecode text generalizing front cells with
  | case1 high low text ih =>
    obtain ⟨hhigh, h⟩ := isHexText_cons.1 h
    obtain ⟨hlow, h⟩ := isHexText_cons.1 h
    obtain ⟨c, cells, rfl⟩ := List.exists_cons_of_length_pos (Nat.zero_lt_of_lt hroom)
    rw [List.length_cons, List.length_cons, List.length_cons] at hroom
    obtain ⟨rest, hloop, hne⟩ :=
      @ih (front ++ [UInt8.ofNat (16 * digitValue high + digitValue low)]) cells h (by omega)
    rw [List.length_append, List.length_singleton, List.append_assoc, List.append_assoc] at hloop
    refine ⟨rest, ?_, hne⟩
    have hread : (front ++ hex2binVal high <<< 4 :: cells)[front.length]? =
        some (hex2binVal high <<< 4) := getElem?_length_append
    have hlen : front.length + 1 + text.length / 2 =
        front.length + (high :: low :: text).length / 2 := by
      rw [List.length_cons, List.length_cons]
      omega
    rw [hlen] at hloop
    simp only [List.length_cons, List.cons_append, pgHex2binLoop, if_neg (ne_zero_of_digit hhigh),
      if_neg (ne_zero_of_digit hlow), store_cons, Option.bind_some, hread, if_true, if_false,
      Bool.false_eq_true, byte_of_digits hhigh hlow]
    exact hloop
  | case2 text hshort =>
    obtain ⟨c, cells, rfl⟩ := List.exists_cons_of_length_pos (Nat.zero_lt_of_lt hroom)
    rcases text with _ | ⟨high, _ | ⟨low, text⟩⟩
    · exact ⟨c :: cells, by cases src <;> rfl, List.cons_ne_nil _ _⟩
    · have hhigh := (isHexText_cons.1 h).1
      refine ⟨hex2binVal high <<< 4 :: cells, ?_, List.cons_ne_nil _ _⟩
      simp only [List.length_cons, List.length_nil, List.cons_append, List.nil_append,
        pgHex2binLoop, if_neg (ne_zero_of_digit hhigh), store_cons, Option.bind_some, if_true]
      rfl
    · exact absurd rfl (hshort high low text)

theorem pgHex2bin_room {memory : List UInt8} (hn : n ≤ memory.length) :
    ∃ out, pgHex2bin memory (List.replicate (n / 2 + 1) 0) 0 n = some out ∧
      out.length = n / 2 + 1 ∧
      (isHexText (memory.take n) = true → out.take (n / 2) = hexDecode (memory.take n)) := by
  have hroom : 0 + (n + if true then 0 else 1) / 2 <
      (List.replicate (n / 2 + 1) (0 : UInt8)).length := by
    rw [List.length_replicate, if_pos rfl]
    omega
  obtain ⟨out, dst, hloop, hlen, hdst⟩ := pgHex2binLoop_room hn hroom
  rw [List.length_replicate] at hlen hdst
  refine ⟨out.set dst 0, ?_, ?_, fun hhex ↦ ?_⟩
  · rw [pgHex2bin, hloop, Option.bind_some]
    exact if_pos (hlen ▸ hdst)
  · rw [List.length_set, hlen]
  · have htake : (memory.take n).length = n := List.length_take_of_le hn
    obtain ⟨rest, hdigits, hne⟩ := @pgHex2binLoop_digits (memory.take n) []
      (List.replicate (n / 2 + 1) 0) hhex (by rw [htake, List.length_replicate]; omega)
      (memory.drop n)
    rw [htake, List.take_append_drop, List.nil_append, List.nil_append, List.length_nil, hloop,
      Nat.zero_add, Option.some_inj, Prod.mk.injEq] at hdigits
    obtain ⟨rfl, rfl⟩ := hdigits
    have hdecode : (hexDecode (memory.take n)).length = n / 2 := by rw [length_hexDecode, htake]
    rw [List.set_append_right _ _ hdecode.le, ← hdecode, List.take_left]

end

/-! ## What is handed over -/

section

variable {param : PutParam} {call : PutCall} {piece memory : List UInt8} {n : Nat}

theorem length_ucs2strlenBytes (memory : List UInt8) :
    2 * ucs2strlenBytes memory ≤ memory.length := by
  fun_induction ucs2strlenBytes memory with
  | case1 => exact Nat.zero_le _
  | case2 a b rest _ ih =>
    rw [List.length_cons, List.length_cons]
    omega
  | case3 => exact Nat.zero_le _

/-- The length of a piece that is given. -/
theorem putlen_of_piece {ctype : PutCType} (hgiven : call.Given)
    (htype : ∀ length, ctype ≠ .fixed length) (hpiece : call.piece ctype = some piece) :
    putlen ctype call = piece.length ∧ piece.length ≤ call.memory.length ∧
      call.memory.take piece.length = piece := by
  by_cases hnts : call.cbValue = -3
  · cases ctype with
    | char =>
      rw [PutCall.piece, if_pos hnts] at hpiece
      cases hpiece
      have hnwchar : ¬(call.cbValue = -3 ∧ PutCType.char = .wchar) := fun h ↦ nomatch h.2
      rw [putlen, if_neg hnwchar, if_pos ⟨hnts, rfl⟩, strlen]
      have htake := List.prefix_iff_eq_take.1
        (@List.takeWhile_prefix _ call.memory fun c ↦ decide (c ≠ 0))
      exact ⟨rfl, (List.takeWhile_prefix _).length_le, htake.symm⟩
    | wchar =>
      rw [PutCall.piece, if_pos hnts] at hpiece
      cases hpiece
      have hlen : (call.memory.take (2 * ucs2strlenBytes call.memory)).length =
          2 * ucs2strlenBytes call.memory :=
        List.length_take_of_le (length_ucs2strlenBytes call.memory)
      rw [putlen, if_pos ⟨hnts, rfl⟩, hlen]
      exact ⟨by push_cast; rfl, length_ucs2strlenBytes call.memory, rfl⟩
    | binary =>
      rw [PutCall.piece, if_pos hnts] at hpiece
      cases hpiece
    | fixed length => exact absurd rfl (htype length)
  · obtain ⟨hpos, hle⟩ := hgiven.resolve_left hnts
    rw [PutCall.piece.eq_def, if_neg hnts] at hpiece
    cases hpiece
    have hlen : (call.memory.take call.cbValue.toNat).length = call.cbValue.toNat :=
      List.length_take_of_le (by omega)
    have hcast : call.cbValue = (call.cbValue.toNat : Int) := (Int.toNat_of_nonneg hpos).symm
    rw [putlen.eq_def, if_neg fun h ↦ hnts h.1, if_neg fun h ↦ hnts h.1, if_neg (by omega), hlen]
    refine ⟨?_, by omega, rfl⟩
    cases ctype with
    | fixed length => exact absurd rfl (htype length)
    | char => exact hcast
    | wchar => exact hcast
    | binary => exact hcast

/-- Binary data without a length. -/
theorem putlen_of_none {ctype : PutCType} (htype : ∀ length, ctype ≠ .fixed length)
    (hpiece : call.piece ctype = none) : putlen ctype call = -3 ∧ ctype = .binary := by
  by_cases hnts : call.cbValue = -3
  · cases ctype with
    | char =>
      rw [PutCall.piece, if_pos hnts] at hpiece
      cases hpiece
    | wchar =>
      rw [PutCall.piece, if_pos hnts] at hpiece
      cases hpiece
    | binary =>
      have hnwchar : ¬(call.cbValue = -3 ∧ PutCType.binary = .wchar) := fun h ↦ nomatch h.2
      have hnchar : ¬(call.cbValue = -3 ∧ PutCType.binary = .char) := fun h ↦ nomatch h.2
      rw [putlen, if_neg hnwchar, if_neg hnchar, if_pos (by omega)]
      exact ⟨hnts, rfl⟩
    | fixed length => exact absurd rfl (htype length)
  · rw [PutCall.piece.eq_def, if_neg hnts] at hpiece
    cases hpiece

/-- The bytes that are handed over. -/
structure Handed (param : PutParam) (piece putbuf : List UInt8) (n : Nat) : Prop where
  room : n ≤ putbuf.length
  length : n = if param.handlingLo then loLength param piece else piece.length
  plain : ¬(param.handlingLo = true ∧ param.ctype = .char) → putbuf.take n = piece
  digits : param.handlingLo = true → param.ctype = .char → isHexText piece = true →
    putbuf.take n = hexDecode piece

/-- What `PGAPI_PutData` does with a piece. -/
theorem pgapiPutData_of_piece (hgiven : call.Given)
    (htype : ∀ length, param.ctype ≠ .fixed length)
    (hpiece : call.piece param.ctype = some piece) :
    ∃ putbuf n, Handed param piece putbuf n ∧ ∀ s, pgapiPutData param call s =
      if s.putData = false then putFirst param call putbuf n s
      else putNext param call putbuf n s := by
  obtain ⟨hputlen, hle, htake⟩ := putlen_of_piece hgiven htype hpiece
  by_cases hlo : param.handlingLo = true ∧ param.ctype = .char
  · obtain ⟨out, hout, hlen, hdigits⟩ := pgHex2bin_room hle
    rw [htake] at hdigits
    refine ⟨out, piece.length / 2, ⟨?_, ?_, fun h ↦ absurd hlo h, fun _ _ ↦ hdigits⟩, fun s ↦ ?_⟩
    · omega
    · rw [if_pos hlo.1, loLength, if_pos hlo.2]
    · have htdiv : (piece.length : Int).tdiv 2 = ((piece.length / 2 : Nat) : Int) := rfl
      have hhex : hexPiece call.memory piece.length =
          some (out, ((piece.length / 2 : Nat) : Int)) := by
        rw [hexPiece, htdiv, if_neg (by omega)]
        have hsize : (((piece.length / 2 : Nat) : Int) + 1).toNat = piece.length / 2 + 1 := by omega
        rw [hsize, Int.toNat_natCast, hout]
        rfl
      rw [pgapiPutData, hputlen, if_pos hlo, hhex]
      rfl
  · refine ⟨call.memory, piece.length, ⟨hle, ?_, fun _ ↦ htake, fun h h' ↦ absurd ⟨h, h'⟩ hlo⟩,
      fun s ↦ ?_⟩
    · by_cases hhandling : param.handlingLo = true
      · rw [if_pos hhandling, loLength, if_neg fun h ↦ hlo ⟨hhandling, h⟩]
      · rw [if_neg hhandling]
    · rw [pgapiPutData, hputlen, if_neg hlo]
      rfl

/-- What it does with binary data without a length. -/
theorem pgapiPutData_of_none (htype : ∀ length, param.ctype ≠ .fixed length)
    (hpiece : call.piece param.ctype = none) (s : PutState) :
    pgapiPutData param call s = if s.putData = false then putFirst param call call.memory (-3) s
      else putNext param call call.memory (-3) s := by
  obtain ⟨hputlen, hbinary⟩ := putlen_of_none htype hpiece
  have hlo : ¬(param.handlingLo = true ∧ param.ctype = .char) := by
    rw [hbinary]
    exact fun h ↦ nomatch h.2
  rw [pgapiPutData, hputlen, if_neg hlo]
  rfl

end

/-! ## Writing to the server -/

section

variable {s : PutState} {buf : List UInt8} {n : Nat} {writes : Bool}

theorem odbcLoWrite_nonpos {w : Int} (hw : w ≤ 0) : odbcLoWrite writes buf w s = s := by
  rw [odbcLoWrite, if_neg fun h ↦ Int.not_lt.2 hw h.1]

/-- A length that fits into an `Int4` is written as it is. -/
theorem written_odbcLoWrite (hopen : s.lobjOpen = true) (hlt : n < 2 ^ 31)
    (hwrites : n = 0 ∨ writes = true) :
    (odbcLoWrite writes buf (wrapInt 32 n) s).written = s.written ++ buf.take n := by
  have hwrap : wrapInt 32 n = n := Int.bmod_eq_of_le (by omega) (by omega)
  rw [hwrap]
  by_cases hzero : n = 0
  · rw [odbcLoWrite_nonpos (by omega), hzero, List.take_zero, List.append_nil]
  · rw [odbcLoWrite, if_pos ⟨by omega, hopen, hwrites.resolve_left hzero⟩, Int.toNat_natCast]

/-- Otherwise fewer bytes are written. -/
theorem length_odbcLoWrite_ne (h : ¬(n < 2 ^ 31 ∧ (n = 0 ∨ writes = true))) :
    (odbcLoWrite writes buf (wrapInt 32 n) s).written.length ≠ s.written.length + n := by
  have hpos : 0 < n := by
    rcases Nat.eq_zero_or_pos n with rfl | hpos
    · exact absurd ⟨Nat.two_pow_pos 31, Or.inl rfl⟩ h
    · exact hpos
  have hlt : wrapInt 32 n < 2 ^ 31 := Int.bmod_lt (by decide)
  rw [odbcLoWrite]
  dsimp only
  split
  · next hwrites =>
    have hlarge : ¬n < 2 ^ 31 := fun hn ↦ h ⟨hn, Or.inr hwrites.2.2⟩
    rw [List.length_append, List.length_take]
    omega
  · omega

end

/-! ## Appending to the memory -/

section

variable {text piece putbuf behind : List UInt8} {n : Nat}

/-- The loop over `allocsize`. -/
theorem allocsize_reaches {used : Int} (h : used < 2 ^ 62) :
    ∃ a, doubleUntil (wrapSigned 64) (used + 1) 64 16 = some a ∧ used < a := by
  have hwrap : ∀ j ≤ 58, wrapSigned 64 (16 * 2 ^ j) = 16 * 2 ^ j := by decide
  obtain ⟨a, hloop, ha⟩ := doubleUntil_reaches hwrap (show used + 1 ≤ 16 * 2 ^ 58 by omega)
    (show 58 < 64 by decide)
  exact ⟨a, hloop, by omega⟩

/-- It does not end if no positive number is large enough. -/
theorem allocsize_none {used : Int} (h : 2 ^ 62 ≤ used) :
    doubleUntil (wrapSigned 64) (used + 1) 64 16 = none := by
  have hwrap : ∀ j ≤ 58, wrapSigned 64 (16 * 2 ^ j) = 16 * 2 ^ j := by decide
  have hpow : ∀ j < 58, (16 : Int) * 2 ^ j ≤ 2 ^ 62 := by decide
  have hpass := doubleUntil_passes hwrap
    (fun j hj ↦ Int.lt_add_one_of_le ((hpow j hj).trans h)) 6
  have htop : wrapSigned 64 (16 * 2 ^ 58 * 2) = -2 ^ 63 := by decide
  have hzero : wrapSigned 64 (-2 ^ 63 * 2) = 0 := by decide
  rw [hpass, doubleUntil, if_pos (by omega), htop, doubleUntil, if_pos (by omega), hzero]
  exact doubleUntil_zero rfl (by omega) 4

theorem copyPiece_append {cells : List UInt8} (hn : n ≤ putbuf.length) (hroom : n < cells.length) :
    ∃ behind, copyPiece (text ++ cells) text.length putbuf n =
      some (text ++ putbuf.take n ++ 0 :: behind) := by
  have htake : (putbuf.take n).length = n := List.length_take_of_le hn
  have hfits : (putbuf.take n).length ≤ cells.length := htake.le.trans hroom.le
  obtain ⟨c, behind, hdrop⟩ := List.exists_cons_of_length_pos
    (show 0 < (cells.drop n).length by rw [List.length_drop]; omega)
  refine ⟨behind, ?_⟩
  have hplace : ((text.length : Int)).toNat + n = (text ++ putbuf.take n).length := by
    rw [List.length_append, htake, Int.toNat_natCast]
  rw [copyPiece, if_neg (by omega), hplace, Int.toNat_natCast, storeAll_append hfits,
    Option.bind_some, overwrite_eq_append, htake, hdrop, ← List.append_assoc, store_cons]

/-- The first piece. -/
theorem copyPiece_first (hn : n ≤ putbuf.length) :
    ∃ behind, copyPiece (List.replicate ((n : Int) + 1).toNat 0) 0 putbuf n =
      some (putbuf.take n ++ 0 :: behind) := by
  have hroom : n < (List.replicate ((n : Int) + 1).toNat (0 : UInt8)).length := by
    rw [List.length_replicate]
    omega
  have happend := @copyPiece_append [] putbuf n _ hn hroom
  simp only [List.nil_append] at happend
  exact happend

/-- Another piece behind the text. -/
theorem copyPiece_next {a : Int} (hn : n ≤ putbuf.length) (ha : (text.length : Int) + n < a) :
    ∃ behind', copyPiece (reallocCells (some (text ++ 0 :: behind)) a.toNat) text.length putbuf n =
      some (text ++ putbuf.take n ++ 0 :: behind') := by
  have hsize : text.length + n < a.toNat := by omega
  have hcells : ∃ cells, reallocCells (some (text ++ 0 :: behind)) a.toNat = text ++ cells ∧
      n < cells.length := by
    rw [reallocCells, Option.getD_some, List.take_append, List.take_of_length_le (by omega),
      List.append_assoc]
    refine ⟨_, rfl, ?_⟩
    rw [List.length_append, List.length_replicate, List.length_append]
    omega
  obtain ⟨cells, hcells, hroom⟩ := hcells
  rw [hcells]
  exact copyPiece_append hn hroom

end

end PsqlOdbc
