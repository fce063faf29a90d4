import PsqlOdbc.WideText

/-!
# Which wide texts arrive

Where there is room for a text and its terminator, and the sizes are within their types, the narrow
function gives all of the text, be it in the second call, and the conversion stores all of it
(`right_of_meets`).
-/

namespace PsqlOdbc

open Lib Lib.CountingBuffer

/-! ## Sizes of characters -/

/-- A unit stands for three bytes at most. -/
theorem length_utf8EncodeChar_le (c : Char) :
    (String.utf8EncodeChar c).length ≤ 3 * (utf16EncodeChar c).length := by
  have hr := char_range c
  by_cases hbmp : c.toNat < 0x10000
  · rw [utf16EncodeChar_one rfl hbmp]
    by_cases h7 : c.toNat < 0x80
    · rw [utf8EncodeChar_one rfl h7]
      exact (by decide : 1 ≤ 3)
    by_cases h11 : c.toNat < 0x800
    · rw [utf8EncodeChar_two rfl (by omega) h11]
      exact (by decide : 2 ≤ 3)
    · rw [utf8EncodeChar_three rfl (by omega) hbmp]
      exact (by decide : 3 ≤ 3)
  · rw [utf16EncodeChar_two (u := c.toNat - 0x10000) rfl (by omega),
      utf8EncodeChar_four rfl (by omega) (by omega)]
    exact (by decide : 4 ≤ 6)

theorem length_utf8Encode_le (chars : List Char) :
    (utf8Encode chars).length ≤ 3 * (utf16Encode chars).length := by
  induction chars with
  | nil => exact le_rfl
  | cons c chars ih =>
    have hle := length_utf8EncodeChar_le c
    rw [utf16Encode_cons, utf8Encode_cons, List.length_append, List.length_append]
    omega

/-! ## Integers -/

theorem wrapUnsigned_of_nonneg {w : Nat} {x : Int} (hle : 0 ≤ x) (hlt : x < 2 ^ w) :
    wrapUnsigned w x = x := Int.emod_eq_of_lt hle hlt

theorem wrapSigned_of_nonneg {w : Nat} (hw : 0 < w) {x : Int} (hle : 0 ≤ x)
    (hlt : x < 2 ^ (w - 1)) : wrapSigned w x = x :=
  wrapSigned_of_lt hw (le_trans (Int.neg_nonpos_of_nonneg (Int.pow_pos (by decide)).le) hle) hlt

theorem wrapSigned_lt {w : Nat} (hw : 0 < w) (x : Int) : wrapSigned w x < 2 ^ (w - 1) := by
  obtain ⟨k, rfl⟩ := Nat.exists_eq_succ_of_ne_zero hw.ne'
  have hpow : (2 : Int) ^ (k + 1) = 2 ^ k * 2 := pow_succ 2 k
  have hlt := Int.emod_lt_of_pos (x + 2 ^ k) (Int.pow_pos (by decide) : (0 : Int) < 2 ^ (k + 1))
  rw [wrapSigned, Nat.succ_eq_add_one, Nat.add_sub_cancel]
  omega

/-- A number that is not negative does not get larger. -/
theorem wrapSigned_le {w : Nat} {x : Int} (hle : 0 ≤ x) : wrapSigned w x ≤ x := by
  have hhalf : (0 : Int) < 2 ^ (w - 1) := Int.pow_pos (by decide)
  have hdiv : 0 ≤ (x + 2 ^ (w - 1)) / 2 ^ w :=
    Int.ediv_nonneg (by omega) (Int.pow_pos (by decide)).le
  have hmul : 0 ≤ 2 ^ w * ((x + 2 ^ (w - 1)) / 2 ^ w) :=
    Int.mul_nonneg (Int.pow_pos (by decide)).le hdiv
  have hmod := Int.emod_add_mul_ediv (x + 2 ^ (w - 1)) (2 ^ w)
  rw [wrapSigned]
  omega

namespace SizeType

theorem bits_pos (type : SizeType) : 0 < type.bits := by
  cases type with
  | smallint => exact (by decide : 0 < 16)
  | integer => exact (by decide : 0 < 32)

theorem half_le (type : SizeType) : (2 : Int) ^ (type.bits - 1) ≤ 2 ^ 31 := by
  cases type with
  | smallint => exact (by decide : (2 : Int) ^ 15 ≤ 2 ^ 31)
  | integer => exact le_rfl

theorem assign_of_lt {type : SizeType} {x : Int} (hle : 0 ≤ x)
    (hlt : x < 2 ^ (type.bits - 1)) : type.assign x = some x := by
  cases type with
  | smallint => exact congrArg some (wrapSigned_of_nonneg (by decide) hle hlt)
  | integer => exact if_pos ⟨le_trans (by decide) hle, hlt⟩

/-- What fits a `SQLSMALLINT` fits any of the types. -/
theorem smallint_le (type : SizeType) :
    (2 : Int) ^ (smallint.bits - 1) ≤ 2 ^ (type.bits - 1) := by
  cases type with
  | smallint => exact le_rfl
  | integer => exact (by decide : (2 : Int) ^ 15 ≤ 2 ^ 31)

end SizeType

/-! ## The narrow functions -/

section

variable {type counts : SizeType} {text mem : List UInt8} {max : Int}
  {narrow : List UInt8 → Int → Option NarrowReply}

/-- The memory with as much of the text as there is room for, and the NUL. -/
def narrowStored (text mem : List UInt8) (max : Int) : List UInt8 :=
  overwrite mem (text.take (max - 1).toNat ++ [0])

theorem strncpyNull_eq (hpos : 0 < max) (hmem : max ≤ mem.length) (text : List UInt8) :
    strncpyNull mem text max = some (narrowStored text mem max) := by
  rw [strncpyNull, if_pos hpos, storeAll, if_pos]
  · rfl
  · rw [List.length_append, List.length_take, List.length_singleton]
    omega

theorem narrowStored_of_lt (hlt : (text.length : Int) < max) :
    narrowStored text mem max = text ++ 0 :: mem.drop (text.length + 1) := by
  rw [narrowStored, List.take_of_length_le (by omega), overwrite, List.length_append,
    List.length_singleton, List.append_assoc]
  rfl

theorem length_narrowStored (hpos : 0 < max) (hmem : max ≤ mem.length) (text : List UInt8) :
    (narrowStored text mem max).length = mem.length := by
  refine length_overwrite ?_
  rw [List.length_append, List.length_take, List.length_singleton]
  omega

/-- A narrow function gives all of the text. -/
def GivesText (narrow : List UInt8 → Int → Option NarrowReply) (text mem : List UInt8)
    (max : Int) : Prop :=
  ∃ rest, narrow mem max = some ⟨text ++ rest, text.length, .success⟩

/-- A narrow function stores the text and tells its length. -/
def Standard (counts : SizeType) (text : List UInt8)
    (narrow : List UInt8 → Int → Option NarrowReply) : Prop :=
  ∀ mem max, 0 < max → max < 2 ^ (counts.bits - 1) → max ≤ mem.length →
    ∃ mem', narrow mem max = some
        { text := mem'
          length := wrapSigned counts.bits text.length
          retcode := if max ≤ text.length then .successWithInfo else .success } ∧
      ((text.length : Int) < max → ∃ rest, mem' = text ++ rest)

theorem Standard.givesText (h : Standard counts text narrow) (hpos : 0 < max)
    (hlt : max < 2 ^ (counts.bits - 1)) (hmem : max ≤ mem.length)
    (htext : (text.length : Int) < max) : GivesText narrow text mem max := by
  obtain ⟨mem', hcall, hstored⟩ := h mem max hpos hlt hmem
  obtain ⟨rest, rfl⟩ := hstored htext
  refine ⟨rest, ?_⟩
  rw [hcall, if_neg (Int.not_le.2 htext),
    wrapSigned_of_nonneg counts.bits_pos (Int.natCast_nonneg _) (htext.trans hlt)]

theorem narrowText_eq {bits : Nat} (hpos : 0 < max) (hlt : max < 2 ^ 31)
    (hmem : max ≤ mem.length) :
    narrowText bits text mem max = some
      { text := narrowStored text mem max
        length := wrapSigned bits text.length
        retcode := if max ≤ text.length then .successWithInfo else .success } := by
  rw [narrowText, strncpyNull_eq hpos hmem, Option.map_some,
    wrapUnsigned_of_nonneg hpos.le (hlt.trans (by decide))]

theorem narrowStored_starts (htext : (text.length : Int) < max) :
    ∃ rest, narrowStored text mem max = text ++ rest :=
  ⟨_, narrowStored_of_lt htext⟩

theorem standard_narrowText (counts : SizeType) (text : List UInt8) :
    Standard counts text (narrowText counts.bits text) := fun _ _ hpos hlt hmem ↦
  ⟨_, narrowText_eq hpos (hlt.trans_le counts.half_le) hmem, narrowStored_starts⟩

theorem standard_describeCol (h : (text.length : Int) < 2 ^ 31) :
    Standard .smallint text (pgapiDescribeCol text) := by
  intro mem max hpos hlt hmem
  have hlen : wrapSigned 32 text.length = text.length :=
    wrapSigned_of_nonneg (by decide) (Int.natCast_nonneg _) h
  refine ⟨narrowStored text mem max, ?_, narrowStored_starts⟩
  rw [pgapiDescribeCol, if_pos hpos, strncpyNull_eq hpos hmem, hlen]
  rfl

theorem standard_ipdGetField (h : (text.length : Int) < 2 ^ 31) :
    Standard .integer text (pgapiGetDescField .ipd text) := by
  intro mem max hpos hlt hmem
  have hlen : wrapSigned 32 text.length = text.length :=
    wrapSigned_of_nonneg (by decide) (Int.natCast_nonneg _) h
  refine ⟨narrowStored text mem max, ?_, narrowStored_starts⟩
  change ipdGetField text mem max = _
  rw [ipdGetField, strncpyNull_eq hpos hmem, Option.map_some, hlen]
  exact congrArg (fun n ↦ some (NarrowReply.mk _ n _)) hlen.symm

theorem standard_irdGetField (text : List UInt8) :
    Standard .smallint text (pgapiGetDescField .ird text) := by
  intro mem max hpos hlt hmem
  have hmax : wrapSigned 16 max = max := wrapSigned_of_nonneg (by decide) hpos.le hlt
  change ∃ mem', pgapiColAttributes text mem (wrapSigned 16 max) = _ ∧ _
  rw [hmax]
  exact standard_narrowText .smallint text mem max hpos hlt hmem

theorem standard_serverName (text : List UInt8) :
    Standard .smallint text (DiagSource.pgapiGetDiagField text · · .serverName) := by
  intro mem max hpos hlt hmem
  change ∃ mem', (strncpyNull mem text max).bind _ = _ ∧ _
  rw [strncpyNull_eq hpos hmem, Option.bind_some, diagTextEnd]
  by_cases hle : max ≤ text.length
  · have hroom : (max - 1).toNat < (narrowStored text mem max).length := by
      rw [length_narrowStored hpos hmem]
      omega
    rw [if_pos hle, if_pos hpos, if_pos hle, if_neg (Int.not_lt.2 hle), store, if_pos hroom,
      Option.map_some]
    exact ⟨_, rfl, fun hlt ↦ absurd hle (Int.not_le.2 hlt)⟩
  · rw [if_neg hle, if_neg hle, if_pos (Int.not_le.1 hle)]
    exact ⟨_, rfl, narrowStored_starts⟩

/-! ## The loop -/

namespace WideEnv

variable {env : WideEnv} {buflen : Int}

theorem realloc_eq (env : WideEnv) (mem : List UInt8) {size : Int} (hsize : 0 ≤ size) :
    ∃ mem', env.realloc mem size = some mem' ∧ (mem'.length : Int) = size := by
  refine ⟨_, if_neg (Int.not_lt.2 hsize), ?_⟩
  rw [List.length_append, List.length_take, env.length_fresh]
  omega

theorem malloc_eq (env : WideEnv) {size : Int} (hsize : 0 ≤ size) :
    ∃ mem, env.malloc size = some mem ∧ (mem.length : Int) = size :=
  env.realloc_eq [] hsize

/-- The loop ends with all of the text. -/
def LoopGives (env : WideEnv) (type : SizeType)
    (narrow : List UInt8 → Int → Option NarrowReply) (text mem : List UInt8) (buflen : Int) :
    Prop :=
  ∀ rounds ≥ 2, ∃ rest size, (text.length : Int) < size ∧
    env.narrowLoop type narrow rounds (some mem) buflen =
      some (⟨text ++ rest, text.length, .success⟩, size)

theorem loopGives_first (h : GivesText narrow text mem buflen)
    (hlt : (text.length : Int) < buflen) : env.LoopGives type narrow text mem buflen := by
  intro rounds hrounds
  obtain ⟨rounds, rfl⟩ := Nat.exists_eq_add_of_le' hrounds
  obtain ⟨rest, hcall⟩ := h
  refine ⟨rest, buflen, hlt, ?_⟩
  rw [narrowLoop, hcall, Option.bind_some, if_pos (Or.inl (by rintro ⟨⟩))]

end WideEnv

/-- A text that is longer is asked for again, with room for it. -/
theorem Standard.loopGives {env : WideEnv} {buflen : Int} (h : Standard counts text narrow)
    (hpos : 0 < buflen) (hlt : buflen < 2 ^ (counts.bits - 1)) (hmem : buflen ≤ mem.length)
    (hcounts : (2 : Int) ^ (counts.bits - 1) ≤ 2 ^ (type.bits - 1))
    (htext : (text.length : Int) < buflen ∨ (text.length : Int) + 1 < 2 ^ (counts.bits - 1)) :
    WideEnv.LoopGives env type narrow text mem buflen := by
  by_cases hfirst : (text.length : Int) < buflen
  · exact WideEnv.loopGives_first (h.givesText hpos hlt hmem hfirst) hfirst
  · have hsize := htext.resolve_left hfirst
    intro rounds hrounds
    obtain ⟨rounds, rfl⟩ := Nat.exists_eq_add_of_le' hrounds
    obtain ⟨mem', hcall, -⟩ := h mem buflen hpos hlt hmem
    rw [if_pos (Int.not_lt.1 hfirst),
      wrapSigned_of_nonneg counts.bits_pos (Int.natCast_nonneg _) (by omega)] at hcall
    obtain ⟨mem'', hrealloc, hlength⟩ :=
      env.realloc_eq mem' (by omega : (0 : Int) ≤ text.length + 1)
    have hgives : GivesText narrow text mem'' (text.length + 1) :=
      h.givesText (by omega) hsize hlength.ge (by omega)
    obtain ⟨rest, hagain⟩ := hgives
    refine ⟨rest, text.length + 1, by omega, ?_⟩
    have hassign : type.assign ((text.length : Int) + 1) = some ((text.length : Int) + 1) :=
      SizeType.assign_of_lt (by omega) (by omega)
    rw [WideEnv.narrowLoop, hcall, Option.bind_some]
    dsimp only
    rw [if_neg, hassign, Option.bind_some, hrealloc, WideEnv.narrowLoop, hagain, Option.bind_some,
      if_pos (Or.inl (by rintro ⟨⟩))]
    rintro (hne | hless)
    · exact hne rfl
    · exact hfirst hless

end

/-! ## The conversion -/

theorem utf8ToUcs2LfBuffer_append {chars : List Char} {mem : List UInt16} {max : Nat}
    (h0 : Char.ofNat 0 ∉ chars) (hmax : max ≤ mem.length) (errcheck : Bool) (rest : List UInt8) :
    utf8ToUcs2LfBuffer (some (utf8Encode chars ++ rest)) (utf8Encode chars).length false (some mem)
        max errcheck =
      some ((utf16Encode chars).length,
        overwrite mem (if (utf16Encode chars).length < max then utf16Encode chars ++ [0]
          else (utf16Encode chars).take max)) := by
  refine utf8ToUcs2LfBuffer_of_some hmax ?_
  rw [utf8Length, if_neg (by omega), Int.toNat_natCast]
  exact utf8Loop_text h0 errcheck none rest rfl

namespace WideCall

variable {call : WideCall} {type : SizeType} {rest : List UInt8} {size : Int}

theorem bytes_le (call : WideCall) : call.bytes ≤ 3 * call.units := length_utf8Encode_le call.text

theorem units_le (call : WideCall) : call.units ≤ call.bytes := length_utf16Encode_le call.text

/-- What a call with room for the text is to answer. -/
theorem follows_of_fits (h : call.Fits) :
    call.Follows ⟨.success, overwrite call.buffer (utf16Encode call.text ++ [0]),
      some (call.units * call.function.unit)⟩ := by
  have hlt : call.units < call.capacity := h
  refine ⟨(if_pos h).symm, ?_, rfl⟩
  have htake : (utf16Encode call.text).take (call.capacity - 1) = utf16Encode call.text :=
    List.take_of_length_le (Nat.le_sub_one_of_lt h)
  rw [if_neg (by omega), htake]

/-- And one without room for anything. -/
theorem follows_of_noRoom (h : call.capacity = 0) :
    call.Follows ⟨.successWithInfo, call.buffer, some (call.units * call.function.unit)⟩ := by
  have hnot : ¬ call.Fits := by
    intro hlt
    change _ < _ at hlt
    omega
  exact ⟨(if_neg hnot).symm, (if_pos h).symm, rfl⟩

theorem succeeded_success : Retcode.success.succeeded = true := rfl

theorem widenUnits_eq (hunit : call.function.unit = 1) (hsize : (call.bytes : Int) < size) :
    NarrowReply.widenUnits ⟨utf8Encode call.text ++ rest, call.bytes, .success⟩ type call.max
        call.buffer size =
      some
        { retcode := if call.max < call.units then .successWithInfo else .success
          buffer := overwrite call.buffer
            (if call.units < call.max.toNat then utf16Encode call.text ++ [0]
              else (utf16Encode call.text).take call.max.toNat)
          length := some (wrapSigned type.bits call.units) } := by
  have hpos := call.pos
  have hroom := call.room
  rw [hunit, Int.ediv_one] at hroom
  have hconvert := @utf8ToUcs2LfBuffer_append call.text call.buffer call.max.toNat call.noNul
    (by omega) false rest
  rw [NarrowReply.widenUnits]
  dsimp only
  rw [if_pos succeeded_success, if_pos hsize]
  change Option.map _ (Option.map _ (utf8ToUcs2LfBuffer _ ((utf8Encode call.text).length : Int) _ _
    _ _)) = _
  rw [hconvert, Option.map_some, Option.map_some]
  exact congrArg (fun ret ↦ some (WideTextReply.mk ret _ _)) (if_congr (and_iff_right rfl) rfl rfl)

/-- The functions that count units. -/
theorem widenUnits_follows (hunit : call.function.unit = 1) (htype : call.function.type = type)
    (hfits : call.Fits) (hsize : (call.bytes : Int) < size) :
    ∃ reply, NarrowReply.widenUnits ⟨utf8Encode call.text ++ rest, call.bytes, .success⟩ type
        call.max call.buffer size = some reply ∧ call.Follows reply := by
  have hfollows := follows_of_fits hfits
  have hlt : call.units < call.capacity := hfits
  have hpos := call.pos
  have hmax := call.lt
  rw [capacity, hunit, Int.ediv_one] at hlt
  rw [htype] at hmax
  rw [hunit, Int.mul_one] at hfollows
  have hlength : wrapSigned type.bits call.units = call.units :=
    wrapSigned_of_nonneg type.bits_pos (Int.natCast_nonneg _) (by omega)
  refine ⟨_, widenUnits_eq hunit hsize, ?_⟩
  rw [if_neg (by omega), if_pos hlt, hlength]
  exact hfollows

/-- The functions that count bytes. -/
theorem widenBytes_follows (hunit : call.function.unit = 2) (htype : call.function.type = type)
    (h : call.Fits ∨ call.capacity = 0 ∧ 1 ≤ call.units ∧
      (call.units * 2 : Int) < 2 ^ (type.bits - 1)) (errcheck : Bool) :
    ∃ count buffer, utf8ToUcs2LfBuffer (some (utf8Encode call.text ++ rest)) call.bytes false
        (some call.buffer) (call.max / 2).toNat errcheck = some (count, buffer) ∧
      wrapSigned type.bits count = call.units ∧
      call.Follows (NarrowReply.tellBytes ⟨utf8Encode call.text ++ rest, call.bytes, .success⟩ type
        call.max call.units buffer) := by
  have hpos := call.pos
  have hmax := call.lt
  have hroom := call.room
  have hcapacity : call.capacity = (call.max / 2).toNat := by rw [capacity, hunit]
  rw [hunit] at hroom
  rw [htype] at hmax
  have hhalf := type.half_le
  have htold : (call.units * 2 : Int) < 2 ^ (type.bits - 1) := by
    rcases h with hfits | ⟨-, -, h⟩
    · have hlt : call.units < call.capacity := hfits
      omega
    · exact h
  have hcount : wrapSigned type.bits call.units = call.units :=
    wrapSigned_of_nonneg type.bits_pos (Int.natCast_nonneg _) (by omega)
  have hlength : wrapSigned type.bits (call.units * 2) = call.units * 2 :=
    wrapSigned_of_nonneg type.bits_pos (by omega) htold
  refine ⟨_, _, utf8ToUcs2LfBuffer_append call.noNul (by omega) errcheck rest, hcount, ?_⟩
  rw [NarrowReply.tellBytes, hlength, wrapUnsigned_of_nonneg hpos.le (by omega),
    wrapUnsigned_of_nonneg (by omega) (by omega)]
  rcases h with hfits | ⟨hzero, hone, -⟩
  · have hlt : call.units < call.capacity := hfits
    have hfollows := follows_of_fits hfits
    rw [hunit] at hfollows
    change call.Follows ⟨if _ ∧ _ then _ else _, overwrite _ (if call.units < _ then _ else _), _⟩
    rw [if_neg (by omega), if_pos (by omega)]
    exact hfollows
  · have hfollows := follows_of_noRoom hzero
    rw [hunit] at hfollows
    change call.Follows ⟨if _ ∧ _ then _ else _, overwrite _ (if call.units < _ then _ else _), _⟩
    rw [if_pos ⟨rfl, by omega⟩, if_neg (by omega), ← hcapacity, hzero]
    exact hfollows

/-! ## The functions -/

section

variable {env : WideEnv} {loopType : SizeType} {rounds : ℕ} {mem : List UInt8} {buflen : Int}
  {narrow : List UInt8 → Int → Option NarrowReply}

/-- A function that counts units, with a loop that gives the text. -/
theorem bind_widenUnits (hunit : call.function.unit = 1) (htype : call.function.type = type)
    (hfits : call.Fits) (hrounds : 2 ≤ rounds)
    (hloop : env.LoopGives loopType narrow (utf8Encode call.text) mem buflen) :
    ∃ reply, ((env.narrowLoop loopType narrow rounds (some mem) buflen).bind fun p ↦
      p.1.widenUnits type call.max call.buffer p.2) = some reply ∧ call.Follows reply := by
  obtain ⟨rest, size, hsize, hcall⟩ := hloop rounds hrounds
  rw [hcall]
  exact widenUnits_follows hunit htype hfits hsize

/-- A function that counts bytes. -/
theorem bind_widenBytes (hunit : call.function.unit = 2) (htype : call.function.type = type)
    (h : call.Fits ∨ call.capacity = 0 ∧ 1 ≤ call.units ∧
      (call.units * 2 : Int) < 2 ^ (type.bits - 1)) (hrounds : 2 ≤ rounds)
    (hloop : env.LoopGives loopType narrow (utf8Encode call.text) mem buflen) :
    ∃ reply, ((env.narrowLoop loopType narrow rounds (some mem) buflen).bind fun p ↦
      p.1.widenBytes type call.max call.buffer) = some reply ∧ call.Follows reply := by
  obtain ⟨rest, size, hsize, hcall⟩ := hloop rounds hrounds
  obtain ⟨count, buffer, hconvert, hcount, hfollows⟩ :=
    @widenBytes_follows call type rest hunit htype h false
  refine ⟨_, ?_, hfollows⟩
  rw [hcall, Option.bind_some, NarrowReply.widenBytes]
  dsimp only
  rw [if_pos succeeded_success]
  change Option.map _ (utf8ToUcs2LfBuffer (some (utf8Encode call.text ++ rest)) call.bytes _ _ _
    _) = _
  rw [hconvert, Option.map_some]
  dsimp only
  rw [hcount]
  rfl

/-- `SQLGetDiagFieldW`: the text is UTF-8. -/
theorem bind_widenDiag (hunit : call.function.unit = 2) (htype : call.function.type = .smallint)
    (h : call.Fits ∨ call.capacity = 0 ∧ 1 ≤ call.units ∧ (call.units * 2 : Int) < 2 ^ 15)
    (hrounds : 2 ≤ rounds)
    (hloop : env.LoopGives loopType narrow (utf8Encode call.text) mem buflen) :
    ∃ reply, ((env.narrowLoop loopType narrow rounds (some mem) buflen).bind fun p ↦
      p.1.widenDiag call.max call.buffer env.locale) = some reply ∧ call.Follows reply := by
  obtain ⟨rest, size, hsize, hcall⟩ := hloop rounds hrounds
  obtain ⟨count, buffer, hconvert, hcount, hfollows⟩ :=
    @widenBytes_follows call .smallint rest hunit htype h true
  refine ⟨_, ?_, hfollows⟩
  rw [hcall, Option.bind_some, NarrowReply.widenDiag]
  dsimp only
  rw [if_pos succeeded_success]
  change Option.map _ (utf8ToUcs2LfBuffer (some (utf8Encode call.text ++ rest)) call.bytes _ _ _
    _) = _
  rw [hconvert, Option.map_some]
  dsimp only
  change wrapSigned 16 count = _ at hcount
  rw [hcount, if_neg (by omega)]
  rfl

/-! ## The replies of the narrow functions -/

theorem givesText_ird {text : List UInt8} {max : Int} (hmem : wrapSigned 16 max ≤ mem.length)
    (h : text.length < wrapSigned 16 max ∨ text.length = 0 ∧ wrapSigned 16 max < 0) :
    GivesText (pgapiGetDescField .ird text) text mem max := by
  change GivesText (fun mem _ ↦ narrowText 16 text mem (wrapSigned 16 max)) text mem max
  rcases h with hlt | ⟨hnil, hneg⟩
  · exact (standard_narrowText .smallint text).givesText
      ((Int.natCast_nonneg _).trans_lt hlt) (wrapSigned_lt (by decide) _) hmem hlt
  · refine ⟨mem, ?_⟩
    dsimp only
    have hge : ¬ wrapUnsigned 64 (wrapSigned 16 max) ≤ 0 := by
      have hle : -2 ^ 15 ≤ wrapSigned 16 max := by
        rw [wrapSigned]
        omega
      rw [wrapUnsigned]
      omega
    rw [List.eq_nil_of_length_eq_zero hnil, narrowText, strncpyNull,
      if_neg (by omega : ¬ 0 < wrapSigned 16 max), Option.map_some, List.length_nil, Nat.cast_zero,
      if_neg hge]
    rfl

theorem toInt_ofInt {max : Int} (hpos : 0 < max) (hlt : max < 2 ^ 15) :
    (Int16.ofInt max).toInt = max :=
  Int16.toInt_ofInt_of_le (le_trans (by decide) hpos.le) hlt

/-- The first record of a statement is all of its message. -/
theorem givesText_stmt {text : List UInt8} {self : DiagStmt} {max : Int}
    (h : DiagHandle.Holds text (.stmt self)) (htext : (text.length : Int) < max)
    (hlt : max < 2 ^ 15) (hmem : max ≤ mem.length) :
    GivesText (DiagSource.pgapiGetDiagField text · · (.message (.stmt self))) text mem max := by
  obtain ⟨hne, error, herror, hsize, hmemory⟩ := h
  have hholds : error.Holds text := ⟨hsize, hmemory⟩
  have hlength := List.length_pos_iff.2 hne
  have hmax : (DiagSource.request mem max).cbErrorMsgMax.toInt = max := toInt_ofInt (by omega) hlt
  have hfits : (DiagSource.request mem max).Fits :=
    ⟨by rw [hmax]; omega, ⟨mem, rfl, by rwa [hmax]⟩, rfl⟩
  have hrec : (DiagSource.request mem max).recsize error.recsize =
      UInt16.ofNat (max - 1).toNat := by
    have hone : (DiagSource.request mem max).recNumber = 1 ∧ 0 < max := ⟨rfl, by omega⟩
    rw [ErrorRequest.recsize, hmax, if_pos hone.2, if_pos hone, ite_self]
  have hroom : (UInt16.ofNat (max - 1).toNat).toNat = (max - 1).toNat :=
    UInt16.toNat_ofNat_of_lt' (by change _ < 2 ^ 16; omega)
  have hstapos : (DiagSource.request mem max).stapos (UInt16.ofNat (max - 1).toNat)
      error.errpos = 0 := by
    have hone : 0 < (DiagSource.request mem max).recNumber.toInt := by
      change 0 < (1 : Int16).toInt
      decide
    rw [ErrorRequest.stapos, if_pos hone]
    change UInt32.ofNat (0 * _) = 0
    rw [Nat.zero_mul]
    rfl
  have hpiece : text = (text.drop (0 : UInt32).toNat).take
      ((DiagSource.request mem max).cbErrorMsgMax.toInt - 1).toNat := by
    rw [hmax]
    exact (List.take_of_length_le (by omega : text.length ≤ (max - 1).toNat)).symm
  obtain ⟨reply, hcall, ⟨mem', hmem', hstored⟩, htold, hretcode⟩ :=
    hholds.returnError_piece hfits hrec hstapos hlength (by rw [hmax, hroom]; omega) hpiece
  have hmin : min (text.length - (0 : UInt32).toNat) (UInt16.ofNat (max - 1).toNat).toNat =
      text.length := by
    rw [hroom]
    change min (text.length - 0) _ = _
    omega
  rw [hmin] at htold hretcode
  rw [if_neg (Nat.lt_irrefl _)] at hretcode
  refine ⟨0 :: mem'.drop (text.length + 1), ?_⟩
  change Option.map _ (Option.map _ (self.pgapiStmtError _)) = _
  rw [DiagStmt.pgapiStmtError, herror]
  dsimp only
  rw [hcall, Option.map_some, Option.map_some, Option.map_some]
  dsimp only
  rw [hstored, htold, hretcode, Option.map_some, Int16.toInt_ofNat_of_lt (by omega),
    overwrite, List.length_append, List.length_singleton, List.append_assoc]
  rfl

/-- So is the message of a connection. -/
theorem givesText_dbc {text : List UInt8} {conn : DiagConn} {max : Int}
    (h : DiagHandle.Holds text (.dbc conn)) (htext : (text.length : Int) < max)
    (hlt : max < 2 ^ 15) (hmem : max ≤ mem.length) :
    GivesText (DiagSource.pgapiGetDiagField text · · (.message (.dbc conn))) text mem max := by
  have herror : conn.ccGetError = some text := h
  have hpos : 0 < max := by omega
  have hmax : (DiagSource.request mem max).cbErrorMsgMax.toInt = max := toInt_ofInt hpos hlt
  have hne : ¬ (DiagSource.request mem max).cbErrorMsgMax = 0 := by
    intro hzero
    rw [hzero] at hmax
    change 0 = max at hmax
    omega
  have hput : (DiagSource.request mem max).putMessage text =
      some (some (narrowStored text mem max)) := by
    rw [ErrorRequest.putMessage]
    change (if (DiagSource.request mem max).cbErrorMsgMax.toInt ≤ 0 then some (some mem)
      else (storeAll mem 0 _).map some) = _
    have hstore := strncpyNull_eq hpos hmem text
    rw [strncpyNull, if_pos hpos] at hstore
    rw [hmax, if_neg (by omega), hstore, Option.map_some]
  refine ⟨0 :: mem.drop (text.length + 1), ?_⟩
  change Option.map _ (Option.map _ (conn.pgapiConnectError _)) = _
  rw [DiagConn.pgapiConnectError, if_neg fun hrec ↦ hrec.1 rfl, if_neg (by rw [hmax]; omega),
    herror]
  dsimp only
  rw [hput, Option.map_some, Option.map_some, Option.map_some]
  dsimp only
  have htold : (DiagSource.request mem max).pcbErrorMsg = true := rfl
  rw [if_pos htold, if_neg hne, hmax, if_neg (by omega), if_neg fun hzero ↦ hne hzero.2,
    narrowStored_of_lt htext]
  change some (NarrowReply.mk _ (Int16.ofNat text.length).toInt _) = _
  rw [Int16.toInt_ofNat_of_lt (by omega)]
  rfl

theorem givesText_env {text : List UInt8} {max : Int} (htext : (text.length : Int) < max)
    (hlt : max < 2 ^ 15) (hmem : max ≤ mem.length) :
    GivesText (DiagSource.pgapiGetDiagField text · · .envMessage) text mem max := by
  refine ⟨0 :: mem.drop (text.length + 1), ?_⟩
  change pgapiEnvError text mem max = _
  rw [pgapiEnvError, if_neg (by omega), strncpyNull_eq (by omega) hmem, Option.map_some,
    narrowStored_of_lt htext, wrapSigned_of_nonneg (by decide) (Int.natCast_nonneg _) (by omega)]

theorem givesText_sqlstate {text : List UInt8} {max : Int} (hfive : text.length = 5)
    (htext : (text.length : Int) < max) (hmem : max ≤ mem.length) :
    GivesText (DiagSource.pgapiGetDiagField text · · .sqlstate) text mem max := by
  refine ⟨0 :: mem.drop (text.length + 1), ?_⟩
  change (strncpyNull mem text 6).bind _ = _
  rw [strncpyNull_eq (by decide) (by omega), Option.bind_some, diagTextEnd, if_neg (by omega),
    narrowStored_of_lt (by omega), hfive]
  rfl

end

/-! ## The functions -/

section

theorem right_describeCol (hfun : call.function = .describeCol)
    (hpos : 0 < wrapSigned 16 (call.max * 3)) (hfits : call.Fits)
    (hbytes : (call.bytes : Int) + 1 < 2 ^ 15) : call.Right := by
  intro env
  refine ⟨2, fun rounds hrounds ↦ ?_⟩
  obtain ⟨mem, hmem, hlength⟩ := env.malloc_eq hpos.le
  have hstandard := @standard_describeCol (utf8Encode call.text)
    (by change (call.bytes : Int) < _; omega)
  have hloop := @Standard.loopGives .smallint .smallint _ mem _ env _ hstandard hpos
    (wrapSigned_lt (by decide) _) hlength.ge le_rfl (Or.inr hbytes)
  obtain ⟨reply, hreply, hfollows⟩ := @bind_widenUnits call .smallint _ _ _ _ _ _
    (by rw [hfun]; rfl) (by rw [hfun]; rfl) hfits hrounds hloop
  refine ⟨reply, ?_, hfollows⟩
  rw [hfun]
  change sqlDescribeColW env rounds _ call.max call.buffer = _
  rw [sqlDescribeColW]
  dsimp only
  rw [if_pos hpos, hmem]
  exact hreply

theorem right_getCursorName (hfun : call.function = .getCursorName)
    (hpos : 0 < wrapSigned 16 (call.max * 3)) (hfits : call.Fits)
    (hbytes : (call.bytes : Int) + 1 < 2 ^ 15) : call.Right := by
  intro env
  refine ⟨2, fun rounds hrounds ↦ ?_⟩
  obtain ⟨mem, hmem, hlength⟩ := env.malloc_eq hpos.le
  have hloop := @Standard.loopGives .smallint .smallint _ mem _ env _
    (standard_narrowText .smallint (utf8Encode call.text)) hpos (wrapSigned_lt (by decide) _)
    hlength.ge le_rfl (Or.inr hbytes)
  obtain ⟨reply, hreply, hfollows⟩ := @bind_widenUnits call .smallint _ _ _ _ _ _
    (by rw [hfun]; rfl) (by rw [hfun]; rfl) hfits hrounds hloop
  refine ⟨reply, ?_, hfollows⟩
  rw [hfun]
  change sqlGetCursorNameW env rounds _ call.max call.buffer = _
  rw [sqlGetCursorNameW]
  dsimp only
  rw [hmem]
  exact hreply

theorem right_nativeSql (hfun : call.function = .nativeSql) (hsize : call.max * 3 < 2 ^ 31)
    (hfits : call.Fits) : call.Right := by
  intro env
  refine ⟨2, fun rounds hrounds ↦ ?_⟩
  have hpos := call.pos
  have hlt : call.units < call.capacity := hfits
  have hle := call.bytes_le
  rw [capacity, hfun] at hlt
  change _ < (call.max / 1).toNat at hlt
  have hbytes : (call.bytes : Int) < 3 * call.max := by omega
  obtain ⟨mem, hmem, hlength⟩ := env.malloc_eq (by omega : 0 ≤ 3 * call.max)
  have hloop := @Standard.loopGives .integer .integer _ mem _ env _
    (standard_narrowText .integer (utf8Encode call.text)) (by omega) (by change _ < 2 ^ 31; omega)
    hlength.ge le_rfl (Or.inl hbytes)
  obtain ⟨reply, hreply, hfollows⟩ := @bind_widenUnits call .integer _ _ _ _ _ _ (by rw [hfun]; rfl)
    (by rw [hfun]; rfl) hfits hrounds hloop
  refine ⟨reply, ?_, hfollows⟩
  rw [hfun]
  change sqlNativeSqlW env rounds _ call.max call.buffer = _
  rw [sqlNativeSqlW, SizeType.assign_of_lt (by omega) (by change _ < 2 ^ 31; omega),
    Option.bind_some]
  dsimp only
  rw [if_pos (by omega), hmem]
  exact hreply

/-- The narrow size is enough for a text that fits. -/
theorem bytes_lt_of_fits (hunit : call.function.unit = 2) (hfits : call.Fits) :
    (call.bytes : Int) < call.max * 3 / 2 := by
  have hlt : call.units < call.capacity := hfits
  have hle := call.bytes_le
  rw [capacity, hunit] at hlt
  omega

theorem max_of_capacity (hunit : call.function.unit = 2) (h : call.capacity = 0) :
    call.max = 1 := by
  have hpos := call.pos
  rw [capacity, hunit] at h
  omega

theorem half_of_lt (hsize : call.max * 3 < 2 ^ 31) :
    wrapUnsigned 64 (call.max * 3) / 2 = call.max * 3 / 2 := by
  have hpos := call.pos
  rw [wrapUnsigned_of_nonneg (by omega) (by omega)]

theorem right_getDescField {desc : ImpDesc} (hfun : call.function = .getDescField desc)
    (hsize : call.max * 3 < 2 ^ 31)
    (h : call.Fits ∨ call.capacity = 0 ∧ 1 ≤ call.units ∧ (call.units * 2 : Int) < 2 ^ 31)
    (hloop : ∀ (env : WideEnv) (mem : List UInt8), (mem.length : Int) = call.max * 3 / 2 + 1 →
      env.LoopGives .integer (pgapiGetDescField desc (utf8Encode call.text))
        (utf8Encode call.text) mem (call.max * 3 / 2)) : call.Right := by
  intro env
  refine ⟨2, fun rounds hrounds ↦ ?_⟩
  have hpos := call.pos
  obtain ⟨mem, hmem, hlength⟩ := env.malloc_eq (by omega : 0 ≤ call.max * 3 / 2 + 1)
  obtain ⟨reply, hreply, hfollows⟩ := @bind_widenBytes call .integer _ _ _ _ _ _
    (by rw [hfun]; rfl) (by rw [hfun]; rfl) h hrounds (hloop env mem hlength)
  refine ⟨reply, ?_, hfollows⟩
  rw [hfun]
  change sqlGetDescFieldW env rounds _ call.max call.buffer desc = _
  rw [sqlGetDescFieldW, SizeType.assign_of_lt (by omega) hsize, Option.bind_some]
  dsimp only
  rw [half_of_lt hsize, wrapSigned_of_nonneg (by decide) (by omega) (by change _ < 2 ^ 31; omega),
    hmem]
  exact hreply

theorem right_colAttribute (hfun : call.function = .colAttribute)
    (hsize : call.max * 3 / 2 < 2 ^ 15) (h : call.Fits ∨ call.NoRoom .smallint .smallint) :
    call.Right := by
  intro env
  refine ⟨2, fun rounds hrounds ↦ ?_⟩
  have hpos := call.pos
  have hunit : call.function.unit = 2 := by rw [hfun]; rfl
  obtain ⟨mem, hmem, hlength⟩ := env.malloc_eq (by omega : 0 ≤ call.max * 3 / 2)
  have hloop := @Standard.loopGives .smallint .smallint _ mem _ env _
    (standard_narrowText .smallint (utf8Encode call.text)) (by omega : 0 < call.max * 3 / 2) hsize
    hlength.ge le_rfl (h.imp (bytes_lt_of_fits hunit) fun h ↦ h.counted)
  obtain ⟨reply, hreply, hfollows⟩ := @bind_widenBytes call .smallint _ _ _ _ _ _ hunit
    (by rw [hfun]; rfl) (h.imp_right fun h ↦ ⟨h.capacity, h.units, h.told⟩) hrounds hloop
  refine ⟨reply, ?_, hfollows⟩
  rw [hfun]
  change sqlColAttributeW env rounds _ call.max call.buffer = _
  rw [sqlColAttributeW]
  dsimp only
  rw [half_of_lt (by omega), wrapSigned_of_nonneg (by decide) (by omega) hsize, hmem]
  exact hreply

theorem right_getDiagField {source : DiagSource} (hfun : call.function = .getDiagField source)
    (hsize : call.max * 3 / 2 + 1 < 2 ^ 15)
    (h : call.Fits ∨ call.capacity = 0 ∧ 1 ≤ call.units ∧ (call.units * 2 : Int) < 2 ^ 15)
    (hloop : ∀ (env : WideEnv) (mem : List UInt8), (mem.length : Int) = call.max * 3 / 2 + 1 →
      env.LoopGives .smallint (source.pgapiGetDiagField (utf8Encode call.text) · ·)
        (utf8Encode call.text) mem (call.max * 3 / 2 + 1)) : call.Right := by
  intro env
  refine ⟨2, fun rounds hrounds ↦ ?_⟩
  have hpos := call.pos
  obtain ⟨mem, hmem, hlength⟩ := env.malloc_eq (by omega : 0 ≤ call.max * 3 / 2 + 1)
  obtain ⟨reply, hreply, hfollows⟩ := @bind_widenDiag call env _ _ _ _ _
    (by rw [hfun]; rfl) (by rw [hfun]; rfl) h hrounds (hloop env mem hlength)
  refine ⟨reply, ?_, hfollows⟩
  rw [hfun]
  change sqlGetDiagFieldW env rounds _ call.max call.buffer source = _
  rw [sqlGetDiagFieldW]
  dsimp only
  rw [half_of_lt (by omega), wrapSigned_of_nonneg (by decide) (by omega) hsize, hmem]
  exact hreply

/-- The functions follow the rule where the sizes are right and there is room. -/
theorem right_of_meets (call : WideCall) (h : call.Meets) : call.Right := by
  have hpos := call.pos
  have hgiven := call.given
  cases hfun : call.function with
  | describeCol =>
    rw [Meets, hfun] at h
    exact right_describeCol hfun h.1 h.2.1 h.2.2
  | getCursorName =>
    rw [Meets, hfun] at h
    exact right_getCursorName hfun h.1 h.2.1 h.2.2
  | nativeSql =>
    rw [Meets, hfun] at h
    exact right_nativeSql hfun h.1 h.2
  | getDescField desc =>
    have hunit : call.function.unit = 2 := by rw [hfun]; rfl
    cases desc with
    | ird =>
      rw [Meets, hfun] at h
      obtain ⟨hsize, ⟨hfits, hnarrow⟩ | hnoRoom⟩ := h
      · refine right_getDescField hfun hsize (Or.inl hfits) fun env mem hlength ↦ ?_
        refine WideEnv.loopGives_first (givesText_ird ?_ ?_) (bytes_lt_of_fits hunit hfits)
        · have hle := @wrapSigned_le 16 (call.max * 3 / 2) (by omega)
          omega
        · rcases hnarrow with hlt | ⟨hzero, hneg⟩
          · exact Or.inl hlt
          · exact Or.inr ⟨hzero, hneg⟩
      · have hone := max_of_capacity hunit hnoRoom.capacity
        refine right_getDescField hfun hsize
          (Or.inr ⟨hnoRoom.capacity, hnoRoom.units, hnoRoom.told⟩) fun env mem hlength ↦ ?_
        refine (standard_irdGetField _).loopGives (by omega) ?_ (by omega)
          (SizeType.smallint_le _) (Or.inr hnoRoom.counted)
        change _ < 2 ^ 15
        omega
    | ipd =>
      rw [Meets, hfun] at h
      obtain ⟨hsize, h⟩ := h
      have hbytes : (call.bytes : Int) < 2 ^ 31 := by
        rcases h with hfits | hnoRoom
        · have hlt := bytes_lt_of_fits hunit hfits
          omega
        · have hcounted := hnoRoom.counted
          change _ < 2 ^ 31 at hcounted
          omega
      refine right_getDescField hfun hsize
        (h.imp_right fun h ↦ ⟨h.capacity, h.units, h.told⟩) fun env mem hlength ↦ ?_
      refine (standard_ipdGetField hbytes).loopGives (by omega) ?_ (by omega) le_rfl
        (h.imp (bytes_lt_of_fits hunit) fun h ↦ h.counted)
      change _ < 2 ^ 31
      omega
  | colAttribute =>
    rw [Meets, hfun] at h
    exact right_colAttribute hfun h.1 h.2
  | getDiagField source =>
    have hunit : call.function.unit = 2 := by rw [hfun]; rfl
    rw [hfun] at hgiven
    have hmessage (hsize : call.max * 3 / 2 + 1 < 2 ^ 15)
        (h : call.Fits ∨ call.capacity = 0 ∧ call.bytes = 1)
        (hgives : ∀ mem : List UInt8, (mem.length : Int) = call.max * 3 / 2 + 1 →
          (call.bytes : Int) < call.max * 3 / 2 + 1 →
          GivesText (source.pgapiGetDiagField (utf8Encode call.text) · ·) (utf8Encode call.text)
            mem (call.max * 3 / 2 + 1)) : call.Right := by
      have hlt : (call.bytes : Int) < call.max * 3 / 2 + 1 := by
        rcases h with hfits | ⟨hcapacity, hone⟩
        · have hlt := bytes_lt_of_fits hunit hfits
          omega
        · have hmax := max_of_capacity hunit hcapacity
          omega
      have hle := call.bytes_le
      have hge := call.units_le
      exact right_getDiagField hfun hsize
        (h.imp_right fun ⟨hcapacity, hone⟩ ↦ ⟨hcapacity, by omega, by omega⟩)
        fun env mem hlength ↦ WideEnv.loopGives_first (hgives mem hlength hlt) hlt
    cases source with
    | serverName =>
      rw [Meets, hfun] at h
      obtain ⟨hsize, h⟩ := h
      refine right_getDiagField hfun hsize
        (h.imp_right fun h ↦ ⟨h.capacity, h.units, h.told⟩) fun env mem hlength ↦ ?_
      refine (standard_serverName _).loopGives (by omega) hsize hlength.ge le_rfl (h.imp ?_ ?_)
      · intro hfits
        have hlt := bytes_lt_of_fits hunit hfits
        change (call.bytes : Int) < _
        omega
      · exact fun h ↦ h.counted
    | sqlstate =>
      rw [Meets, hfun] at h
      exact hmessage h.1 h.2 fun mem hlength hlt ↦ givesText_sqlstate hgiven hlt hlength.ge
    | message handle =>
      rw [Meets, hfun] at h
      cases handle with
      | stmt self =>
        exact hmessage h.1 h.2 fun mem hlength hlt ↦ givesText_stmt hgiven hlt h.1 hlength.ge
      | dbc conn =>
        exact hmessage h.1 h.2 fun mem hlength hlt ↦ givesText_dbc hgiven hlt h.1 hlength.ge
    | envMessage =>
      rw [Meets, hfun] at h
      exact hmessage h.1 h.2 fun mem hlength hlt ↦ givesText_env hlt h.1 hlength.ge

/-- `SQLDescribeColW` with room for two units, for a column `ab`. -/
def fullBuffer : WideCall where
  function := .describeCol
  text := ['a', 'b']
  noNul := by decide
  given := trivial
  max := 2
  pos := by decide
  lt := by decide
  buffer := [0x78, 0x78]
  room := by decide

/-- With room for three. -/
def roomyBuffer : WideCall where
  function := .describeCol
  text := ['a', 'b']
  noNul := by decide
  given := trivial
  max := 3
  pos := by decide
  lt := by decide
  buffer := [0x78, 0x78, 0x78]
  room := by decide

theorem right_roomyBuffer : roomyBuffer.Meets ∧ roomyBuffer.Right :=
  have h : roomyBuffer.Meets := ⟨by decide, by decide, by decide⟩
  ⟨h, right_of_meets roomyBuffer h⟩

/-- New memory of zeros, and a locale without text. -/
def zeroEnv : WideEnv where
  fresh n := List.replicate n 0
  length_fresh _ := List.length_replicate
  locale := ⟨fun _ _ ↦ (-1, []), fun _ _ ↦ Nat.zero_le _⟩

/-- The text fills the buffer without a terminator, and the call succeeds. -/
theorem not_right_fullBuffer : ¬ fullBuffer.Right := by
  intro h
  obtain ⟨least, h⟩ := h zeroEnv
  obtain ⟨reply, hcall, hfollows⟩ := h (least + 2) (Nat.le_add_right _ _)
  have hstandard := @standard_describeCol (utf8Encode fullBuffer.text) (by decide)
  have hloop := @Standard.loopGives .smallint .smallint _ (List.replicate 6 0) _ zeroEnv 6 hstandard
    (by decide) (by decide) (by decide) le_rfl (Or.inl (by decide))
  obtain ⟨rest, size, hsize, hgives⟩ := hloop (least + 2) (Nat.le_add_left _ _)
  have hrun : sqlDescribeColW zeroEnv (least + 2) (utf8Encode fullBuffer.text) 2 [0x78, 0x78] =
      NarrowReply.widenUnits ⟨utf8Encode fullBuffer.text ++ rest, fullBuffer.bytes, .success⟩
        .smallint fullBuffer.max fullBuffer.buffer size := by
    rw [sqlDescribeColW]
    dsimp only
    change (zeroEnv.narrowLoop .smallint _ (least + 2) (some (List.replicate 6 0)) 6).bind _ = _
    rw [hgives]
    rfl
  have hreply := hrun.symm.trans hcall
  rw [widenUnits_eq rfl hsize] at hreply
  have hretcode := hfollows.retcode
  rw [← Option.some.inj hreply] at hretcode
  revert hretcode
  decide

end

end WideCall

end PsqlOdbc
