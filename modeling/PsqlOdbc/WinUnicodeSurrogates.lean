import PsqlOdbc.Lib.CountingBuffer
import PsqlOdbc.WinUnicodeRoundTrip

/-!
# Surrogates in `ucs2_to_utf8`

A leading surrogate is taken with whatever unit is behind it, and nothing is asked of that unit: not
that it is one of the text, nor that it is a trailing surrogate.  A trailing surrogate that is met
alone is encoded as if it were a character.
-/

namespace PsqlOdbc

open Lib

/-! ## The loop with its memory -/

/-- A round at the unit `wstr`, with `wstr'` behind it: the bytes, and the units that are taken. -/
def ucs2Round (littleEndian lowerIdentifier : Bool) (wstr wstr' : UInt16) : List UInt8 × Nat :=
  let w := wstr.toNat
  if w &&& 0xffffff80 = 0 then ([UInt8.ofNat (if lowerIdentifier then tolower w else w)], 1)
  else if w &&& byte3check = 0 then (copyByte2code littleEndian w, 1)
  else if surrog1Bits = w &&& surrogCheck then (copyByte4code littleEndian w wstr'.toNat, 2)
  else (copyByte3code littleEndian w, 1)

/-- The allocated memory, and `len`. -/
structure Utf8Str where
  utf8str : List UInt8
  len : Nat
  deriving DecidableEq, Repr

/-- Copy bytes to `utf8str + len`.  No result if they do not fit there, or `len` is no `int` then. -/
def Utf8Str.append (s : Utf8Str) (bytes : List UInt8) : Option Utf8Str :=
  if s.len + bytes.length ≤ s.utf8str.length ∧ s.len + bytes.length < 2 ^ 31 then
    some ⟨s.utf8str.take s.len ++ (bytes ++ s.utf8str.drop (s.len + bytes.length)),
      s.len + bytes.length⟩
  else none

/-- The loop with `n` units left to read; with the number of units up to the last one that has
been looked at.  The memory behind `str` is taken for zeros. -/
def ucs2BufferLoop (littleEndian lowerIdentifier : Bool) (str : List UInt16) (n : Nat)
    (s : Utf8Str) : Option (Utf8Str × Nat) :=
  match str with
  | [] => some (s, if n = 0 then 0 else 1)
  | wstr :: ws =>
    if n = 0 then some (s, 0)
    else if wstr = 0 then some (s, 1)
    else
      let round := ucs2Round littleEndian lowerIdentifier wstr (ws.headD 0)
      (s.append round.1).bind fun s ↦
        (ucs2BufferLoop littleEndian lowerIdentifier (ws.drop (round.2 - 1)) (n - round.2) s).map
          fun (s, seen) ↦ (s, round.2 + seen)
termination_by str.length
decreasing_by simp only [List.length_cons, List.length_drop]; omega

/-- The length that is given, or that of the terminated string. -/
def ucs2Length (str : List UInt16) (ilen : Int) : Nat :=
  if ilen < 0 then ucs2strlen str else ilen.toNat

/-- What `ucs2_to_utf8` leaves: the memory it has allocated, `*olen`, and the number of units it
has looked at in the loop. -/
structure Ucs2Run where
  utf8str : List UInt8
  olen : Nat
  seen : Nat
  deriving DecidableEq, Repr

/-- `ucs2_to_utf8`, with its memory; `garbage` is what the memory holds when it is allocated. -/
def ucs2ToUtf8Run (littleEndian : Bool) (garbage : Nat → UInt8) (str : List UInt16) (ilen : Int)
    (lowerIdentifier : Bool) : Option Ucs2Run :=
  let len := ucs2Length str ilen
  (ucs2BufferLoop littleEndian lowerIdentifier str len
    ⟨(List.range (len * 4 + 1)).map garbage, 0⟩).bind fun (s, seen) ↦
      (CountingBuffer.store s.utf8str s.len 0).map fun utf8str ↦ ⟨utf8str, s.len, seen⟩

/-! ## Surrogates -/

def IsLead (w : UInt16) : Prop := 0xd800 ≤ w.toNat ∧ w.toNat < 0xdc00

def IsTrail (w : UInt16) : Prop := 0xdc00 ≤ w.toNat ∧ w.toNat < 0xe000

instance (w : UInt16) : Decidable (IsLead w) :=
  inferInstanceAs (Decidable (0xd800 ≤ w.toNat ∧ w.toNat < 0xdc00))

/-- A leading surrogate is taken with the unit behind it. -/
def unitsTaken (w : UInt16) : Nat := if IsLead w then 2 else 1

/-- A trailing surrogate is met that is not taken with a leading one. -/
def LoneTrail (str : List UInt16) (n : Nat) : Prop :=
  match str with
  | [] => False
  | w :: ws =>
    if n = 0 ∨ w = 0 then False
    else IsTrail w ∨ LoneTrail (ws.drop (unitsTaken w - 1)) (n - unitsTaken w)
termination_by str.length
decreasing_by simp only [List.length_cons, List.length_drop]; omega

/-- The last of the units is a leading surrogate, and is not taken with one in front. -/
def CutLead (str : List UInt16) (n : Nat) : Prop :=
  match str with
  | [] => False
  | w :: ws =>
    if n = 0 ∨ w = 0 then False
    else n = 1 ∧ IsLead w ∨ CutLead (ws.drop (unitsTaken w - 1)) (n - unitsTaken w)
termination_by str.length
decreasing_by simp only [List.length_cons, List.length_drop]; omega

/-- The bytes a unit is encoded in, with the one it is taken with. -/
def bytesOfUnit (w : UInt16) : Nat :=
  if w.toNat < 0x80 then 1 else if w.toNat < 0x800 then 2 else if IsLead w then 4 else 3

/-- The bytes a text is encoded in. -/
def encodedSize (str : List UInt16) (n : Nat) : Nat :=
  match str with
  | [] => 0
  | w :: ws =>
    if n = 0 ∨ w = 0 then 0
    else bytesOfUnit w + encodedSize (ws.drop (unitsTaken w - 1)) (n - unitsTaken w)
termination_by str.length
decreasing_by simp only [List.length_cons, List.length_drop]; omega

/-! ## Rounds and forms -/

section

variable (littleEndian lowerIdentifier : Bool) (w w' : UInt16)

theorem ucs2Round_taken : (ucs2Round littleEndian lowerIdentifier w w').2 = unitsTaken w := by
  have hlt := UInt16.toNat_lt w
  have hlow : w.toNat < 0x800 → ¬IsLead w := fun h hs ↦ absurd hs.1 (by omega)
  rw [ucs2Round, unitsTaken]
  by_cases h7 : w.toNat < 0x80
  · rw [if_pos ((and_ascii hlt).2 h7), if_neg (hlow (by omega))]
  rw [if_neg (mt (and_ascii hlt).1 h7)]
  by_cases h11 : w.toNat < 0x800
  · rw [if_pos ((and_byte3check hlt).2 h11), if_neg (hlow h11)]
  rw [if_neg (mt (and_byte3check hlt).1 h11)]
  by_cases hs : IsLead w
  · rw [if_pos ((and_surrogCheck hlt).2 hs), if_pos hs]
  · rw [if_neg (mt (and_surrogCheck hlt).1 hs), if_neg hs]

theorem head_ne_zero {x : Nat} (hx : x < 256) (h0 : x ≠ 0) (bs : List UInt8) :
    (UInt8.ofNat x :: bs).head? ≠ some 0 := by
  rw [List.head?_cons, ne_eq, Option.some_inj]
  intro h
  refine h0 ?_
  rw [← uint8_toNat_ofNat hx, h]
  rfl

/-- The bytes of a round are one form, which is misformed if the unit is a trailing surrogate. -/
theorem ucs2Round_form (hw : w ≠ 0) :
    Lib.Complete (ucs2Round littleEndian lowerIdentifier w w').1 ∧
      (ucs2Round littleEndian lowerIdentifier w w').1.head? ≠ some 0 ∧
      (Misformed (ucs2Round littleEndian lowerIdentifier w w').1 ↔ IsTrail w) ∧
      (ucs2Round littleEndian lowerIdentifier w w').1.length = bytesOfUnit w := by
  have hlt := UInt16.toNat_lt w
  have hlt' := UInt16.toNat_lt w'
  have hpos : w.toNat ≠ 0 := fun h ↦ hw (UInt16.toNat_inj.1 h)
  rw [ucs2Round, bytesOfUnit]
  by_cases h7 : w.toNat < 0x80
  · rw [if_pos ((and_ascii hlt).2 h7), if_pos h7]
    have hlow : (if lowerIdentifier then tolower w.toNat else w.toNat) < 0x80 ∧
        (if lowerIdentifier then tolower w.toNat else w.toNat) ≠ 0 := by
      rw [tolower]
      grind
    generalize (if lowerIdentifier then tolower w.toNat else w.toNat) = x at hlow
    have hform := wellFormed_one.2 (show (UInt8.ofNat x).toNat < 0x80 by
      rw [uint8_toNat_ofNat (by omega)]
      exact hlow.1)
    exact ⟨hform.1, head_ne_zero (by omega) hlow.2 [],
      iff_of_false hform.2 fun h ↦ absurd h.1 (by omega), rfl⟩
  rw [if_neg (mt (and_ascii hlt).1 h7), if_neg h7]
  by_cases h11 : w.toNat < 0x800
  · rw [if_pos ((and_byte3check hlt).2 h11), if_pos h11, copyByte2code_eq _ h11]
    have hlead : (UInt8.ofNat (0xc0 + w.toNat / 64)).toNat = 0xc0 + w.toNat / 64 :=
      uint8_toNat_ofNat (by omega)
    have hform := wellFormed_two.2 ⟨by rw [hlead]; omega,
      isTail_ofNat (show w.toNat % 64 < 64 by omega)⟩
    exact ⟨hform.1, head_ne_zero (by omega) (by omega) _,
      iff_of_false hform.2 fun h ↦ absurd h.1 (by omega), rfl⟩
  rw [if_neg (mt (and_byte3check hlt).1 h11), if_neg h11]
  by_cases hs : IsLead w
  · rw [if_pos ((and_surrogCheck hlt).2 hs), if_pos hs]
    obtain ⟨hs1, hs2⟩ := hs
    rw [copyByte4code_eq littleEndian
      (s := w.toNat % 0x400 + 0x40) (t := w'.toNat % 0x400)
      (by rw [and_notSurrogCheck hlt]; rfl) (and_notSurrogCheck hlt') (by omega) (by omega)]
    have hs3 : (w.toNat % 0x400 + 0x40) / 256 < 5 := by omega
    have hlead := @uint8_toNat_ofNat (0xf0 + (w.toNat % 0x400 + 0x40) / 256) (by omega)
    have hsecond := @uint8_toNat_ofNat (0x80 + (w.toNat % 0x400 + 0x40) / 4 % 64) (by omega)
    have hform := wellFormed_four.2 ⟨by rw [hlead]; omega,
      ⟨isTail_ofNat (show (w.toNat % 0x400 + 0x40) / 4 % 64 < 64 by omega),
        isTail_ofNat (show (w.toNat % 0x400 + 0x40) % 4 * 16 + w'.toNat % 0x400 / 64 < 64 by omega),
        isTail_ofNat (show w'.toNat % 0x400 % 64 < 64 by omega)⟩,
      by rw [hlead, hsecond]; omega, by rw [hlead, hsecond]; omega⟩
    exact ⟨hform.1, head_ne_zero (by omega) (by omega) _,
      iff_of_false hform.2 fun h ↦ absurd h.1 (by omega), rfl⟩
  · rw [if_neg (mt (and_surrogCheck hlt).1 hs), if_neg hs, copyByte3code_eq _ hlt]
    have hlead := @uint8_toNat_ofNat (0xe0 + w.toNat / 4096) (by omega)
    have hsecond := @uint8_toNat_ofNat (0x80 + w.toNat / 64 % 64) (by omega)
    have hcomplete : Lib.Complete [UInt8.ofNat (0xe0 + w.toNat / 4096),
        UInt8.ofNat (0x80 + w.toNat / 64 % 64), UInt8.ofNat (0x80 + w.toNat % 64)] := by
      rw [complete_cons]
      refine ⟨formLength_eq_three.2 (by rw [hlead]; omega), ?_⟩
      rw [List.forall_mem_cons, List.forall_mem_singleton]
      exact ⟨(isTail_ofNat (by omega)).1, (isTail_ofNat (by omega)).1⟩
    refine ⟨hcomplete, head_ne_zero (by omega) (by omega) _, ?_, rfl⟩
    constructor
    · intro hm
      by_contra ht
      rw [IsLead] at hs
      rw [IsTrail] at ht
      exact (wellFormed_three.2 ⟨by rw [hlead]; omega,
        ⟨isTail_ofNat (by omega), isTail_ofNat (by omega)⟩, by rw [hlead, hsecond]; omega,
        by rw [hlead, hsecond]; omega⟩).2 hm
    · rintro ⟨ht1, ht2⟩
      exact Or.inr (Or.inl (Or.inl ⟨hlead.trans (by omega), by
        rw [byteAt, List.getD_cons_succ, List.getD_cons_zero, hsecond]; omega⟩))

end

section

variable {littleEndian lowerIdentifier : Bool}

theorem ucs2Loop_cons (w : UInt16) (ws : List UInt16) (n : Nat) :
    ucs2Loop littleEndian lowerIdentifier (w :: ws) n =
      if n = 0 ∨ w = 0 then []
      else (ucs2Round littleEndian lowerIdentifier w (ws.headD 0)).1 ++
        ucs2Loop littleEndian lowerIdentifier (ws.drop (unitsTaken w - 1)) (n - unitsTaken w) := by
  have hzero : w.toNat = 0 ↔ w = 0 := ⟨fun h ↦ UInt16.toNat_inj.1 h, fun h ↦ by rw [h]; rfl⟩
  rw [← @ucs2Round_taken littleEndian lowerIdentifier w (ws.headD 0), ucs2Loop.eq_def, ucs2Round]
  dsimp only
  simp only [hzero]
  split_ifs
  · rfl
  · rfl
  · rfl
  · rfl
  · cases ws with
    | nil =>
      rw [List.drop_nil, ucs2Loop, List.append_nil]
      rfl
    | cons w' ws => rfl
  · rfl

/-- The forms of the bytes are the rounds; one is misformed if a trailing surrogate is met alone. -/
theorem ucs2Loop_forms (str : List UInt16) (n : Nat) :
    (∀ b ∈ ucs2Loop littleEndian lowerIdentifier str n, b ≠ 0) ∧
      ((∀ p ∈ forms (ucs2Loop littleEndian lowerIdentifier str n),
          Lib.Complete p ∧ ¬Misformed p) ↔
        ¬LoneTrail str n) ∧
      (ucs2Loop littleEndian lowerIdentifier str n).length = encodedSize str n := by
  fun_induction LoneTrail str n with
  | case1 n =>
    rw [ucs2Loop, forms_nil, encodedSize]
    exact ⟨List.forall_mem_nil _, iff_of_true (List.forall_mem_nil _) not_false, rfl⟩
  | case2 n w ws h =>
    rw [ucs2Loop_cons, if_pos h, forms_nil, encodedSize, if_pos h]
    exact ⟨List.forall_mem_nil _, iff_of_true (List.forall_mem_nil _) not_false, rfl⟩
  | case3 n w ws h ih =>
    obtain ⟨hnz, hforms, hlen⟩ := ih
    obtain ⟨hform, hhead, hmis, hsize⟩ := @ucs2Round_form littleEndian lowerIdentifier w
      (ws.headD 0) (not_or.1 h).2
    rw [ucs2Loop_cons, if_neg h, forms_append hform hhead, List.forall_mem_append,
      List.forall_mem_cons, encodedSize, if_neg h, List.length_append, hsize, hlen, hforms, hmis,
      not_or]
    exact ⟨⟨hform.ne_zero hhead, hnz⟩, and_congr_left' (and_iff_right hform), rfl⟩

theorem ucs2Loop_valid {str : List UInt16} {n : Nat} :
    (∃ chars, ucs2Loop littleEndian lowerIdentifier str n = utf8Encode chars) ↔
      ¬LoneTrail str n := by
  obtain ⟨hnz, hforms, -⟩ := @ucs2Loop_forms littleEndian lowerIdentifier str n
  rw [← hforms, ← utf8_iff, List.takeWhile_eq_self_iff.2]
  · rfl
  · intro b hb
    exact decide_eq_true (hnz b hb)

theorem unitsTaken_pos (w : UInt16) : 1 ≤ unitsTaken w := by
  rw [unitsTaken]
  grind

theorem bytesOfUnit_le (w : UInt16) : bytesOfUnit w ≤ 4 := by
  rw [bytesOfUnit]
  grind

theorem encodedSize_le (str : List UInt16) (n : Nat) : encodedSize str n ≤ n * 4 := by
  fun_induction encodedSize str n with
  | case1 n => exact Nat.zero_le _
  | case2 n w ws h => exact Nat.zero_le _
  | case3 n w ws h ih =>
    have hbytes := bytesOfUnit_le w
    have hpos := unitsTaken_pos w
    omega

/-- Bytes are put behind those that are there. -/
theorem append_overwrite {mem xs : List UInt8} {bytes : List UInt8}
    (hroom : xs.length + bytes.length ≤ mem.length) :
    Utf8Str.append ⟨CountingBuffer.overwrite mem xs, xs.length⟩ bytes =
      if xs.length + bytes.length < 2 ^ 31 then
        some ⟨CountingBuffer.overwrite mem (xs ++ bytes), (xs ++ bytes).length⟩
      else none := by
  have hlen : (CountingBuffer.overwrite mem xs).length = mem.length :=
    CountingBuffer.length_overwrite (by omega)
  have hstore : (CountingBuffer.overwrite mem xs).take xs.length ++
      (bytes ++ (CountingBuffer.overwrite mem xs).drop (xs.length + bytes.length)) =
        CountingBuffer.overwrite mem (xs ++ bytes) := by
    rw [CountingBuffer.overwrite, List.take_left, List.drop_append,
      List.drop_eq_nil_of_le (Nat.le_add_right _ _), List.nil_append, Nat.add_sub_cancel_left,
      List.drop_drop, CountingBuffer.overwrite, List.length_append, List.append_assoc]
  rw [Utf8Str.append]
  dsimp only
  rw [hstore, List.length_append]
  by_cases hint : xs.length + bytes.length < 2 ^ 31
  · rw [if_pos hint, if_pos ⟨by omega, hint⟩]
  · rw [if_neg hint, if_neg fun h ↦ hint h.2]

/-- While `len` is an `int` the loop stores what `ucs2Loop` says, and looks behind the text only for
the unit behind a leading surrogate. -/
theorem ucs2BufferLoop_some {mem : List UInt8} (str : List UInt16) (n : Nat) {xs : List UInt8}
    (hroom : xs.length + n * 4 ≤ mem.length) (hint : xs.length + encodedSize str n < 2 ^ 31) :
    ∃ seen, ucs2BufferLoop littleEndian lowerIdentifier str n
        ⟨CountingBuffer.overwrite mem xs, xs.length⟩ =
          some (⟨CountingBuffer.overwrite mem (xs ++ ucs2Loop littleEndian lowerIdentifier str n),
            (xs ++ ucs2Loop littleEndian lowerIdentifier str n).length⟩, seen) ∧
      (n = 0 → seen = 0) ∧ seen ≤ n + 1 ∧ (seen ≤ n ↔ ¬CutLead str n) := by
  fun_induction CutLead str n generalizing xs with
  | case1 n =>
    rw [ucs2BufferLoop, ucs2Loop, List.append_nil]
    by_cases hn : n = 0
    · rw [if_pos hn]
      exact ⟨0, rfl, fun _ ↦ rfl, Nat.zero_le _, iff_of_true (Nat.zero_le _) not_false⟩
    · rw [if_neg hn]
      exact ⟨1, rfl, fun h ↦ absurd h hn, by omega, iff_of_true (by omega) not_false⟩
  | case2 n w ws h =>
    rw [ucs2BufferLoop, ucs2Loop_cons, if_pos h, List.append_nil]
    by_cases hn : n = 0
    · rw [if_pos hn]
      exact ⟨0, rfl, fun _ ↦ rfl, Nat.zero_le _, iff_of_true (Nat.zero_le _) not_false⟩
    · rw [if_neg hn, if_pos (h.resolve_left hn)]
      exact ⟨1, rfl, fun h ↦ absurd h hn, by omega, iff_of_true (by omega) not_false⟩
  | case3 n w ws h ih =>
    obtain ⟨hn, hw⟩ := not_or.1 h
    obtain ⟨-, -, -, hsize⟩ := @ucs2Round_form littleEndian lowerIdentifier w (ws.headD 0) hw
    have htaken := @ucs2Round_taken littleEndian lowerIdentifier w (ws.headD 0)
    have hbytes := bytesOfUnit_le w
    have hpos := unitsTaken_pos w
    rw [encodedSize, if_neg h] at hint
    obtain ⟨seen, hrun, hzero, hle, hiff⟩ := @ih
      (xs ++ (ucs2Round littleEndian lowerIdentifier w (ws.headD 0)).1)
      (by rw [List.length_append, hsize]; omega) (by rw [List.length_append, hsize]; omega)
    refine ⟨unitsTaken w + seen, ?_, fun h0 ↦ absurd h0 hn, ?_⟩
    · rw [ucs2BufferLoop, if_neg hn, if_neg hw, ucs2Loop_cons, if_neg h]
      dsimp only
      rw [append_overwrite (by omega), hsize, if_pos (by omega), htaken, Option.bind_some, hrun,
        Option.map_some, List.append_assoc]
    · rw [not_or, ← hiff]
      by_cases hlead : IsLead w
      · rw [unitsTaken, if_pos hlead] at hzero hle ⊢
        rw [and_iff_left hlead]
        omega
      · rw [unitsTaken, if_neg hlead] at hzero hle ⊢
        rw [and_iff_right fun hlast ↦ hlead hlast.2]
        omega

theorem ucs2BufferLoop_none {mem : List UInt8} (str : List UInt16) (n : Nat) {xs : List UInt8}
    (hroom : xs.length + n * 4 ≤ mem.length) (hint : 2 ^ 31 ≤ xs.length + encodedSize str n)
    (hxs : xs.length < 2 ^ 31) : ucs2BufferLoop littleEndian lowerIdentifier str n
        ⟨CountingBuffer.overwrite mem xs, xs.length⟩ = none := by
  fun_induction encodedSize str n generalizing xs with
  | case1 n => omega
  | case2 n w ws h => omega
  | case3 n w ws h ih =>
    obtain ⟨hn, hw⟩ := not_or.1 h
    obtain ⟨-, -, -, hsize⟩ := @ucs2Round_form littleEndian lowerIdentifier w (ws.headD 0) hw
    have htaken := @ucs2Round_taken littleEndian lowerIdentifier w (ws.headD 0)
    have hbytes := bytesOfUnit_le w
    have hpos := unitsTaken_pos w
    rw [ucs2BufferLoop, if_neg hn, if_neg hw]
    dsimp only
    rw [append_overwrite (by omega), hsize, htaken]
    by_cases hxs' : xs.length + bytesOfUnit w < 2 ^ 31
    · rw [if_pos hxs', Option.bind_some, ih, Option.map_none]
      · rw [List.length_append, hsize]
        omega
      · rw [List.length_append, hsize]
        omega
      · rw [List.length_append, hsize]
        exact hxs'
    · rw [if_neg hxs', Option.bind_none]

end

/-! ## The conversion -/

/-- The conversion succeeds in the memory it has allocated, looks at no unit behind the text (behind
its terminator, if there is one), and what it leaves is UTF-8 of the length it reports, with a NUL
behind. -/
structure StaysInside (littleEndian : Bool) (garbage : Nat → UInt8) (str : List UInt16) (ilen : Int)
    (lowerIdentifier : Bool) (run : Ucs2Run) : Prop where
  runs : ucs2ToUtf8Run littleEndian garbage str ilen lowerIdentifier = some run
  reads : run.seen ≤ ucs2Length str ilen + if ilen < 0 then 1 else 0
  valid : ∃ chars rest, run.utf8str = utf8Encode chars ++ 0 :: rest ∧
    run.olen = (utf8Encode chars).length

section

variable {littleEndian lowerIdentifier : Bool} {garbage : Nat → UInt8} {str : List UInt16}
  {ilen : Int}

/-- The memory holds what `ucs2Loop` says. -/
theorem ucs2ToUtf8Run_some (hint : encodedSize str (ucs2Length str ilen) < 2 ^ 31) :
    ∃ seen rest, ucs2ToUtf8Run littleEndian garbage str ilen lowerIdentifier =
        some ⟨ucs2Loop littleEndian lowerIdentifier str (ucs2Length str ilen) ++ 0 :: rest,
          (ucs2Loop littleEndian lowerIdentifier str (ucs2Length str ilen)).length, seen⟩ ∧
      seen ≤ ucs2Length str ilen + 1 ∧
      (seen ≤ ucs2Length str ilen ↔ ¬CutLead str (ucs2Length str ilen)) := by
  rw [ucs2ToUtf8Run]
  dsimp only
  generalize ucs2Length str ilen = n at hint ⊢
  have hlen : ((List.range (n * 4 + 1)).map garbage).length = n * 4 + 1 := by
    rw [List.length_map, List.length_range]
  generalize (List.range (n * 4 + 1)).map garbage = mem at hlen ⊢
  obtain ⟨seen, hrun, -, hle, hiff⟩ := @ucs2BufferLoop_some littleEndian lowerIdentifier mem str n
    [] (by rw [hlen, List.length_nil]; omega) (by rw [List.length_nil, Nat.zero_add]; exact hint)
  rw [CountingBuffer.overwrite_nil, List.length_nil, List.nil_append] at hrun
  have hroom : (ucs2Loop littleEndian lowerIdentifier str n).length < mem.length := by
    have hsize := encodedSize_le str n
    rw [(@ucs2Loop_forms littleEndian lowerIdentifier str n).2.2]
    omega
  refine ⟨seen, mem.drop (ucs2Loop littleEndian lowerIdentifier str n ++ [0]).length, ?_, hle,
    hiff⟩
  rw [hrun, Option.bind_some, CountingBuffer.store_overwrite hroom, Option.map_some,
    CountingBuffer.overwrite, List.append_assoc, List.singleton_append]

theorem ucs2ToUtf8Run_none (hint : 2 ^ 31 ≤ encodedSize str (ucs2Length str ilen)) :
    ucs2ToUtf8Run littleEndian garbage str ilen lowerIdentifier = none := by
  have hlen : ((List.range (ucs2Length str ilen * 4 + 1)).map garbage).length =
      ucs2Length str ilen * 4 + 1 := by
    rw [List.length_map, List.length_range]
  have hnone := @ucs2BufferLoop_none littleEndian lowerIdentifier
    ((List.range (ucs2Length str ilen * 4 + 1)).map garbage) str (ucs2Length str ilen) []
    (by rw [hlen, List.length_nil]; omega) (by rw [List.length_nil, Nat.zero_add]; exact hint)
    (by decide)
  rw [CountingBuffer.overwrite_nil, List.length_nil] at hnone
  rw [ucs2ToUtf8Run]
  dsimp only
  rw [hnone, Option.bind_none]

end

/-- This holds of a text in which no trailing surrogate is met alone, which does not end with a
leading one where its length is given, and whose bytes an `int` counts. -/
theorem ucs2ToUtf8_inside_iff (littleEndian : Bool) (garbage : Nat → UInt8) (str : List UInt16)
    (ilen : Int) (lowerIdentifier : Bool) :
    (∃ run, StaysInside littleEndian garbage str ilen lowerIdentifier run) ↔
      ¬LoneTrail str (ucs2Length str ilen) ∧ (0 ≤ ilen → ¬CutLead str (ucs2Length str ilen)) ∧
        encodedSize str (ucs2Length str ilen) < 2 ^ 31 := by
  constructor
  · rintro ⟨run, hrun, hreads, chars, rest, hvalid, holen⟩
    have hint : encodedSize str (ucs2Length str ilen) < 2 ^ 31 := by
      by_contra hlarge
      rw [ucs2ToUtf8Run_none (Nat.not_lt.1 hlarge)] at hrun
      cases hrun
    obtain ⟨seen, rest', hsome, -, hiff⟩ :=
      @ucs2ToUtf8Run_some littleEndian lowerIdentifier garbage str ilen hint
    rw [hsome] at hrun
    cases hrun
    refine ⟨ucs2Loop_valid.1 ⟨chars, (List.append_inj hvalid holen).1⟩, ?_, hint⟩
    intro hgiven
    rw [if_neg (by omega)] at hreads
    exact hiff.1 hreads
  · rintro ⟨htrail, hlead, hint⟩
    obtain ⟨seen, rest, hsome, hle, hiff⟩ :=
      @ucs2ToUtf8Run_some littleEndian lowerIdentifier garbage str ilen hint
    obtain ⟨chars, hchars⟩ := (@ucs2Loop_valid littleEndian lowerIdentifier _ _).2 htrail
    refine ⟨_, hsome, ?_, chars, rest, by rw [hchars], by rw [hchars]⟩
    dsimp only
    split
    · exact hle
    · next hgiven => exact hiff.2 (hlead (Int.not_lt.1 hgiven))

/-- A leading surrogate whose length is given, and a trailing one that is terminated. -/
theorem ucs2ToUtf8_not_inside :
    (¬∃ run, StaysInside true (fun _ ↦ 0) [0xd834] 1 false run) ∧
      ¬∃ run, StaysInside true (fun _ ↦ 0) [0xdd1e, 0] (-3) false run := by
  constructor
  · rintro ⟨run, hrun, hreads, -⟩
    obtain ⟨seen, rest, hsome, -, hiff⟩ := @ucs2ToUtf8Run_some true false (fun _ ↦ 0) [0xd834] 1
      (Nat.lt_of_le_of_lt (encodedSize_le _ _) (by decide))
    rw [hsome] at hrun
    cases hrun
    refine hiff.1 hreads ?_
    rw [CutLead, if_neg (by decide)]
    exact Or.inl ⟨rfl, by decide⟩
  · rintro ⟨run, hrun, -, chars, rest, hvalid, holen⟩
    obtain ⟨seen, rest', hsome, -⟩ := @ucs2ToUtf8Run_some true false (fun _ ↦ 0) [0xdd1e, 0] (-3)
      (Nat.lt_of_le_of_lt (encodedSize_le _ _) (by decide))
    rw [hsome] at hrun
    cases hrun
    refine ucs2Loop_valid.1 ⟨chars, (List.append_inj hvalid holen).1⟩ ?_
    rw [LoneTrail, if_neg (by decide)]
    exact Or.inl (by rw [IsTrail]; decide)

end PsqlOdbc
