import PsqlOdbc.Lib.CountingBuffer
import PsqlOdbc.WinUnicode

/-!
# Wide strings in a buffer (`win_unicode.c`)

`utf8_to_ucs2_lf` and `utf8_to_ucs4_lf` go through a text in the same way, and store each unit when
they have it if there is room.  Here they are taken round by round, with the bytes they look at:
a unit is made of bytes of the text only if it is stored.
-/

namespace PsqlOdbc

open Lib

/-! ## A round -/

/-- What differs between the two: the cast of a number, and the units of a four-byte form, each with
the number of bytes up to the last one it is made of. -/
structure WideTarget (α : Type) where
  unit : Nat → α
  four : Nat → Nat → Nat → Nat → List (α × Nat)

/-- `SQLWCHAR`. -/
def ucs2Target : WideTarget UInt16 where
  unit := UInt16.ofNat
  four b0 b1 b2 b3 :=
    [(UInt16.ofNat (wcode4Lead b0 b1 b2), 3), (UInt16.ofNat (wcode4Trail b2 b3), 4)]

/-- What a round ends with; `seen` is the number of bytes up to the last one that has been looked
at. -/
inductive Utf8Round (α : Type)
  | stop (seen : Nat)
  | giveUp (seen : Nat)
  /-- The units that are put out, each with the bytes it is made of, and the bytes the cursor goes
  on by. -/
  | units (puts : List (α × Nat)) (len seen : Nat)

/-- The checks in front of a form of `k` bytes, of which the first is at the cursor and the others
are in `bs`; with the bytes they look at. -/
def checkForm (errcheck : Bool) (k n : Nat) (bs : List UInt8) : Bool × Nat :=
  if !errcheck then (true, 1)
  else if n < k then (false, 1)
  else
    match (List.range (k - 1)).find? fun i ↦ (bs.getD i 0).toNat &&& 0x80 = 0 with
    | some i => (false, i + 2)
    | none => (true, k)

section

variable {α : Type} (target : WideTarget α) (lfconv errcheck : Bool)

/-- A form of `k` bytes. -/
def formRound (n k : Nat) (bs : List UInt8) (puts : List (α × Nat)) : Utf8Round α :=
  if (checkForm errcheck k n bs).1 then .units puts k (checkForm errcheck k n bs).2
  else .giveUp (checkForm errcheck k n bs).2

/-- A round at the byte `b`, with `n` bytes left to read and `prev` the byte before. -/
def utf8Round (prev : Option UInt8) (b : UInt8) (bs : List UInt8) (n : Nat) : Utf8Round α :=
  if n = 0 then .stop 0
  else if b = 0 then .stop 1
  else
    let b0 := b.toNat
    let b1 := (bs.getD 0 0).toNat
    let b2 := (bs.getD 1 0).toNat
    let b3 := (bs.getD 2 0).toNat
    if b0 &&& 0x80 = 0 then
      .units ((if lfconv ∧ b = 0x0a ∧ prev ≠ some 0x0d then [(target.unit 0x0d, 1)] else []) ++
        [(target.unit b0, 1)]) 1 1
    else if 0xf8 = b0 &&& 0xf8 then .giveUp 1
    else if 0xf0 = b0 &&& 0xf8 then formRound errcheck n 4 bs (target.four b0 b1 b2 b3)
    else if 0xe0 = b0 &&& 0xf0 then
      formRound errcheck n 3 bs [(target.unit (wcode3 b0 b1 b2), 3)]
    else if 0xc0 = b0 &&& 0xe0 then formRound errcheck n 2 bs [(target.unit (wcode2 b0 b1), 2)]
    else .giveUp 1

/-! ## The loop -/

/-- The units a text is converted to, and whether its end is reached. -/
def utf8Units (prev : Option UInt8) (str : List UInt8) (n : Nat) : List α × Bool :=
  match str with
  | [] => ([], true)
  | b :: bs =>
    match utf8Round target lfconv errcheck prev b bs n with
    | .stop _ => ([], true)
    | .giveUp _ => ([], false)
    | .units puts len _ =>
      Prod.map (puts.map (·.1) ++ ·) id
        (utf8Units ((b :: bs)[len - 1]?) (bs.drop (len - 1)) (n - len))
termination_by str.length
decreasing_by simp only [List.length_cons, List.length_drop]; omega

/-- Put units out, with the bytes that have been looked at. -/
def putUnits (bufcount : Nat) :
    CountingBuffer α → Nat → List (α × Nat) → Option (CountingBuffer α × Nat)
  | b, seen, [] => some (b, seen)
  | b, seen, (x, k) :: puts =>
    (b.put bufcount x).bind fun b' ↦
      putUnits bufcount b' (if b.ocount < bufcount then max seen k else seen) puts

/-- A run of the loop: whether the end is reached, the buffer, and the bytes that have been looked
at. -/
structure Utf8Run (α : Type) where
  ok : Bool
  buffer : CountingBuffer α
  seen : Nat
  deriving DecidableEq, Repr

/-- The loop; the memory behind `str` is taken for zeros.  No result if it stores behind the
memory. -/
def utf8BufferLoop (bufcount : Nat) (prev : Option UInt8) (str : List UInt8) (n : Nat)
    (b : CountingBuffer α) : Option (Utf8Run α) :=
  match str with
  | [] => some ⟨true, b, if n = 0 then 0 else 1⟩
  | c :: bs =>
    match utf8Round target lfconv errcheck prev c bs n with
    | .stop seen => some ⟨true, b, seen⟩
    | .giveUp seen => some ⟨false, b, seen⟩
    | .units puts len seen =>
      (putUnits bufcount b seen puts).bind fun (b, seen) ↦
        (utf8BufferLoop bufcount ((c :: bs)[len - 1]?) (bs.drop (len - 1)) (n - len) b).map fun run ↦
          { run with seen := if run.seen = 0 then seen else max seen (len + run.seen) }
termination_by str.length
decreasing_by simp only [List.length_cons, List.length_drop]; omega

/-- The length that is given, or that of the terminated string. -/
def utf8Length (str : List UInt8) (ilen : Int) : Nat :=
  if ilen < 0 then (str.takeWhile (· ≠ 0)).length else ilen.toNat

/-- Both functions: the return value and the memory from the buffer on.  There is no buffer if
`dst` is none. -/
def utf8ToWideLf (zero : α) (utf8str : Option (List UInt8)) (ilen : Int) (dst : Option (List α))
    (bufcount : Nat) : Option (Nat × List α) :=
  match utf8str with
  | none => some (0, dst.getD [])
  | some str =>
    let bufcount := if dst.isNone then 0 else bufcount
    (utf8BufferLoop target lfconv errcheck bufcount none str (utf8Length str ilen)
      ⟨0, dst.getD []⟩).bind fun run ↦
        let rtn := if run.ok then run.buffer.ocount else if errcheck then sqlulenMinusOne else 0
        let buffer := if run.ok then run.buffer else { run.buffer with ocount := 0 }
        (buffer.terminate bufcount zero).map fun cells ↦ (rtn, cells)

end

/-- `utf8_to_ucs2_lf`, with the memory it leaves. -/
def utf8ToUcs2LfBuffer (utf8str : Option (List UInt8)) (ilen : Int) (lfconv : Bool)
    (ucs2str : Option (List UInt16)) (bufcount : Nat) (errcheck : Bool) :
    Option (Nat × List UInt16) :=
  utf8ToWideLf ucs2Target lfconv errcheck 0 utf8str ilen ucs2str bufcount

section

variable {α : Type} {target : WideTarget α} {lfconv errcheck : Bool} {bufcount : Nat}
  {mem xs : List α} {prev : Option UInt8} {str : List UInt8} {n : Nat}

theorem putUnits_holding (h : bufcount ≤ mem.length) (seen : Nat) (puts : List (α × Nat)) :
    ∃ seen', putUnits bufcount (.holding bufcount mem xs) seen puts =
      some (.holding bufcount mem (xs ++ puts.map (·.1)), seen') := by
  induction puts generalizing xs seen with
  | nil => exact ⟨seen, by rw [putUnits, List.map_nil, List.append_nil]⟩
  | cons p puts ih =>
    obtain ⟨x, k⟩ := p
    rw [putUnits, CountingBuffer.put_holding h, Option.bind_some]
    obtain ⟨seen', hput⟩ := @ih (xs ++ [x])
      (if (CountingBuffer.holding bufcount mem xs).ocount < bufcount then max seen k else seen)
    exact ⟨seen', by rw [hput, List.map_cons, ← List.append_cons]⟩

/-- Whatever the capacity is, the loop puts out the same units. -/
theorem utf8BufferLoop_holding (h : bufcount ≤ mem.length) :
    ∃ seen, utf8BufferLoop target lfconv errcheck bufcount prev str n (.holding bufcount mem xs) =
      some ⟨(utf8Units target lfconv errcheck prev str n).2,
        .holding bufcount mem (xs ++ (utf8Units target lfconv errcheck prev str n).1), seen⟩ := by
  fun_induction utf8Units target lfconv errcheck prev str n generalizing xs with
  | case1 prev n =>
    rw [utf8BufferLoop, List.append_nil]
    exact ⟨_, rfl⟩
  | case2 prev n b bs seen hround =>
    rw [utf8BufferLoop, hround, List.append_nil]
    exact ⟨_, rfl⟩
  | case3 prev n b bs seen hround =>
    rw [utf8BufferLoop, hround, List.append_nil]
    exact ⟨_, rfl⟩
  | case4 prev n b bs puts len seen hround ih =>
    obtain ⟨seen', hput⟩ := @putUnits_holding _ _ _ xs h seen puts
    obtain ⟨seen'', hrest⟩ := @ih (xs ++ puts.map (·.1))
    rw [utf8BufferLoop, hround]
    dsimp only
    rw [hput, Option.bind_some]
    dsimp only
    rw [hrest, Option.map_some, List.append_assoc]
    exact ⟨_, rfl⟩

/-- What a conversion leaves in a buffer: all units and a terminator, or those there is room for.
Where the conversion gives up, a terminator is put in front. -/
def bufferAfter {α : Type} (zero : α) (r : List α × Bool) (buf : List α) : List α :=
  if r.2 then
    CountingBuffer.overwrite buf
      (if r.1.length < buf.length then r.1 ++ [zero] else r.1.take buf.length)
  else (CountingBuffer.overwrite buf (r.1.take buf.length)).set 0 zero

/-- The return value. -/
def lengthAfter {α : Type} (errcheck : Bool) (r : List α × Bool) : Nat :=
  if r.2 then r.1.length else if errcheck then sqlulenMinusOne else 0

theorem overwrite_append {α : Type} {xs buf : List α} (h : xs.length ≤ buf.length)
    (behind : List α) : CountingBuffer.overwrite (buf ++ behind) xs =
      CountingBuffer.overwrite buf xs ++ behind := by
  rw [CountingBuffer.overwrite, CountingBuffer.overwrite, List.drop_append_of_le_length h,
    List.append_assoc]

/-- A buffer with memory behind it. -/
theorem utf8ToWideLf_buffer (zero : α) (str : List UInt8) (ilen : Int) (buf behind : List α) :
    utf8ToWideLf target lfconv errcheck zero (some str) ilen (some (buf ++ behind)) buf.length =
      some (lengthAfter errcheck
          (utf8Units target lfconv errcheck none str (utf8Length str ilen)),
        bufferAfter zero (utf8Units target lfconv errcheck none str (utf8Length str ilen)) buf ++
          behind) := by
  have hmem : buf.length ≤ (buf ++ behind).length := by
    rw [List.length_append]
    exact Nat.le_add_right _ _
  obtain ⟨seen, hloop⟩ := @utf8BufferLoop_holding α target lfconv errcheck buf.length
    (buf ++ behind) [] none str (utf8Length str ilen) hmem
  generalize utf8Units target lfconv errcheck none str (utf8Length str ilen) = r at hloop ⊢
  rw [CountingBuffer.holding_nil, List.nil_append] at hloop
  rw [utf8ToWideLf]
  simp only [Option.isNone_some, Bool.false_eq_true, if_false, Option.getD_some, hloop,
    Option.bind_some]
  obtain ⟨us, ok⟩ := r
  cases ok with
  | true =>
    simp only [if_true, CountingBuffer.terminate_holding hmem, Option.map_some, lengthAfter,
      bufferAfter]
    rw [overwrite_append]
    · rfl
    · split
      · next h =>
        rw [List.length_append, List.length_singleton]
        exact h
      · exact List.length_take_le _ _
  | false =>
    simp only [Bool.false_eq_true, if_false, lengthAfter, bufferAfter, CountingBuffer.holding]
    have htake : (us.take buf.length).length ≤ buf.length := List.length_take_le _ _
    have hlen := CountingBuffer.length_overwrite htake
    rw [CountingBuffer.terminate]
    dsimp only
    by_cases hempty : 0 < buf.length
    · have hroom : 0 < (CountingBuffer.overwrite buf (us.take buf.length) ++ behind).length := by
        rw [List.length_append]
        omega
      rw [if_pos hempty, CountingBuffer.store, overwrite_append htake, if_pos hroom,
        Option.map_some, List.set_append_left _ _ (by omega)]
    · have hnil : buf = [] := List.length_eq_zero_iff.1 (Nat.eq_zero_of_not_pos hempty)
      rw [if_neg hempty, overwrite_append htake, hnil, Option.map_some, List.length_nil,
        List.take_zero]
      rfl

end

/-! ## The conversion -/

section

variable {lfconv errcheck : Bool}

theorem checkForm_eq {k n : Nat} {bs : List UInt8} :
    (checkForm errcheck k n bs).1 = true ↔
      ¬(errcheck = true ∧ (n < k ∨ ∃ i < k - 1, (bs.getD i 0).toNat &&& 0x80 = 0)) := by
  rw [checkForm]
  cases errcheck with
  | false => simp
  | true =>
    rw [if_neg (by simp)]
    by_cases hn : n < k
    · simp [hn]
    · rw [if_neg hn]
      split
      · next i hi =>
        have hmem := List.mem_of_find?_eq_some hi
        have hzero := List.find?_some hi
        refine iff_of_false Bool.false_ne_true (not_not.2 ⟨rfl, Or.inr ⟨i, List.mem_range.1 hmem, ?_⟩⟩)
        exact of_decide_eq_true hzero
      · next hnone =>
        refine iff_of_true rfl ?_
        rintro ⟨-, h | ⟨i, hi, hzero⟩⟩
        · exact hn h
        · exact absurd (decide_eq_true hzero) (List.find?_eq_none.1 hnone i (List.mem_range.2 hi))

theorem formRound_eq {α : Type} (n k : Nat) (bs : List UInt8) (puts : List (α × Nat)) :
    formRound errcheck n k bs puts =
      if errcheck = true ∧ (n < k ∨ ∃ i < k - 1, (bs.getD i 0).toNat &&& 0x80 = 0) then
        .giveUp (checkForm errcheck k n bs).2
      else .units puts k (checkForm errcheck k n bs).2 := by
  rw [formRound]
  by_cases h : (checkForm errcheck k n bs).1 = true
  · rw [if_pos h, if_neg (checkForm_eq.1 h)]
  · rw [if_neg h, if_pos (not_not.1 (mt checkForm_eq.2 h))]

/-- One round of the conversion. -/
theorem utf8Loop_cons (prev : Option UInt8) (b : UInt8) (bs : List UInt8) (n : Nat) :
    utf8Loop lfconv errcheck prev (b :: bs) n =
      match utf8Round ucs2Target lfconv errcheck prev b bs n with
      | .stop _ => some []
      | .giveUp _ => none
      | .units puts len _ =>
        (utf8Loop lfconv errcheck ((b :: bs)[len - 1]?) (bs.drop (len - 1)) (n - len)).map
          (puts.map (·.1) ++ ·) := by
  rw [utf8Loop, utf8Round]
  by_cases hn : n = 0
  · rw [if_pos (Or.inl hn), if_pos hn]
  by_cases hb : b = 0
  · rw [if_pos (Or.inr hb), if_neg hn, if_pos hb]
  rw [if_neg (not_or.2 ⟨hn, hb⟩), if_neg hn, if_neg hb]
  dsimp only
  split
  · split
    · rfl
    · rfl
  split
  · rfl
  split
  · rw [formRound_eq]
    simp only [Nat.exists_lt_succ_left, Nat.not_lt_zero, false_and, exists_false, or_false,
      Nat.add_one_sub_one, Nat.zero_add]
    split
    · rfl
    · rfl
  split
  · rw [formRound_eq]
    simp only [Nat.exists_lt_succ_left, Nat.not_lt_zero, false_and, exists_false, or_false,
      Nat.add_one_sub_one, Nat.zero_add]
    split
    · rfl
    · rfl
  split
  · rw [formRound_eq]
    simp only [Nat.exists_lt_succ_left, Nat.not_lt_zero, false_and, exists_false, or_false,
      Nat.add_one_sub_one]
    split
    · rfl
    · rfl
  · rfl

/-- The units are those of the conversion. -/
theorem utf8Units_ucs2 (prev : Option UInt8) (str : List UInt8) (n : Nat) :
    utf8Loop lfconv errcheck prev str n =
      if (utf8Units ucs2Target lfconv errcheck prev str n).2 then
        some (utf8Units ucs2Target lfconv errcheck prev str n).1
      else none := by
  fun_induction utf8Units ucs2Target lfconv errcheck prev str n with
  | case1 prev n =>
    rw [utf8Loop]
    rfl
  | case2 prev n b bs seen hround =>
    rw [utf8Loop_cons, hround]
    rfl
  | case3 prev n b bs seen hround =>
    rw [utf8Loop_cons, hround]
    rfl
  | case4 prev n b bs puts len seen hround ih =>
    rw [utf8Loop_cons, hround]
    dsimp only
    rw [ih]
    generalize utf8Units ucs2Target lfconv errcheck ((b :: bs)[len - 1]?) (bs.drop (len - 1))
      (n - len) = r
    obtain ⟨us, ok⟩ := r
    cases ok with
    | false => rfl
    | true => rfl

end

end PsqlOdbc
