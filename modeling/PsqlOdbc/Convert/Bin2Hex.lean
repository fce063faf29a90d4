import Mathlib.Tactic.Linarith
import Mathlib.Tactic.Ring
import PsqlOdbc.Convert.Pgbinary
import PsqlOdbc.Lib.Memory

/-!
# Hexadecimal encoding in place (`convert.c`)

`pg_bin2hex` and `pg_bin2whex` write two characters for each byte of the source, and the destination
may overlap the source: the distance of the pointers decides in which direction the bytes are read.
-/

namespace PsqlOdbc

open Lib

/-! ## The program -/

/-- The type of the characters that `def_bin2hex` is used with. -/
inductive HexType
  | char
  | sqlwchar
  deriving DecidableEq, Repr

namespace HexType

variable (type : HexType)

/-- `sizeof(type)`. -/
def size : HexType → ℕ
  | .char => 1
  | .sqlwchar => 2

/-- A character in memory. -/
def bytes : HexType → UInt8 → List UInt8
  | .char, c => [c]
  | .sqlwchar, c => [c, 0]

@[simp] theorem length_bytes (c : UInt8) : (type.bytes c).length = type.size := by
  cases type <;> rfl

end HexType

/-- The first character of a byte. -/
def highDigit (chr : UInt8) : UInt8 := hextbl.getD (chr >>> 4).toNat 0

/-- The second character of a byte. -/
def lowDigit (chr : UInt8) : UInt8 := hextbl.getD (chr % 16).toNat 0

/-- `INT_MAX`. -/
def bin2hexMax : ℕ := 0x7fffffff

/-- The loop of `def_bin2hex` that goes forwards, where `left` bytes are left; no result if its `int`
overflows. -/
def forwardsLoop (type : HexType) : ℕ → ℕ → ℤ → ℤ → Memory UInt8 → Option (Memory UInt8)
  | 0, _, _, _, m => some m
  | left + 1, i, srcWk, dstWk, m =>
    let chr := m srcWk
    let m := m.write dstWk (type.bytes (highDigit chr))
    let m := m.write (dstWk + type.size) (type.bytes (lowDigit chr))
    if i = bin2hexMax then none
    else forwardsLoop type left (i + 1) (srcWk + 1) (dstWk + 2 * type.size) m

/-- The loop that goes backwards. -/
def backwardsLoop (type : HexType) : ℕ → ℕ → ℤ → ℤ → Memory UInt8 → Option (Memory UInt8)
  | 0, _, _, _, m => some m
  | left + 1, i, srcWk, dstWk, m =>
    let chr := m srcWk
    let m := m.write dstWk (type.bytes (lowDigit chr))
    let m := m.write (dstWk - type.size) (type.bytes (highDigit chr))
    if i = bin2hexMax then none
    else backwardsLoop type left (i + 1) (srcWk - 1) (dstWk - 2 * type.size) m

/-- A call of a function of `def_bin2hex`. -/
structure Bin2Hex where
  type : HexType
  src : ℤ
  dst : ℤ
  length : ℕ
  memory : Memory UInt8

namespace Bin2Hex

variable (call : Bin2Hex)

/-- The destination is in front of the source, and its last byte would be overwritten. -/
def Refused : Prop :=
  call.dst < call.src ∧
    call.src + call.length - 1 < call.dst + 2 * (call.length - 1) * call.type.size

instance : Decidable call.Refused := inferInstanceAs (Decidable (_ ∧ _))

/-- `backwards`. -/
def backwards : Bool := decide (¬ call.dst < call.src ∧ call.dst < call.src + call.length)

/-- `def_bin2hex`. -/
def run : Option (ℤ × Memory UInt8) :=
  if call.Refused then some (-1, call.memory)
  else
    (if call.backwards then
      backwardsLoop call.type call.length 0 (call.src + call.length - 1)
        (call.dst + (2 * call.length - 1) * call.type.size) call.memory
    else forwardsLoop call.type call.length 0 call.src call.dst call.memory).map fun m ↦
      (2 * call.length * call.type.size,
        m.write (call.dst + 2 * call.length * call.type.size) (call.type.bytes 0))

end Bin2Hex

/-- `pg_bin2hex`. -/
def pgBin2hexAt (src dst : ℤ) (length : ℕ) (memory : Memory UInt8) :
    Option (ℤ × Memory UInt8) :=
  Bin2Hex.run ⟨.char, src, dst, length, memory⟩

/-- `pg_bin2whex`. -/
def pgBin2whexAt (src dst : ℤ) (length : ℕ) (memory : Memory UInt8) :
    Option (ℤ × Memory UInt8) :=
  Bin2Hex.run ⟨.sqlwchar, src, dst, length, memory⟩

/-! ## The expansion -/

/-- The hexadecimal text of bytes, as it is in memory. -/
def hexExpansion (type : HexType) (bs : List UInt8) : List UInt8 :=
  (bs.flatMap hexText).flatMap type.bytes

@[simp] theorem hexExpansion_nil (type : HexType) : hexExpansion type [] = [] := rfl

theorem hexExpansion_append (type : HexType) (bs cs : List UInt8) :
    hexExpansion type (bs ++ cs) = hexExpansion type bs ++ hexExpansion type cs := by
  rw [hexExpansion, List.flatMap_append, List.flatMap_append]
  rfl

theorem hexExpansion_singleton (type : HexType) (b : UInt8) :
    hexExpansion type [b] = type.bytes (highDigit b) ++ type.bytes (lowDigit b) := by
  simp [hexExpansion, hexText, highDigit, lowDigit]

theorem length_hexExpansion (type : HexType) (bs : List UInt8) :
    (hexExpansion type bs).length = 2 * bs.length * type.size := by
  induction bs with
  | nil => simp [hexExpansion]
  | cons b bs ih =>
    have hcons : b :: bs = [b] ++ bs := rfl
    rw [hcons, hexExpansion_append, List.length_append, ih, hexExpansion_singleton,
      List.length_append, HexType.length_bytes, HexType.length_bytes, List.length_append,
      List.length_singleton]
    ring

namespace Bin2Hex

variable (call : Bin2Hex)

/-- Either the text and its terminator are in the destination and nothing else has changed, or the
call is refused and the memory is intact. -/
def Right : Prop :=
  call.run = some (2 * (call.length : ℤ) * call.type.size,
      call.memory.write call.dst
        (hexExpansion call.type (call.memory.read call.src call.length) ++ call.type.bytes 0)) ∨
    call.run = some (-1, call.memory)

end Bin2Hex

/-! ## The loops -/

section

variable {type : HexType} {src dst : ℤ} {m : Memory UInt8}

/-- Forwards, where no byte is overwritten before it is read: the text of the first `i` bytes is
there. -/
theorem forwardsLoop_eq {left i : ℕ} (hmax : i + left ≤ bin2hexMax)
    (hunread : ∀ j < i + left, src + j < dst ∨ dst + 2 * j * type.size ≤ src + j) :
    forwardsLoop type left i (src + i) (dst + 2 * i * type.size)
        (m.write dst (hexExpansion type (m.read src i))) =
      some (m.write dst (hexExpansion type (m.read src (i + left)))) := by
  induction left generalizing i with
  | zero => rfl
  | succ left ih =>
    have hlength : ((hexExpansion type (m.read src i)).length : ℤ) = 2 * i * type.size := by
      rw [length_hexExpansion, Memory.length_read]
      push_cast
      ring
    have hread : m.write dst (hexExpansion type (m.read src i)) (src + i) = m (src + i) := by
      rcases hunread i (by omega) with hlt | hle
      · exact Memory.write_of_lt hlt
      · exact Memory.write_of_le (by rw [hlength]; exact hle)
    have hnext : ((m.write dst (hexExpansion type (m.read src i))).write
        (dst + 2 * i * type.size) (type.bytes (highDigit (m (src + i))))).write
        (dst + 2 * i * type.size + type.size) (type.bytes (lowDigit (m (src + i)))) =
        m.write dst (hexExpansion type (m.read src (i + 1))) := by
      have hhigh : dst + 2 * i * type.size + type.size =
          dst + (hexExpansion type (m.read src i) ++ type.bytes (highDigit (m (src + i)))).length := by
        rw [List.length_append, HexType.length_bytes, Nat.cast_add, hlength]
        ring
      rw [hhigh, ← hlength, Memory.write_append, Memory.write_append, List.append_assoc,
        ← hexExpansion_singleton, ← hexExpansion_append, ← Memory.read_succ]
    rw [forwardsLoop]
    rw [hread, hnext, if_neg (by omega), show i + (left + 1) = i + 1 + left by omega]
    have hsrc : src + i + 1 = src + (i + 1 : ℕ) := by push_cast; ring
    have hdst : dst + 2 * i * type.size + 2 * type.size = dst + 2 * (i + 1 : ℕ) * type.size := by
      push_cast
      ring
    rw [hsrc, hdst]
    exact ih (by omega) fun j hj ↦ hunread j (by omega)

/-- Backwards, where the destination is not in front of the source: the text of the last `done` bytes
is there. -/
theorem backwardsLoop_eq {left i done : ℕ} (hmax : i + left ≤ bin2hexMax) (hdst : src ≤ dst) :
    backwardsLoop type left i (src + left - 1) (dst + (2 * left - 1) * type.size)
        (m.write (dst + 2 * left * type.size) (hexExpansion type (m.read (src + left) done))) =
      some (m.write dst (hexExpansion type (m.read src (left + done)))) := by
  induction left generalizing i done with
  | zero => simp [backwardsLoop]
  | succ left ih =>
    have hsize : 1 ≤ type.size := by cases type <;> decide
    have hsrc : src + (left + 1 : ℕ) - 1 = src + left := by push_cast; ring
    have hle : (left : ℤ) ≤ left * type.size := by
      have := Nat.mul_le_mul_left left hsize
      rw [Nat.mul_one] at this
      exact_mod_cast this
    have hread : m.write (dst + 2 * (left + 1 : ℕ) * type.size)
        (hexExpansion type (m.read (src + (left + 1 : ℕ)) done)) (src + left) = m (src + left) := by
      refine Memory.write_of_lt ?_
      push_cast
      nlinarith
    have hnext : ((m.write (dst + 2 * (left + 1 : ℕ) * type.size)
        (hexExpansion type (m.read (src + (left + 1 : ℕ)) done))).write
        (dst + (2 * (left + 1 : ℕ) - 1) * type.size)
        (type.bytes (lowDigit (m (src + left))))).write
        (dst + (2 * (left + 1 : ℕ) - 1) * type.size - type.size)
        (type.bytes (highDigit (m (src + left)))) =
        m.write (dst + 2 * left * type.size)
          (hexExpansion type (m.read (src + left) (done + 1))) := by
      have hlow : dst + 2 * (left + 1 : ℕ) * type.size =
          dst + (2 * (left + 1 : ℕ) - 1) * type.size +
            (type.bytes (lowDigit (m (src + left)))).length := by
        rw [HexType.length_bytes]
        ring
      have hhigh : dst + (2 * (left + 1 : ℕ) - 1) * type.size =
          dst + 2 * left * type.size + (type.bytes (highDigit (m (src + left)))).length := by
        rw [HexType.length_bytes]
        push_cast
        ring
      have hplace : dst + 2 * left * type.size +
          (type.bytes (highDigit (m (src + left)))).length - type.size =
          dst + 2 * left * type.size := by
        rw [HexType.length_bytes]
        ring
      have hcons : m.read (src + left) (done + 1) =
          [m (src + left)] ++ m.read (src + (left + 1 : ℕ)) done := by
        rw [Memory.read_cons]
        push_cast
        rw [add_assoc]
        rfl
      rw [hlow, Memory.write_append_left, hhigh, hplace, Memory.write_append_left,
        ← List.append_assoc, ← hexExpansion_singleton, ← hexExpansion_append, hcons]
    rw [backwardsLoop]
    rw [hsrc, hread, hnext, if_neg (by omega), show left + 1 + done = left + (done + 1) by omega]
    have hplace : dst + (2 * (left + 1 : ℕ) - 1) * type.size - 2 * type.size =
        dst + (2 * left - 1) * type.size := by
      push_cast
      ring
    rw [hplace]
    exact ih (by omega)

/-- The `int` overflows in front of the last byte. -/
theorem forwardsLoop_overflow {left i : ℕ} (hi : i ≤ bin2hexMax) (hmax : bin2hexMax < i + left)
    (srcWk dstWk : ℤ) (m : Memory UInt8) : forwardsLoop type left i srcWk dstWk m = none := by
  induction left generalizing i srcWk dstWk m with
  | zero => exact absurd hmax (by omega)
  | succ left ih =>
    rw [forwardsLoop]
    by_cases hlast : i = bin2hexMax
    · rw [if_pos hlast]
    · rw [if_neg hlast]
      exact ih (by omega) (by omega) _ _ _

theorem backwardsLoop_overflow {left i : ℕ} (hi : i ≤ bin2hexMax) (hmax : bin2hexMax < i + left)
    (srcWk dstWk : ℤ) (m : Memory UInt8) : backwardsLoop type left i srcWk dstWk m = none := by
  induction left generalizing i srcWk dstWk m with
  | zero => exact absurd hmax (by omega)
  | succ left ih =>
    rw [backwardsLoop]
    by_cases hlast : i = bin2hexMax
    · rw [if_pos hlast]
    · rw [if_neg hlast]
      exact ih (by omega) (by omega) _ _ _

end

namespace Bin2Hex

variable (call : Bin2Hex)

/-! ## Any placement -/

/-- Where the call goes forwards, no byte of the source is overwritten before it is read. -/
theorem unread_of_forwards (hrefused : ¬ call.Refused) (hforwards : call.backwards = false) :
    ∀ j < call.length, call.src + j < call.dst ∨
      call.dst + 2 * j * call.type.size ≤ call.src + j := by
  intro j hj
  have hsize : 1 ≤ call.type.size := by cases call.type <;> decide
  have hbackwards : ¬ (¬ call.dst < call.src ∧ call.dst < call.src + call.length) :=
    of_decide_eq_false hforwards
  by_cases hfront : call.dst < call.src
  · -- the distance grows with each byte, and is enough for the last one
    right
    have hlast : call.dst + 2 * (call.length - 1) * call.type.size ≤ call.src + call.length - 1 :=
      not_lt.1 fun hlt ↦ hrefused ⟨hfront, hlt⟩
    have hrest : ((call.length : ℤ) - 1 - j) ≤ 2 * (call.length - 1 - j) * call.type.size := by
      have hnonneg : (0 : ℤ) ≤ call.length - 1 - j := by omega
      have hone : (1 : ℤ) ≤ call.type.size := by exact_mod_cast hsize
      nlinarith
    nlinarith
  · exact Or.inl (by omega)

/-- What the loops leave. -/
theorem run_eq (hrefused : ¬ call.Refused) (hmax : call.length ≤ bin2hexMax) :
    call.run = some (2 * (call.length : ℤ) * call.type.size,
      call.memory.write call.dst
        (hexExpansion call.type (call.memory.read call.src call.length) ++
          call.type.bytes 0)) := by
  have hloop : (if call.backwards then
      backwardsLoop call.type call.length 0 (call.src + call.length - 1)
        (call.dst + (2 * call.length - 1) * call.type.size) call.memory
      else forwardsLoop call.type call.length 0 call.src call.dst call.memory) =
      some (call.memory.write call.dst
        (hexExpansion call.type (call.memory.read call.src call.length))) := by
    cases hbackwards : call.backwards with
    | true =>
      rw [if_pos rfl]
      have hdst := of_decide_eq_true hbackwards
      have hrun : backwardsLoop call.type call.length 0 (call.src + call.length - 1)
          (call.dst + (2 * call.length - 1) * call.type.size)
          (call.memory.write (call.dst + 2 * call.length * call.type.size)
            (hexExpansion call.type (call.memory.read (call.src + call.length) 0))) = _ :=
        backwardsLoop_eq (by omega) (not_lt.1 hdst.1)
      rwa [Memory.read_zero, hexExpansion_nil, Memory.write_nil] at hrun
    | false =>
      rw [if_neg Bool.false_ne_true]
      have hrun : forwardsLoop call.type call.length 0 (call.src + (0 : ℕ))
          (call.dst + 2 * (0 : ℕ) * call.type.size)
          (call.memory.write call.dst (hexExpansion call.type (call.memory.read call.src 0))) = _ :=
        forwardsLoop_eq (by omega) fun j hj ↦
          call.unread_of_forwards hrefused hbackwards j (by omega)
      rwa [Memory.read_zero, hexExpansion_nil, Memory.write_nil, Nat.zero_add, Nat.cast_zero,
        mul_zero, zero_mul, add_zero, add_zero] at hrun
  have hlength : 2 * (call.length : ℤ) * call.type.size =
      (hexExpansion call.type (call.memory.read call.src call.length)).length := by
    rw [length_hexExpansion, Memory.length_read]
    push_cast
    ring
  rw [run, if_neg hrefused, hloop, Option.map_some, hlength, Memory.write_append]

/-- A string that is too long for an `int`. -/
theorem run_overflow (hrefused : ¬ call.Refused) (hmax : bin2hexMax < call.length) :
    call.run = none := by
  rw [run, if_neg hrefused]
  cases call.backwards with
  | true => rw [if_pos rfl, backwardsLoop_overflow (Nat.zero_le _) (by omega), Option.map_none]
  | false =>
    rw [if_neg Bool.false_ne_true, forwardsLoop_overflow (Nat.zero_le _) (by omega),
      Option.map_none]

/-- The encoding is right in any placement exactly if it is refused or the length fits an `int`. -/
theorem expansion_right_iff : call.Right ↔ call.Refused ∨ call.length ≤ bin2hexMax := by
  by_cases hrefused : call.Refused
  · exact iff_of_true (Or.inr (if_pos hrefused)) (Or.inl hrefused)
  · by_cases hmax : call.length ≤ bin2hexMax
    · exact iff_of_true (Or.inl (call.run_eq hrefused hmax)) (Or.inr hmax)
    · have hnone := call.run_overflow hrefused (by omega)
      refine iff_of_false ?_ (not_or.2 ⟨hrefused, hmax⟩)
      rintro (h | h)
      · exact Option.some_ne_none _ (h.symm.trans hnone)
      · exact Option.some_ne_none _ (h.symm.trans hnone)

/-- A source of 2^31 bytes behind which the destination lies. -/
theorem not_right_long :
    ¬ Right ⟨.char, 0, 0x100000000, 0x80000000, fun _ ↦ 0⟩ := by
  have hrefused : ¬ Refused ⟨.char, 0, 0x100000000, 0x80000000, fun _ ↦ 0⟩ := by decide
  have hnone := run_overflow _ hrefused (by decide)
  rintro (h | h)
  · exact Option.some_ne_none _ (h.symm.trans hnone)
  · exact Option.some_ne_none _ (h.symm.trans hnone)

end Bin2Hex

end PsqlOdbc
