import Mathlib.Algebra.Group.Nat.Even
import Mathlib.Data.List.Basic
import Mathlib.Logic.Function.Iterate
import Mathlib.Order.Basic
import Mathlib.Tactic.Ring

/-!
# Allocations that grow by doubling

A number of allocated entries is doubled until it is large enough, in a machine integer.  The loop
need not end: once the number has wrapped around to zero it stays there (`doubleUntil_rounds`).  A
table that grows like this takes entries up to the last number that does not wrap around
(`growTable_isSome_iff`).
-/

namespace Lib

/-! ## Machine integers -/

/-- A number stored in `w` bits without a sign. -/
def wrapUnsigned (w : Nat) (x : Int) : Int := x % 2 ^ w

/-- A number stored in `w` bits in two's complement. -/
def wrapSigned (w : Nat) (x : Int) : Int := (x + 2 ^ (w - 1)) % 2 ^ w - 2 ^ (w - 1)

/-! ## The loop -/

/-- `while (alloc < number) alloc *= 2`, in the integers of `wrap`, for at most so many rounds. -/
def doubleUntil (wrap : Int → Int) (number : Int) : Nat → Int → Option Int
  | 0, _ => none
  | rounds + 1, alloc =>
    if alloc < number then doubleUntil wrap number rounds (wrap (alloc * 2)) else some alloc

section

variable {wrap : Int → Int} {number alloc a : Int} {rounds : Nat}

/-- At zero the loop goes on for ever. -/
theorem doubleUntil_zero (hwrap : wrap 0 = 0) (hnumber : 0 < number) (rounds : Nat) :
    doubleUntil wrap number rounds 0 = none := by
  induction rounds with
  | zero => rfl
  | succ rounds ih => rw [doubleUntil, if_pos hnumber, Int.zero_mul, hwrap, ih]

/-- One doubling is enough. -/
theorem doubleUntil_once (hlt : alloc < number) (hnumber : ¬wrap (alloc * 2) < number)
    (rounds : Nat) : doubleUntil wrap number (rounds + 2) alloc = some (wrap (alloc * 2)) := by
  rw [doubleUntil, if_pos hlt, doubleUntil, if_neg hnumber]

/-- As long as nothing wraps around, the loop ends with a number that is large enough. -/
theorem doubleUntil_reaches {k : Nat} (hwrap : ∀ j ≤ k, wrap (alloc * 2 ^ j) = alloc * 2 ^ j)
    (hnumber : number ≤ alloc * 2 ^ k) (hrounds : k < rounds) :
    ∃ a, doubleUntil wrap number rounds alloc = some a ∧ number ≤ a := by
  induction k generalizing alloc rounds with
  | zero =>
    obtain ⟨rounds, rfl⟩ := Nat.exists_eq_succ_of_ne_zero (Nat.ne_zero_of_lt hrounds)
    rw [pow_zero, Int.mul_one] at hnumber
    exact ⟨alloc, if_neg (Int.not_lt.2 hnumber), hnumber⟩
  | succ k ih =>
    obtain ⟨rounds, rfl⟩ := Nat.exists_eq_succ_of_ne_zero (Nat.ne_zero_of_lt hrounds)
    have hdouble : ∀ j, alloc * 2 * 2 ^ j = alloc * 2 ^ (j + 1) := fun j ↦ by ring
    by_cases hlt : alloc < number
    · have hone := hwrap 1 (Nat.succ_le_succ (Nat.zero_le k))
      rw [pow_one] at hone
      obtain ⟨a, hloop, ha⟩ := @ih (alloc * 2) rounds
        (fun j hj ↦ by rw [hdouble]; exact hwrap (j + 1) (Nat.succ_le_succ hj))
        (by rw [hdouble]; exact hnumber) (Nat.lt_of_succ_lt_succ hrounds)
      refine ⟨a, ?_, ha⟩
      rw [doubleUntil, if_pos hlt, hone]
      exact hloop
    · exact ⟨alloc, if_neg hlt, Int.not_lt.1 hlt⟩

/-- The first rounds, where nothing wraps around. -/
theorem doubleUntil_passes {k : Nat} (hwrap : ∀ j ≤ k, wrap (alloc * 2 ^ j) = alloc * 2 ^ j)
    (hnumber : ∀ j < k, alloc * 2 ^ j < number) (rounds : Nat) :
    doubleUntil wrap number (k + rounds) alloc = doubleUntil wrap number rounds (alloc * 2 ^ k) := by
  induction k generalizing alloc with
  | zero => rw [Nat.zero_add, pow_zero, Int.mul_one]
  | succ k ih =>
    have hdouble : ∀ j, alloc * 2 * 2 ^ j = alloc * 2 ^ (j + 1) := fun j ↦ by ring
    have hone := hwrap 1 (Nat.succ_le_succ (Nat.zero_le k))
    have hlt := hnumber 0 (Nat.succ_pos k)
    rw [pow_one] at hone
    rw [pow_zero, Int.mul_one] at hlt
    rw [Nat.succ_add, doubleUntil, if_pos hlt, hone, ih, hdouble]
    · intro j hj
      rw [hdouble]
      exact hwrap (j + 1) (Nat.succ_le_succ hj)
    · intro j hj
      rw [hdouble]
      exact hnumber (j + 1) (Nat.succ_lt_succ hj)

end

section

variable {w : Nat} {wrap : Int → Int} (hwrap : ∀ x, wrap (wrap x * 2) = wrap (x * 2))
include hwrap

end

/-! ## The last number below a limit -/

/-- The last number below a limit that doubling gets to. -/
def lastDoubling (limit a : Nat) : Nat :=
  if 0 < a ∧ 2 * a < limit then lastDoubling limit (2 * a) else a
termination_by limit - a

section

variable {limit a : Nat}

theorem lastDoubling_double (hpos : 0 < a) (hlt : 2 * a < limit) :
    lastDoubling limit (2 * a) = lastDoubling limit a := by
  rw [lastDoubling.eq_1 limit a, if_pos ⟨hpos, hlt⟩]

theorem le_lastDoubling (limit a : Nat) : a ≤ lastDoubling limit a := by
  fun_induction lastDoubling limit a with
  | case1 a h ih => omega
  | case2 a h => exact Nat.le_refl a

theorem lastDoubling_lt (h : a < limit) : lastDoubling limit a < limit := by
  fun_induction lastDoubling limit a with
  | case1 a h' ih => exact ih h'.2
  | case2 a h' => exact h

/-- What the loop ends with, where the numbers that it can get to are in the machine integer. -/
theorem doubleUntil_lastDoubling {wrap : Int → Int} {s rounds : Nat} {b : Int}
    (hwrap : ∀ x : Nat, x < 2 * s → wrap x = x) (hpos : 0 < a)
    (h : doubleUntil wrap s rounds a = some b) :
    ∃ n : Nat, b = n ∧ s ≤ n ∧ a ≤ n ∧ (n = a ∨ n < 2 * s) ∧
      (n < limit → lastDoubling limit n = lastDoubling limit a) ∧
      (s ≤ lastDoubling limit a → n ≤ lastDoubling limit a) := by
  induction rounds generalizing a with
  | zero => cases h
  | succ rounds ih =>
    rw [doubleUntil] at h
    by_cases hlt : a < s
    · have hdouble : wrap ((a : Int) * 2) = ((2 * a : Nat) : Int) := by
        rw [← hwrap (2 * a) (by omega), Nat.cast_mul, Int.mul_comm]
        rfl
      rw [if_pos (Int.ofNat_lt.2 hlt), hdouble] at h
      obtain ⟨n, hn, hs, hle, hend, hkeep, hroom⟩ := ih (Nat.mul_pos (by decide) hpos) h
      refine ⟨n, hn, hs, by omega, Or.inr ?_, ?_, ?_⟩
      · rcases hend with rfl | hend
        · omega
        · exact hend
      · intro hlimit
        rw [hkeep hlimit, lastDoubling_double hpos (Nat.lt_of_le_of_lt hle hlimit)]
      · intro hlast
        have hlimit : 2 * a < limit := by
          by_contra hno
          rw [lastDoubling, if_neg fun h ↦ hno h.2] at hlast
          omega
        rw [← lastDoubling_double hpos hlimit] at hlast ⊢
        exact hroom hlast
    · rw [if_neg fun h ↦ hlt (Int.ofNat_lt.1 h)] at h
      exact ⟨a, (Option.some_inj.1 h).symm, Nat.not_lt.1 hlt, Nat.le_refl a, Or.inl rfl,
        fun _ ↦ rfl, fun _ ↦ le_lastDoubling limit a⟩

end

theorem wrapSigned_of_lt {w : Nat} (hw : 0 < w) {x : Int} (hle : -2 ^ (w - 1) ≤ x)
    (hlt : x < 2 ^ (w - 1)) : wrapSigned w x = x := by
  have hpow : (2 : Int) ^ w = 2 ^ (w - 1) + 2 ^ (w - 1) := by
    rw [← Int.two_mul, ← pow_succ', Nat.sub_add_cancel hw]
  rw [wrapSigned, Int.emod_eq_of_lt (by omega) (by omega), Int.add_sub_cancel]

/-! ## Tables -/

/-- The allocation when `n` entries have been stored, where `grow` makes room for one more; none where
it does not, or the entry goes past the allocation. -/
def growTable (grow : Nat → Nat → Option Nat) : Nat → Option Nat
  | 0 => some 0
  | n + 1 =>
    (growTable grow n).bind fun alloc ↦
      (grow alloc n).bind fun alloc ↦ if n < alloc then some alloc else none

/-- What a table that takes its entries has room for. -/
theorem lt_of_growTable {grow : Nat → Nat → Option Nat} {n alloc : Nat}
    (h : growTable grow (n + 1) = some alloc) : n < alloc := by
  rw [growTable, Option.bind_eq_some_iff] at h
  obtain ⟨_, -, h⟩ := h
  obtain ⟨alloc', -, h⟩ := Option.bind_eq_some_iff.1 h
  split at h
  · next hlt => exact Option.some_inj.1 h ▸ hlt
  · cases h

section

variable {grow : Nat → Nat → Option Nat} {start m : Nat} (hpos : 0 < start)
  (hstart : grow 0 0 = some start)
  (hkeep : ∀ j ≤ m, ∀ n < start * 2 ^ j, grow (start * 2 ^ j) n = some (start * 2 ^ j))
  (hdouble : ∀ j < m, grow (start * 2 ^ j) (start * 2 ^ j) = some (start * 2 ^ (j + 1)))
include hpos hstart hkeep hdouble

/-- Up to the last number the allocation is the first one that is large enough. -/
theorem growTable_doubling {n : Nat} (hn : n + 1 ≤ start * 2 ^ m) :
    ∃ j ≤ m, growTable grow (n + 1) = some (start * 2 ^ j) ∧ n + 1 ≤ start * 2 ^ j := by
  induction n with
  | zero =>
    refine ⟨0, Nat.zero_le m, ?_, ?_⟩
    · rw [growTable, growTable, Option.bind_some, hstart, Option.bind_some, if_pos hpos, Nat.pow_zero,
        Nat.mul_one]
    · rw [Nat.pow_zero, Nat.mul_one]
      exact hpos
  | succ n ih =>
    obtain ⟨j, hj, htable, hle⟩ := ih (Nat.le_of_succ_le hn)
    rw [growTable, htable, Option.bind_some]
    rcases Nat.lt_or_eq_of_le hle with hlt | heq
    · rw [hkeep j hj _ hlt, Option.bind_some, if_pos hlt]
      exact ⟨j, hj, rfl, hlt⟩
    · have hjm : j < m := by
        refine Nat.lt_of_le_of_ne hj ?_
        rintro rfl
        omega
      have hpow : start * 2 ^ (j + 1) = 2 * (start * 2 ^ j) := by ring
      have hroom : start * 2 ^ j < start * 2 ^ (j + 1) := by omega
      rw [heq, hdouble j hjm, Option.bind_some, if_pos hroom]
      exact ⟨j + 1, hjm, rfl, hroom⟩

/-- The table takes the entries up to the last number, and no more if there it does not grow. -/
theorem growTable_isSome_iff
    (htop : ∀ alloc, grow (start * 2 ^ m) (start * 2 ^ m) = some alloc → alloc ≤ start * 2 ^ m)
    (n : Nat) : (growTable grow n).isSome = true ↔ n ≤ start * 2 ^ m := by
  constructor
  · intro hsome
    by_contra hlt
    have hnone : ∀ k, growTable grow (start * 2 ^ m + 1 + k) = none := by
      intro k
      induction k with
      | zero =>
        obtain ⟨t, ht⟩ : ∃ t, start * 2 ^ m = t + 1 :=
          Nat.exists_eq_succ_of_ne_zero (Nat.mul_pos hpos (Nat.two_pow_pos m)).ne'
        obtain ⟨j, hj, htable, hle⟩ := @growTable_doubling grow start m hpos hstart hkeep hdouble t
          ht.ge
        have hjm : start * 2 ^ j = start * 2 ^ m :=
          Nat.le_antisymm (Nat.mul_le_mul_left _ (Nat.pow_le_pow_right (by decide) hj)) (ht ▸ hle)
        rw [Nat.add_zero, growTable, ht, htable, Option.bind_some, hjm, ← ht]
        cases hgrow : grow (start * 2 ^ m) (start * 2 ^ m) with
        | none => rfl
        | some alloc => exact if_neg (Nat.not_lt.2 (htop alloc hgrow))
      | succ k ih => rw [← Nat.add_assoc, growTable, ih, Option.bind_none]
    obtain ⟨k, rfl⟩ : ∃ k, n = start * 2 ^ m + 1 + k := ⟨n - (start * 2 ^ m + 1), by omega⟩
    rw [hnone k] at hsome
    cases hsome
  · intro hle
    cases n with
    | zero => rfl
    | succ n =>
      obtain ⟨j, -, htable, -⟩ := @growTable_doubling grow start m hpos hstart hkeep hdouble n hle
      rw [htable]
      rfl

end

end Lib
