import PsqlOdbc.Results.SideTables

/-!
# Growth of the tables of own changes (`results.c`)

How many entries the tables take before their allocations wrap around.
-/

namespace PsqlOdbc

open Lib

/-! ## The loops -/

section

variable {alloc number a : Int} {rounds : Nat} (hnumber : 0 < number)
include hnumber

end

/-! ## The tables -/

/-- Room for one more deleted row, updated row, entry of the log and added row. -/
def growDeleted (alloc n : Nat) : Option Nat := deletedAlloc (alloc ≠ 0) alloc n

def growUpdated (alloc n : Nat) : Option Nat := updatedAlloc alloc (n + 1)

def growRollback (alloc n : Nat) : Option Nat := rollbackAlloc (alloc ≠ 0) alloc n

def growAdded (alloc n : Nat) : Option Nat := addedAlloc alloc (n + 1)

/-- As entries are stored one after another the table grows each time it has to, and what is recorded
as allocated is a positive number that is not below their number. -/
def Takes (grow : Nat → Nat → Option Nat) (n : Nat) : Prop :=
  ∃ alloc, growTable grow n = some alloc ∧ n ≤ alloc ∧ (0 < n → 0 < alloc)

theorem takes_iff (grow : Nat → Nat → Option Nat) (n : Nat) :
    Takes grow n ↔ (growTable grow n).isSome = true := by
  rw [Option.isSome_iff_exists]
  constructor
  · rintro ⟨alloc, htable, -, -⟩
    exact ⟨alloc, htable⟩
  · rintro ⟨alloc, htable⟩
    cases n with
    | zero => exact ⟨alloc, htable, Nat.zero_le _, fun h ↦ absurd h (Nat.lt_irrefl 0)⟩
    | succ n =>
      have hlt := lt_of_growTable htable
      exact ⟨alloc, htable, hlt, fun _ ↦ Nat.zero_lt_of_lt hlt⟩

/-- Below the last doubling the number is at most so large. -/
theorem ten_mul_pow_le {j m : Nat} (h : j ≤ m) : 10 * 2 ^ j ≤ 10 * 2 ^ m ∧ 0 < 10 * 2 ^ j :=
  ⟨Nat.mul_le_mul_left 10 (Nat.pow_le_pow_right (by decide) h),
    Nat.mul_pos (by decide) (Nat.two_pow_pos j)⟩

theorem ten_mul_pow_succ (j : Nat) : 10 * 2 ^ (j + 1) = 2 * (10 * 2 ^ j) := by
  rw [Nat.pow_succ]
  omega

/-! ### Deleted rows -/

theorem deletedAlloc_keep {alloc count : Nat} (h : count < alloc) :
    deletedAlloc true alloc count = some alloc := by
  rw [deletedAlloc, if_neg (by decide), if_neg (by omega)]

theorem deletedAlloc_double {alloc : Nat} (hpos : 0 < alloc) (hle : alloc ≤ 10 * 2 ^ 10) :
    deletedAlloc true alloc alloc = some (2 * alloc) := by
  have hwrap : wrapSigned 16 ((alloc : Int) * 2) = (2 * alloc : Nat) := by
    rw [wrapSigned]
    omega
  rw [deletedAlloc, if_neg (by decide), if_pos (Nat.le_refl _), hwrap]
  dsimp only
  rw [if_neg (by omega), Int.toNat_natCast]

/-- Below 20480 entries there is room for one more. -/
theorem deletedAlloc_room {allocated : Bool} {alloc count : Nat}
    (halloc : allocated = true → ∃ j ≤ 11, alloc = 10 * 2 ^ j) (hcount : count ≤ alloc)
    (hnone : allocated = false → count = 0) (hlt : count < 20480) :
    ∃ j ≤ 11, deletedAlloc allocated alloc count = some (10 * 2 ^ j) ∧ count < 10 * 2 ^ j := by
  cases allocated with
  | false => exact ⟨0, by decide, rfl, by rw [hnone rfl]; decide⟩
  | true =>
    obtain ⟨j, hj, rfl⟩ := halloc rfl
    rcases Nat.lt_or_eq_of_le hcount with hroom | rfl
    · exact ⟨j, hj, deletedAlloc_keep hroom, hroom⟩
    · have hj' : j < 11 := by
        refine Nat.lt_of_le_of_ne hj ?_
        rintro rfl
        exact absurd hlt (by decide)
      obtain ⟨hle, hpos⟩ := ten_mul_pow_le (Nat.le_sub_one_of_lt hj')
      refine ⟨j + 1, hj', ?_, ?_⟩
      · rw [deletedAlloc_double hpos hle, ten_mul_pow_succ]
      · rw [ten_mul_pow_succ]
        omega

theorem takes_growDeleted (n : Nat) : Takes growDeleted n ↔ n ≤ 20480 := by
  rw [takes_iff]
  refine @growTable_isSome_iff growDeleted 10 11 (by decide) rfl ?_ ?_ ?_ n
  · intro j hj n hn
    rw [growDeleted, decide_eq_true (ten_mul_pow_le hj).2.ne', deletedAlloc_keep hn]
  · intro j hj
    obtain ⟨hle, hpos⟩ := ten_mul_pow_le (Nat.le_sub_one_of_lt hj)
    rw [growDeleted, decide_eq_true hpos.ne', deletedAlloc_double hpos hle, ten_mul_pow_succ]
  · intro alloc h
    have htop : growDeleted (10 * 2 ^ 11) (10 * 2 ^ 11) = none := by decide
    rw [htop] at h
    cases h

/-! ### Updated rows -/

theorem updatedAlloc_keep {alloc count : Nat} (hle : alloc ≤ 10 * 2 ^ 11) (h : count < alloc) :
    updatedAlloc alloc (count + 1) = some alloc := by
  have hwrap : wrapSigned 16 (alloc : Int) = alloc := by
    rw [wrapSigned]
    omega
  rw [updatedAlloc, if_neg (by omega), hwrap, doubleUntil, if_neg (by omega), Option.map_some,
    if_pos (Int.le_refl _)]

theorem updatedAlloc_double {alloc : Nat} (hpos : 0 < alloc) (hle : alloc ≤ 10 * 2 ^ 10) :
    updatedAlloc alloc (alloc + 1) = some (2 * alloc) := by
  have hwrap : wrapSigned 16 (alloc : Int) = alloc ∧
      wrapSigned 16 ((alloc : Int) * 2) = (2 * alloc : Nat) := by
    rw [wrapSigned, wrapSigned]
    omega
  rw [updatedAlloc, if_neg (by omega), hwrap.1, doubleUntil_once (by omega) (by rw [hwrap.2]; omega),
    hwrap.2, Option.map_some, if_neg (by omega), Int.toNat_natCast]

/-- Below 20480 entries there is room for one more. -/
theorem updatedAlloc_room {alloc count : Nat}
    (halloc : alloc = 0 ∨ ∃ j ≤ 11, alloc = 10 * 2 ^ j) (hcount : count ≤ alloc)
    (hlt : count < 20480) :
    ∃ j ≤ 11, updatedAlloc alloc (count + 1) = some (10 * 2 ^ j) ∧ count < 10 * 2 ^ j := by
  rcases halloc with rfl | ⟨j, hj, rfl⟩
  · obtain rfl := Nat.le_zero.1 hcount
    exact ⟨0, by decide, rfl, by decide⟩
  · rcases Nat.lt_or_eq_of_le hcount with hroom | rfl
    · exact ⟨j, hj, updatedAlloc_keep (ten_mul_pow_le hj).1 hroom, hroom⟩
    · have hj' : j < 11 := by
        refine Nat.lt_of_le_of_ne hj ?_
        rintro rfl
        exact absurd hlt (by decide)
      obtain ⟨hle, hpos⟩ := ten_mul_pow_le (Nat.le_sub_one_of_lt hj')
      refine ⟨j + 1, hj', ?_, ?_⟩
      · rw [updatedAlloc_double hpos hle, ten_mul_pow_succ]
      · rw [ten_mul_pow_succ]
        omega

theorem takes_growUpdated (n : Nat) : Takes growUpdated n ↔ n ≤ 20480 := by
  rw [takes_iff]
  refine @growTable_isSome_iff growUpdated 10 11 (by decide) rfl ?_ ?_ ?_ n
  · intro j hj n hn
    exact updatedAlloc_keep (ten_mul_pow_le hj).1 hn
  · intro j hj
    obtain ⟨hle, hpos⟩ := ten_mul_pow_le (Nat.le_sub_one_of_lt hj)
    rw [growUpdated, updatedAlloc_double hpos hle, ten_mul_pow_succ]
  · intro alloc h
    have htop : growUpdated (10 * 2 ^ 11) (10 * 2 ^ 11) = none := by decide
    rw [htop] at h
    cases h

/-! ### The log and added rows -/

theorem takes_growRollback (n : Nat) : Takes growRollback n ↔ n ≤ 40960 := by
  rw [takes_iff]
  refine @growTable_isSome_iff growRollback 10 12 (by decide) rfl ?_ ?_ ?_ n
  · intro j hj n hn
    obtain ⟨-, hpos⟩ := ten_mul_pow_le hj
    generalize 10 * 2 ^ j = alloc at *
    rw [growRollback, rollbackAlloc, decide_eq_true (by omega), if_neg (by decide), if_neg (by omega)]
  · intro j hj
    obtain ⟨hle, hpos⟩ := ten_mul_pow_le (Nat.le_sub_one_of_lt hj)
    rw [ten_mul_pow_succ]
    generalize 10 * 2 ^ j = alloc at *
    have hwrap : wrapUnsigned 16 ((alloc : Int) * 2) = (2 * alloc : Nat) := by
      rw [wrapUnsigned]
      omega
    rw [growRollback, rollbackAlloc, decide_eq_true (by omega), if_neg (by decide),
      if_pos (Nat.le_refl _), hwrap]
    dsimp only
    rw [if_neg (by omega), Int.toNat_natCast]
  · intro alloc h
    have htop : growRollback (10 * 2 ^ 12) (10 * 2 ^ 12) = some 16384 := by decide
    rw [htop, Option.some_inj] at h
    omega

theorem takes_growAdded (n : Nat) : Takes growAdded n ↔ n ≤ 2684354560 := by
  rw [takes_iff]
  refine @growTable_isSome_iff growAdded 10 28 (by decide) rfl ?_ ?_ ?_ n
  · intro j hj n hn
    obtain ⟨-, hpos⟩ := ten_mul_pow_le hj
    generalize 10 * 2 ^ j = alloc at *
    rw [growAdded, addedAlloc, if_neg (by omega), doubleUntil, if_neg (by omega), Option.map_some,
      if_pos (Int.le_refl _)]
  · intro j hj
    obtain ⟨hle, hpos⟩ := ten_mul_pow_le (Nat.le_sub_one_of_lt hj)
    rw [ten_mul_pow_succ]
    generalize 10 * 2 ^ j = alloc at *
    have hwrap : wrapUnsigned 32 ((alloc : Int) * 2) = (2 * alloc : Nat) := by
      rw [wrapUnsigned]
      omega
    rw [growAdded, addedAlloc, if_neg (by omega), doubleUntil_once (by omega) (by rw [hwrap]; omega),
      hwrap, Option.map_some, if_neg (by omega), Int.toNat_natCast]
  · intro alloc h
    have htop : growAdded (10 * 2 ^ 28) (10 * 2 ^ 28) = none := by decide
    rw [htop] at h
    cases h

/-! ## All of them -/

/-- Whatever is stored in a result. -/
def TablesGrow (deletes updates logged adds : Nat) : Prop :=
  Takes growDeleted deletes ∧ Takes growUpdated updates ∧ Takes growRollback logged ∧
    Takes growAdded adds

/-- The tables of deleted and updated rows grow up to 20480 entries, the log up to 40960, and the table
of added rows up to ten times the 28th power of two. -/
theorem tablesGrow_iff (deletes updates logged adds : Nat) :
    TablesGrow deletes updates logged adds ↔
      deletes ≤ 20480 ∧ updates ≤ 20480 ∧ logged ≤ 40960 ∧ adds ≤ 2684354560 :=
  and_congr (takes_growDeleted deletes) (and_congr (takes_growUpdated updates)
    (and_congr (takes_growRollback logged) (takes_growAdded adds)))

/-- The loop of `enlargeUpdated` does not end for the 20481st row. -/
theorem not_tablesGrow_updates : ¬TablesGrow 0 20481 0 0 := by
  rintro ⟨-, hupdates, -, -⟩
  exact absurd ((takes_growUpdated 20481).1 hupdates) (by decide)

end PsqlOdbc
