import Mathlib.Data.List.Count
import Mathlib.Data.List.Nodup
import Mathlib.Tactic.Linarith

/-!
# Selecting among numbered rows

The rows `0, …, n - 1` that satisfy a predicate, in order: where the `k`-th of them is
(`getElem?_rows`), and how many there are below a row when the predicate leaves out the
members of a list (`countBelow_notMem`).
-/

namespace Lib

/-- The rows below `n` with property `p`, in ascending order. -/
def rows (p : Int → Prop) [DecidablePred p] (n : Nat) : List Int :=
  ((List.range n).map Nat.cast).filter (fun i ↦ decide (p i))

section

variable (p : Int → Prop) [DecidablePred p]

/-- How many rows below `n` have property `p`. -/
def countBelow (n : Nat) : Nat := (rows p n).length

@[simp] theorem rows_zero : rows p 0 = [] := rfl

theorem rows_succ (n : Nat) : rows p (n + 1) = rows p n ++ if p n then [(n : Int)] else [] := by
  simp only [rows, List.range_succ, List.map_append, List.filter_append, List.map_cons,
    List.map_nil]
  congr 1
  by_cases h : p n <;> simp [h]

variable {p} in
theorem rows_congr {q : Int → Prop} [DecidablePred q] {n : Nat}
    (h : ∀ m : Nat, m < n → (p m ↔ q m)) : rows p n = rows q n := by
  induction n with
  | zero => rfl
  | succ n ih =>
    rw [rows_succ, rows_succ, ih fun m hm ↦ h m (Nat.lt_succ_of_lt hm)]
    simp only [h n (Nat.lt_succ_self n)]

@[simp] theorem countBelow_zero : countBelow p 0 = 0 := rfl

theorem countBelow_succ (n : Nat) :
    countBelow p (n + 1) = countBelow p n + if p n then 1 else 0 := by
  rw [countBelow, rows_succ, List.length_append, countBelow]
  by_cases h : p n <;> simp [h]

theorem countBelow_mono {m n : Nat} (h : m ≤ n) : countBelow p m ≤ countBelow p n := by
  induction h with
  | refl => exact Nat.le_refl _
  | step _ ih =>
    rw [countBelow_succ]
    omega

theorem countBelow_le (n : Nat) : countBelow p n ≤ n := by
  induction n with
  | zero => exact Nat.le_refl 0
  | succ n ih =>
    rw [countBelow_succ]
    split <;> omega

/-- A row with the property stands behind those below it. -/
theorem getElem?_rows {m n : Nat} (h : m < n) (hm : p m) :
    (rows p n)[countBelow p m]? = some (m : Int) := by
  induction n with
  | zero => omega
  | succ n ih =>
    rw [rows_succ]
    rcases Nat.lt_or_ge m n with hlt | hge
    · have hi := ih hlt
      rw [List.getElem?_append_left (List.getElem?_eq_some_iff.1 hi).1]
      exact hi
    · obtain rfl : m = n := by omega
      rw [countBelow, List.getElem?_append_right (Nat.le_refl _), if_pos hm, Nat.sub_self]
      rfl

/-- What stands at a position of the list: a row with the property and as many of them
below it. -/
theorem exists_of_getElem?_rows {n k : Nat} {i : Int} (h : (rows p n)[k]? = some i) :
    ∃ m : Nat, i = m ∧ m < n ∧ p m ∧ countBelow p m = k := by
  induction n with
  | zero => simp at h
  | succ n ih =>
    rw [rows_succ] at h
    rcases Nat.lt_or_ge k (rows p n).length with hlt | hge
    · rw [List.getElem?_append_left hlt] at h
      obtain ⟨m, hi, hm, hp⟩ := ih h
      exact ⟨m, hi, Nat.lt_succ_of_lt hm, hp⟩
    · rw [List.getElem?_append_right hge] at h
      by_cases hp : p n
      · rw [if_pos hp] at h
        have hk : k - (rows p n).length = 0 := by
          have := (List.getElem?_eq_some_iff.1 h).1
          simpa using this
        rw [hk] at h
        refine ⟨n, ?_, Nat.lt_succ_self n, hp, ?_⟩
        · simpa using h.symm
        · rw [countBelow]
          omega
      · rw [if_neg hp] at h
        simp at h

end

/-! ## Ranges -/

section

variable (p : Int → Prop) [DecidablePred p]

/-- From `a` on there are at most `n - a` rows below `n`. -/
theorem countBelow_from_le (a n : Nat) : countBelow (fun i ↦ (a : Int) ≤ i ∧ p i) n ≤ n - a := by
  induction n with
  | zero => simp
  | succ n ih =>
    rw [countBelow_succ]
    split
    · next h =>
      have : a ≤ n := by exact_mod_cast h.1
      omega
    · omega

/-- There are that many only if all rows from `a` on have the property. -/
theorem countBelow_from_eq_iff {a n : Nat} (h : a ≤ n) :
    countBelow (fun i ↦ (a : Int) ≤ i ∧ p i) n = n - a ↔ ∀ m : Nat, a ≤ m → m < n → p m := by
  induction n with
  | zero => simp
  | succ n ih =>
    rw [countBelow_succ]
    rcases Nat.lt_or_ge n a with hlt | hge
    · obtain rfl : a = n + 1 := by omega
      have hz := countBelow_from_le p (n + 1) n
      have hn : ¬(((n + 1 : Nat) : Int) ≤ n ∧ p n) := fun h ↦ by
        have := h.1
        push_cast at this
        omega
      rw [if_neg hn]
      exact ⟨fun _ m hm hm' ↦ absurd hm' (by omega), fun _ ↦ by omega⟩
    · have hle := countBelow_from_le p a n
      have hcast : (a : Int) ≤ n := by exact_mod_cast hge
      constructor
      · intro he m hm hm'
        by_cases hp : (a : Int) ≤ n ∧ p n
        · rw [if_pos hp] at he
          rcases Nat.lt_or_ge m n with hmn | hmn
          · exact (ih hge).1 (by omega) m hm hmn
          · obtain rfl : m = n := by omega
            exact hp.2
        · rw [if_neg hp] at he
          omega
      · intro hall
        rw [if_pos ⟨hcast, hall n hge (Nat.lt_succ_self n)⟩,
          (ih hge).2 fun m hm hm' ↦ hall m hm (Nat.lt_succ_of_lt hm')]
        omega

/-- Counting below `n` is counting below `m` and from there on. -/
theorem countBelow_add_from {m n : Nat} (h : m ≤ n) :
    countBelow p n = countBelow p m + countBelow (fun i ↦ (m : Int) ≤ i ∧ p i) n := by
  induction n with
  | zero =>
    obtain rfl : m = 0 := by omega
    rfl
  | succ n ih =>
    rcases Nat.lt_or_ge n m with hlt | hge
    · obtain rfl : m = n + 1 := by omega
      have hz := countBelow_from_le p (n + 1) (n + 1)
      omega
    · have hcast : (m : Int) ≤ n := by exact_mod_cast hge
      rw [countBelow_succ, countBelow_succ, ih hge]
      simp only [hcast, true_and]
      omega

/-- The rows up to a bound are those below the next one. -/
theorem rows_upTo (a : Int) (n : Nat) :
    rows (fun i ↦ i ≤ a ∧ p i) n = rows p (min n (a + 1).toNat) := by
  induction n with
  | zero => rw [Nat.zero_min, rows_zero, rows_zero]
  | succ n ih =>
    rw [rows_succ, ih]
    rcases Int.lt_or_le a n with hlt | hle
    · rw [if_neg (fun h ↦ absurd h.1 (by omega)), List.append_nil]
      congr 1
      omega
    · rw [show min (n + 1) (a + 1).toNat = n + 1 by omega,
        show min n (a + 1).toNat = n by omega, rows_succ]
      simp only [hle, true_and]

theorem countBelow_upTo (a : Int) (n : Nat) :
    countBelow (fun i ↦ i ≤ a ∧ p i) n = countBelow p (min n (a + 1).toNat) :=
  congrArg List.length (rows_upTo p a n)

end

/-! ## Leaving out the members of a list -/

/-- How many members of a list are below a number. -/
def countLt (ds : List Int) (a : Int) : Nat := ds.countP (fun d ↦ decide (d < a))

@[simp] theorem countLt_nil (a : Int) : countLt [] a = 0 := rfl

theorem countLt_cons (d : Int) (ds : List Int) (a : Int) :
    countLt (d :: ds) a = countLt ds a + if d < a then 1 else 0 := by
  simp only [countLt, List.countP_cons, decide_eq_true_eq]

theorem countLt_reverse (ds : List Int) (a : Int) : countLt ds.reverse a = countLt ds a :=
  List.countP_reverse

theorem countLt_le (ds : List Int) (a : Int) : countLt ds a ≤ ds.length :=
  List.countP_le_length

theorem countLt_eq_zero {ds : List Int} {a : Int} (h : ∀ d ∈ ds, a ≤ d) : countLt ds a = 0 := by
  rw [countLt, List.countP_eq_zero]
  intro d hd
  have := h d hd
  simp only [decide_eq_true_eq]
  omega

theorem countLt_eq_length {ds : List Int} {a : Int} (h : ∀ d ∈ ds, d < a) :
    countLt ds a = ds.length := by
  rw [countLt, List.countP_eq_length]
  intro d hd
  exact decide_eq_true (h d hd)

theorem countLt_mono (ds : List Int) {a b : Int} (h : a ≤ b) : countLt ds a ≤ countLt ds b := by
  apply List.countP_mono_left
  intro d _ hd
  simp only [decide_eq_true_eq] at hd ⊢
  omega

theorem countLt_succ {ds : List Int} (hd : ds.Nodup) (a : Int) :
    countLt ds (a + 1) = countLt ds a + if a ∈ ds then 1 else 0 := by
  induction ds with
  | nil => simp
  | cons d ds ih =>
    obtain ⟨hnot, hd⟩ := List.nodup_cons.1 hd
    rw [countLt_cons, countLt_cons, ih hd]
    by_cases hn : a = d
    · subst hn
      simp [hnot]
    · have hiff : d < a + 1 ↔ d < a := by omega
      simp only [hiff, List.mem_cons, hn, false_or]
      omega

/-- The rows below `n` are those in the list and those that are not. -/
theorem countBelow_notMem {ds : List Int} (hd : ds.Nodup) (h0 : ∀ d ∈ ds, 0 ≤ d) (n : Nat) :
    countBelow (fun i ↦ i ∉ ds) n + countLt ds n = n := by
  induction n with
  | zero => rw [countBelow_zero, Nat.cast_zero, countLt_eq_zero h0]
  | succ n ih =>
    rw [countBelow_succ, Nat.cast_succ, countLt_succ hd]
    by_cases hn : (n : Int) ∈ ds
    · rw [if_neg (not_not.2 hn), if_pos hn]
      omega
    · rw [if_pos hn, if_neg hn]
      omega

end Lib
