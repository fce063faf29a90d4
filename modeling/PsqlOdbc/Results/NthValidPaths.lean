import PsqlOdbc.Results.NthValid

/-!
# The three paths of `getNthValid` agree

What is left of the comparison with `nthValid`: the path over the keyset, and the
conditions of the three paths put together for a result that is well formed (`RowSet`).
-/

namespace PsqlOdbc

open Lib

/-! ## The path over the keyset -/

/-- The valid rows of a keyset whose entries are numbered from `i` on in steps of `step`. -/
def validRows (step : Int) : List KeySet → Int → List Int
  | [], _ => []
  | k :: ks, i =>
    if k.status.isDeleted then validRows step ks (i + step)
    else i :: validRows step ks (i + step)

theorem validRows_append (step : Int) (xs ys : List KeySet) (i : Int) :
    validRows step (xs ++ ys) i =
      validRows step xs i ++ validRows step ys (i + step * xs.length) := by
  induction xs generalizing i with
  | nil => simp [validRows]
  | cons x xs ih =>
    have hi : i + step + step * xs.length = i + step * (x :: xs).length := by
      rw [List.length_cons, Nat.cast_succ, Int.mul_add, Int.mul_one]
      omega
    rw [List.cons_append, validRows, validRows, ih, hi]
    split <;> rfl

/-- Going through a keyset from its end gives the rows the other way round. -/
theorem validRows_reverse (ks : List KeySet) (i : Int) :
    validRows (-1) ks.reverse (i + ks.length - 1) = (validRows 1 ks i).reverse := by
  induction ks generalizing i with
  | nil => rfl
  | cons k ks ih =>
    have hi : i + (k :: ks).length - 1 = i + 1 + ks.length - 1 := by
      rw [List.length_cons, Nat.cast_succ]
      omega
    have hi' : i + 1 + ks.length - 1 + -1 * (ks.reverse.length : Int) = i := by
      rw [List.length_reverse]
      omega
    rw [List.reverse_cons, validRows_append, hi, ih, hi', validRows, validRows, validRows]
    split
    · rw [List.append_nil]
    · rw [List.reverse_cons]

/-- The loop over the keyset takes the `nth` of the valid rows. -/
theorem scanKeyset_eq (nth : Nat) (step stop : Int) (ks : List KeySet) (i : Int) (count : Nat)
    (h : count < nth) :
    scanKeyset nth step stop ks i count =
      match (validRows step ks i)[nth - 1 - count]? with
      | some j => ((nth : Int), j)
      | none => (-(count + (validRows step ks i).length : Nat), stop) := by
  induction ks generalizing i count with
  | nil => rfl
  | cons k ks ih =>
    rw [scanKeyset, validRows]
    by_cases hk : k.status.isDeleted = true
    · rw [if_pos hk, if_pos hk]
      exact ih _ _ h
    · rw [if_neg hk, if_neg hk]
      by_cases hn : count + 1 = nth
      · have hz : nth - 1 - count = 0 := by omega
        rw [if_pos hn, hz]
        rfl
      · have hs : nth - 1 - count = nth - 1 - (count + 1) + 1 := by omega
        rw [if_neg hn, ih _ _ (by omega), hs, List.getElem?_cons_succ, List.length_cons,
          Nat.add_assoc, Nat.add_comm 1]

/-- A row of a keyset is valid when its entry does not say otherwise. -/
def keysetDeleted (keyset : List KeySet) (i : Int) : Bool :=
  match keyset[i.toNat]? with
  | some k => k.status.isDeleted
  | none => false

/-- The valid rows of a part of a keyset are the valid rows from its start on. -/
theorem validRows_drop_take (keyset : List KeySet) {a n : Nat} (h : a ≤ n)
    (hn : n ≤ keyset.length) :
    validRows 1 ((keyset.take n).drop a) a =
      rows (fromSta (fun i ↦ keysetDeleted keyset i = false) a) n := by
  induction n with
  | zero =>
    obtain rfl : a = 0 := by omega
    rfl
  | succ n ih =>
    rcases Nat.lt_or_ge n a with hlt | hge
    · obtain rfl : a = n + 1 := by omega
      have hz := countBelow_from_le (fun i ↦ keysetDeleted keyset i = false) (n + 1) (n + 1)
      rw [Nat.sub_self, Nat.le_zero, countBelow, List.length_eq_zero_iff] at hz
      rw [hz, List.drop_eq_nil_of_le (by rw [List.length_take]; omega)]
      rfl
    · have hlt : n < keyset.length := by omega
      have hle : a ≤ (keyset.take n).length := by
        rw [List.length_take]
        omega
      have hpos : (a : Int) + 1 * ((keyset.take n).drop a).length = n := by
        rw [List.length_drop, List.length_take]
        omega
      have hk : keysetDeleted keyset n = keyset[n].status.isDeleted := by
        rw [keysetDeleted, Int.toNat_natCast, List.getElem?_eq_getElem hlt]
      rw [List.take_succ_eq_append_getElem hlt, List.drop_append_of_le_length hle,
        validRows_append, ih hge (by omega), hpos, rows_succ, validRows, validRows]
      congr 1
      have hcast : (a : Int) ≤ n := by exact_mod_cast hge
      by_cases hd : keyset[n].status.isDeleted = true
      · rw [if_pos hd, if_neg fun h ↦ absurd (hk.symm.trans h.2) (by rw [hd]; decide)]
      · rw [if_neg hd, if_pos ⟨hcast, hk.trans (Bool.eq_false_iff.2 hd)⟩]

section

variable {keyset : List KeySet} {sta : Int} {nth : Nat}

/-- Forward, the search over the keyset is right unless it starts before its first entry. -/
theorem nthKeyset_next_iff (h1 : 1 ≤ nth) :
    nthKeyset keyset.length keyset sta nth .next =
        some (nthValid keyset.length (fun i ↦ keysetDeleted keyset i = false) sta nth .next) ↔
      0 ≤ sta := by
  rw [nthKeyset]
  rcases Int.lt_or_le sta 0 with hneg | hpos
  · rw [if_neg (by omega), if_pos (Or.inl hneg)]
    constructor
    · intro h
      cases h
    · omega
  · obtain ⟨a, rfl⟩ := Int.eq_ofNat_of_zero_le hpos
    refine iff_of_true ?_ hpos
    rcases Nat.lt_or_ge a keyset.length with hlt | hge
    · rw [if_neg (by omega), if_neg (by omega), scanKeyset_eq _ _ _ _ _ _ h1, Int.toNat_natCast,
        Int.toNat_natCast, validRows_drop_take keyset (by omega) (Nat.le_refl _), nthValid,
        Int.toNat_natCast, Nat.sub_zero, Nat.zero_add] <;> rfl
    · have hz : rows (fromSta (fun i ↦ keysetDeleted keyset i = false) a) keyset.length = [] := by
        have := countBelow_from_le (fun i ↦ keysetDeleted keyset i = false) a keyset.length
        rw [← List.length_eq_zero_iff]
        exact Nat.le_zero.1 (Nat.le_trans this (by omega))
      rw [if_pos (by omega), nthValid_next_none (by rw [Int.toNat_natCast, countBelow, hz]; exact h1),
        Int.toNat_natCast, countBelow, hz]
      rfl

/-- Backward, the search over the keyset is right unless it starts behind its last entry. -/
theorem nthKeyset_prior_iff (h1 : 1 ≤ nth) :
    nthKeyset keyset.length keyset sta nth .prior =
        some (nthValid keyset.length (fun i ↦ keysetDeleted keyset i = false) sta nth .prior) ↔
      sta < keyset.length := by
  rw [nthKeyset]
  rcases Int.lt_or_le sta 0 with hneg | hpos
  · have hz : countBelow (upToSta (fun i ↦ keysetDeleted keyset i = false) sta)
        keyset.length = 0 := by
      rw [countBelow_upTo, show min keyset.length (sta + 1).toNat = 0 by omega, countBelow_zero]
    rw [if_pos hneg, nthValid_prior_none (by rw [Int.toNat_natCast, hz]; exact h1),
      Int.toNat_natCast, hz]
    exact iff_of_true rfl (by omega)
  · rw [if_neg (by omega)]
    rcases Int.lt_or_le sta keyset.length with hlt | hge
    · obtain ⟨a, rfl⟩ := Int.eq_ofNat_of_zero_le hpos
      refine iff_of_true ?_ hlt
      have hrows := validRows_drop_take keyset (Nat.zero_le (a + 1)) (by omega)
      have hup : rows (fromSta (fun i ↦ keysetDeleted keyset i = false) (0 : Nat)) (a + 1) =
          rows (upToSta (fun i ↦ keysetDeleted keyset i = false) a) keyset.length := by
        rw [rows_upTo, show min keyset.length ((a : Int) + 1).toNat = a + 1 by omega]
        exact rows_congr fun m _ ↦ ⟨fun h ↦ h.2, fun h ↦ ⟨by omega, h⟩⟩
      have hrev := validRows_reverse (keyset.take (a + 1)) 0
      rw [List.length_take, Nat.min_eq_left (by omega), Nat.cast_succ,
        show (0 : Int) + (a + 1) - 1 = a by omega] at hrev
      rw [List.drop_zero, Nat.cast_zero] at hrows
      rw [if_neg (by omega), scanKeyset_eq _ _ _ _ _ _ h1, show ((a : Int) + 1).toNat = a + 1 by omega,
        hrev, hrows, ← Nat.cast_zero, hup, nthValid, Int.toNat_natCast, Nat.sub_zero, Nat.zero_add,
        List.length_reverse] <;> rfl
    · rw [if_pos hge]
      constructor
      · intro h
        cases h
      · omega

end

/-! ## All paths -/

/-- A result whose bookkeeping of rows is in order. -/
structure RowSet extends RowInfo where
  /-- The row counts leave room for arithmetic. -/
  total_lt : numTotalRead + adCount < 2 ^ 62
  /-- A cursor has as many entries in `deleted[]` as it has deleted rows, -/
  deleted_length : cursor = true → deleted.length = dlCount
  /-- in order, -/
  deleted_sorted : cursor = true → deleted.Pairwise (· < ·)
  /-- all of them rows of the result. -/
  deleted_mem : cursor = true → ∀ d ∈ deleted, 0 ≤ d ∧ d < toRowInfo.numTuples
  /-- Without a cursor all rows are read and have their keysets once one is deleted. -/
  keyset_length : cursor = false → dlCount ≠ 0 → toRowInfo.numTuples = keyset.length

/-- The row is deleted: a cursor has it in `deleted[]`, any other result in its status. -/
def RowInfo.isDeleted (res : RowInfo) (i : Int) : Bool :=
  if res.cursor then decide (i ∈ res.deleted) else keysetDeleted res.keyset i

/-- The row is not deleted. -/
abbrev RowInfo.valid (res : RowInfo) : Int → Prop := fun i ↦ res.isDeleted i = false

/-- When the search forward does what it is for. -/
def RowInfo.NextSound (res : RowInfo) (sta : Int) (nth : Nat) : Prop :=
  if res.dlCount = 0 then
    0 ≤ sta ∧ sta ≤ res.numTuples ∧ sta - 1 + nth < 2 ^ 63 ∧
      ∀ m : Nat, sta ≤ m → m < res.numTuples → (m : Int) < sta + nth → res.valid m
  else if res.cursor then
    0 ≤ sta ∧ sta ≤ res.numTuples ∧
      sta - 1 + nth + res.deleted.length < 2 ^ 63 + countLt res.deleted sta
  else 0 ≤ sta

/-- When the search backward does what it is for. -/
def RowInfo.PriorSound (res : RowInfo) (sta : Int) (nth : Nat) : Prop :=
  if res.dlCount = 0 then
    -1 ≤ sta ∧ sta < res.numTuples ∧ nth < 2 ^ 63 ∧
      ∀ m : Nat, m ≤ sta → sta < m + nth → res.valid m
  else if res.cursor then
    -1 ≤ sta ∧ sta < res.numTuples ∧
      nth + countLt res.deleted (sta + 1) ≤ 2 ^ 63 + (sta + 1)
  else sta < res.numTuples

/-- When `getNthValid` does what it is for. -/
def RowInfo.Sound (res : RowInfo) (sta : Int) (nth : Nat) : Orientation → Prop
  | .next => res.NextSound sta nth
  | .prior => res.PriorSound sta nth

namespace RowSet

variable (res : RowSet)

theorem exists_numTuples : ∃ N : Nat, N < 2 ^ 62 ∧ res.numTuples = N := by
  have h := res.total_lt
  rw [RowInfo.numTuples]
  split
  · exact ⟨res.numTotalRead + res.adCount, h, by push_cast; rfl⟩
  · exact ⟨2147483647, by norm_num, rfl⟩

theorem valid_of_cursor (h : res.cursor = true) : res.valid = fun i ↦ i ∉ res.deleted := by
  funext i
  rw [RowInfo.valid, RowInfo.isDeleted, if_pos h, decide_eq_false_iff_not]

theorem valid_of_keyset (h : res.cursor = false) :
    res.valid = fun i ↦ keysetDeleted res.keyset i = false := by
  funext i
  rw [RowInfo.valid, RowInfo.isDeleted, h]
  rfl

/-- Only the rows of the result matter to the naive search. -/
theorem nthValid_congr {numTuples : Int} {p q : Int → Prop} [DecidablePred p] [DecidablePred q]
    (h : ∀ i, 0 ≤ i → i < numTuples → (p i ↔ q i)) (sta : Int) (nth : Nat)
    (orientation : Orientation) :
    nthValid numTuples p sta nth orientation = nthValid numTuples q sta nth orientation := by
  have hrow : ∀ m : Nat, m < numTuples.toNat → (p m ↔ q m) := fun m hm ↦
    h m (Int.natCast_nonneg m) (by omega)
  cases orientation with
  | next =>
    have hf : rows (fun i ↦ sta ≤ i ∧ p i) numTuples.toNat =
        rows (fun i ↦ sta ≤ i ∧ q i) numTuples.toNat :=
      rows_congr fun m hm ↦ and_congr_right fun _ ↦ hrow m hm
    simp only [nthValid, hf]
  | prior =>
    have hf : rows (fun i ↦ i ≤ sta ∧ p i) numTuples.toNat =
        rows (fun i ↦ i ≤ sta ∧ q i) numTuples.toNat :=
      rows_congr fun m hm ↦ and_congr_right fun _ ↦ hrow m hm
    simp only [nthValid, hf]

variable {sta : Int} {nth : Nat}

theorem getNthValid_next_iff (hlo : -2 ^ 63 ≤ sta) (hhi : sta < 2 ^ 63) (h1 : 1 ≤ nth)
    (h2 : nth < 2 ^ 64) :
    getNthValid res.toRowInfo sta .next nth =
        some (nthValid res.numTuples res.valid sta nth .next) ↔
      res.NextSound sta nth := by
  obtain ⟨N, hN, he⟩ := res.exists_numTuples
  rw [getNthValid, RowInfo.NextSound]
  by_cases hd : res.dlCount = 0
  · rw [if_pos hd, if_pos hd, he, Option.some_inj, nthPlain_next_iff hN hlo hhi h1 h2]
    simp only [Nat.cast_lt]
  · rw [if_neg hd, if_neg hd]
    rcases hc : res.cursor with _ | _
    · have hl := res.keyset_length hc hd
      rw [if_neg Bool.false_ne_true, if_neg Bool.false_ne_true, hl]
      simp only [res.valid_of_keyset hc]
      exact nthKeyset_next_iff h1
    · rw [if_pos rfl, if_pos rfl, Option.some_inj]
      have hm := res.deleted_mem hc
      rw [he] at hm ⊢
      rw [← nthDeleted_next_iff hN hlo hhi h1 h2 (res.deleted_sorted hc) hm]
      simp only [res.valid_of_cursor hc]

theorem getNthValid_prior_iff (hlo : -2 ^ 63 ≤ sta) (hhi : sta < 2 ^ 63) (h1 : 1 ≤ nth)
    (h2 : nth < 2 ^ 64) :
    getNthValid res.toRowInfo sta .prior nth =
        some (nthValid res.numTuples res.valid sta nth .prior) ↔
      res.PriorSound sta nth := by
  obtain ⟨N, hN, he⟩ := res.exists_numTuples
  rw [getNthValid, RowInfo.PriorSound]
  by_cases hd : res.dlCount = 0
  · rw [if_pos hd, if_pos hd, he, Option.some_inj, nthPlain_prior_iff hN hlo hhi h1 h2]
  · rw [if_neg hd, if_neg hd]
    rcases hc : res.cursor with _ | _
    · have hl := res.keyset_length hc hd
      rw [if_neg Bool.false_ne_true, if_neg Bool.false_ne_true, hl]
      simp only [res.valid_of_keyset hc]
      exact nthKeyset_prior_iff h1
    · rw [if_pos rfl, if_pos rfl, Option.some_inj]
      have hm := res.deleted_mem hc
      rw [he] at hm ⊢
      rw [← nthDeleted_prior_iff hN hlo hhi h1 h2 (res.deleted_sorted hc) hm]
      simp only [res.valid_of_cursor hc]

/-- `getNthValid` finds the `nth` valid row exactly under the condition of its path; where
the conditions hold, two results with the same rows deleted give the same answer. -/
theorem getNthValid_iff (orientation : Orientation) (hlo : -2 ^ 63 ≤ sta) (hhi : sta < 2 ^ 63)
    (h1 : 1 ≤ nth) (h2 : nth < 2 ^ 64) :
    (getNthValid res.toRowInfo sta orientation nth =
        some (nthValid res.numTuples res.valid sta nth orientation) ↔
      res.Sound sta nth orientation) ∧
    ∀ res' : RowSet, res'.numTuples = res.numTuples →
      (∀ i, 0 ≤ i → i < res.numTuples → res'.isDeleted i = res.isDeleted i) →
      res.Sound sta nth orientation → res'.Sound sta nth orientation →
      getNthValid res'.toRowInfo sta orientation nth =
        getNthValid res.toRowInfo sta orientation nth := by
  have hiff : ∀ r : RowSet, getNthValid r.toRowInfo sta orientation nth =
      some (nthValid r.numTuples r.valid sta nth orientation) ↔ r.Sound sta nth orientation := by
    intro r
    cases orientation with
    | next => exact r.getNthValid_next_iff hlo hhi h1 h2
    | prior => exact r.getNthValid_prior_iff hlo hhi h1 h2
  refine ⟨hiff res, fun res' hn hd hs hs' ↦ ?_⟩
  rw [(hiff res).2 hs, (hiff res').2 hs', hn]
  congr 1
  exact nthValid_congr (fun i h0 hi ↦ by rw [RowInfo.valid, RowInfo.valid, hd i h0 hi]) _ _ _

/-- Three rows, none of them deleted. -/
def three : RowSet where
  numTotalRead := 3
  adCount := 0
  reachedEof := true
  cursor := false
  dlCount := 0
  deleted := []
  keyset := []
  total_lt := by norm_num
  deleted_length := by simp
  deleted_sorted := by simp
  deleted_mem := by simp
  keyset_length := by simp

theorem getNthValid_iff_three :
    (-2 ^ 63 ≤ (2 : Int) ∧ (2 : Int) < 2 ^ 63 ∧ 1 ≤ 2 ∧ 2 < 2 ^ 64) ∧
    ((getNthValid three.toRowInfo 2 .prior 2 =
        some (nthValid three.numTuples three.valid 2 2 .prior) ↔ three.Sound 2 2 .prior) ∧
      ∀ res' : RowSet, res'.numTuples = three.numTuples →
        (∀ i, 0 ≤ i → i < three.numTuples → res'.isDeleted i = three.isDeleted i) →
        three.Sound 2 2 .prior → res'.Sound 2 2 .prior →
        getNthValid res'.toRowInfo 2 .prior 2 = getNthValid three.toRowInfo 2 .prior 2) :=
  ⟨by norm_num, three.getNthValid_iff .prior (by norm_num) (by norm_num) (by norm_num)
    (by norm_num)⟩

/-- Backward from before the position in front of the first row, the count is off. -/
theorem getNthValid_before_first :
    getNthValid three.toRowInfo (-2) .prior 1 = some (1, -1) ∧
      nthValid three.numTuples three.valid (-2) 1 .prior = (0, -1) := by
  decide

end RowSet

end PsqlOdbc
