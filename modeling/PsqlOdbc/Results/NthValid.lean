import PsqlOdbc.Results.GetNthValid

/-!
# When `getNthValid` finds the `n`th row

`nthValid` is the definition `getNthValid` is an optimisation of.  The two agree exactly
when the search starts inside the result and its arithmetic stays within 64 bits; the path
without deletes has to be right about there being none (`getNthValid_eq_nthValid_iff`).
-/

namespace PsqlOdbc

open Lib

/-! ## The naive search -/

section

variable (numTuples : Int) (valid : Int → Prop) [DecidablePred valid] (sta : Int) (nth : Nat)

/-- The `nth` valid row from `sta` on in a direction: its number, or the negated number of
the valid rows there are and the position behind the last of them. -/
def nthValid : Orientation → Int × Int
  | .next =>
    let found := rows (fun i ↦ sta ≤ i ∧ valid i) numTuples.toNat
    match found[nth - 1]? with
    | some i => (nth, i)
    | none => (-(found.length : Int), numTuples)
  | .prior =>
    let found := (rows (fun i ↦ i ≤ sta ∧ valid i) numTuples.toNat).reverse
    match found[nth - 1]? with
    | some i => (nth, i)
    | none => (-(found.length : Int), -1)

/-- Valid rows from `sta` on. -/
abbrev fromSta : Int → Prop := fun i ↦ sta ≤ i ∧ valid i

/-- Valid rows up to `sta`. -/
abbrev upToSta : Int → Prop := fun i ↦ i ≤ sta ∧ valid i

variable {numTuples valid sta nth}

theorem nthValid_next_found {m : Nat} (hm : m < numTuples.toNat) (hs : sta ≤ m) (hv : valid m)
    (hc : countBelow (fromSta valid sta) m + 1 = nth) :
    nthValid numTuples valid sta nth .next = ((nth : Int), (m : Int)) := by
  have h := getElem?_rows (fromSta valid sta) hm ⟨hs, hv⟩
  obtain rfl : nth = countBelow (fromSta valid sta) m + 1 := hc.symm
  simp only [nthValid, Nat.add_sub_cancel, h]

theorem nthValid_next_none
    (h : countBelow (fromSta valid sta) numTuples.toNat < nth) :
    nthValid numTuples valid sta nth .next =
      (-(countBelow (fromSta valid sta) numTuples.toNat : Int), numTuples) := by
  have h' : (rows (fromSta valid sta) numTuples.toNat)[nth - 1]? = none :=
    List.getElem?_eq_none (by rw [countBelow] at h; omega)
  simp only [nthValid, h', countBelow]

theorem nthValid_prior_found {m : Nat} (hm : m < numTuples.toNat) (hs : m ≤ sta) (hv : valid m)
    (hc : countBelow (upToSta valid sta) m + nth =
      countBelow (upToSta valid sta) numTuples.toNat) :
    nthValid numTuples valid sta nth .prior = ((nth : Int), (m : Int)) := by
  have h := getElem?_rows (upToSta valid sta) hm ⟨hs, hv⟩
  have hlt := (List.getElem?_eq_some_iff.1 h).1
  have hn : nth ≠ 0 := by
    rintro rfl
    rw [Nat.add_zero] at hc
    rw [hc, countBelow] at hlt
    exact Nat.lt_irrefl _ hlt
  have hr : (rows (upToSta valid sta) numTuples.toNat).reverse[nth - 1]? = some (m : Int) := by
    rw [countBelow, countBelow] at hc
    rw [countBelow] at h hlt
    rw [List.getElem?_reverse (by omega), ← h]
    congr 1
    omega
  simp only [nthValid, hr]

theorem nthValid_prior_none
    (h : countBelow (upToSta valid sta) numTuples.toNat < nth) :
    nthValid numTuples valid sta nth .prior =
      (-(countBelow (upToSta valid sta) numTuples.toNat : Int), -1) := by
  have h' : (rows (upToSta valid sta) numTuples.toNat).reverse[nth - 1]? = none :=
    List.getElem?_eq_none (by rw [countBelow] at h; rw [List.length_reverse]; omega)
  simp only [nthValid, h', List.length_reverse, countBelow]

/-- The outcomes of a search forward. -/
theorem nthValid_next_cases (h1 : 1 ≤ nth) :
    (∃ m : Nat, nthValid numTuples valid sta nth .next = ((nth : Int), (m : Int)) ∧ m < numTuples.toNat ∧
      sta ≤ m ∧ valid m ∧ countBelow (fromSta valid sta) m + 1 = nth) ∨
    (nthValid numTuples valid sta nth .next =
        (-(countBelow (fromSta valid sta) numTuples.toNat : Int), numTuples) ∧
      countBelow (fromSta valid sta) numTuples.toNat < nth) := by
  rcases Nat.lt_or_ge (countBelow (fromSta valid sta) numTuples.toNat) nth with hlt | hge
  · exact Or.inr ⟨nthValid_next_none hlt, hlt⟩
  · rw [countBelow] at hge
    have hlt : nth - 1 < (rows (fromSta valid sta) numTuples.toNat).length := by omega
    obtain ⟨m, -, hm, ⟨hs, hv⟩, hc⟩ := exists_of_getElem?_rows _ (List.getElem?_eq_getElem hlt)
    have hc' : countBelow (fromSta valid sta) m + 1 = nth := by omega
    exact Or.inl ⟨m, nthValid_next_found hm hs hv hc', hm, hs, hv, hc'⟩

/-- The outcomes of a search backward. -/
theorem nthValid_prior_cases (h1 : 1 ≤ nth) :
    (∃ m : Nat, nthValid numTuples valid sta nth .prior = ((nth : Int), (m : Int)) ∧ m < numTuples.toNat ∧
      m ≤ sta ∧ valid m ∧ countBelow (upToSta valid sta) m + nth =
        countBelow (upToSta valid sta) numTuples.toNat) ∨
    (nthValid numTuples valid sta nth .prior =
        (-(countBelow (upToSta valid sta) numTuples.toNat : Int), -1) ∧
      countBelow (upToSta valid sta) numTuples.toNat < nth) := by
  rcases Nat.lt_or_ge (countBelow (upToSta valid sta) numTuples.toNat) nth with hlt | hge
  · exact Or.inr ⟨nthValid_prior_none hlt, hlt⟩
  · have hge' := hge
    rw [countBelow] at hge'
    have hlt : (rows (upToSta valid sta) numTuples.toNat).length - nth <
        (rows (upToSta valid sta) numTuples.toNat).length := by omega
    obtain ⟨m, -, hm, ⟨hs, hv⟩, hc⟩ := exists_of_getElem?_rows _ (List.getElem?_eq_getElem hlt)
    have hc' : countBelow (upToSta valid sta) m + nth =
        countBelow (upToSta valid sta) numTuples.toNat := by
      rw [hc, countBelow]
      omega
    exact Or.inl ⟨m, nthValid_prior_found hm hs hv hc', hm, hs, hv, hc'⟩

end

/-! ## The path without deletes -/

section

variable {N : Nat} {valid : Int → Prop} [DecidablePred valid] {sta : Int} {nth : Nat}

variable (valid) in
theorem countBelow_fromSta_le (a m : Nat) : countBelow (fromSta valid a) m ≤ m - a :=
  countBelow_from_le valid a m

variable (valid) in
theorem countBelow_fromSta_eq_iff {a m : Nat} (h : a ≤ m) :
    countBelow (fromSta valid a) m = m - a ↔ ∀ k : Nat, a ≤ k → k < m → valid k :=
  countBelow_from_eq_iff valid h

/-- Forward, the path without deletes is right when it starts inside the result and none
of the rows it passes is deleted. -/
theorem nthPlain_next_iff (hN : N < 2 ^ 62) (hlo : -2 ^ 63 ≤ sta) (hhi : sta < 2 ^ 63)
    (h1 : 1 ≤ nth) (h2 : nth < 2 ^ 64) :
    nthPlain N sta nth .next = nthValid N valid sta nth .next ↔
      0 ≤ sta ∧ sta ≤ N ∧ sta - 1 + nth < 2 ^ 63 ∧
        ∀ m : Nat, sta ≤ m → m < N → (m : Int) < sta + nth → valid m := by
  simp only [nthPlain]
  constructor
  · intro h
    rcases Int.lt_or_le sta 0 with hneg | hpos
    · -- Before the first row the count is off by the rows that do not exist.
      exfalso
      have hle := countBelow_le (fromSta valid sta)
      rcases @nthValid_next_cases N valid _ sta nth h1 with
        ⟨m, he, hm, hs, hv, hc⟩ | ⟨he, hlt⟩ <;> rw [he] at h <;> split at h <;>
        simp only [Prod.mk.injEq] at h
      · have := hle m
        unfold sqllen at h
        omega
      · omega
      · have := hle N
        omega
      · have := hle N
        simp only [Int.toNat_natCast] at h
        unfold sqllen at *
        omega
    · obtain ⟨a, rfl⟩ := Int.eq_ofNat_of_zero_le hpos
      have hle := countBelow_fromSta_le valid a
      rcases @nthValid_next_cases N valid _ a nth h1 with
        ⟨m, he, hm, hs, hv, hc⟩ | ⟨he, hlt⟩ <;> rw [he] at h <;> split at h <;>
        simp only [Prod.mk.injEq] at h
      · have hma := hle m
        have hnear : (a : Int) - 1 + nth = m := by
          unfold sqllen at h
          omega
        refine ⟨hpos, by omega, by omega, fun k hk _ hk' ↦ ?_⟩
        have hall := (countBelow_fromSta_eq_iff valid (show a ≤ m by omega)).1 (by omega)
        rcases Nat.lt_or_ge k m with hkm | hkm
        · exact hall k (by omega) hkm
        · obtain rfl : k = m := by omega
          exact hv
      · omega
      · omega
      · have hna := hle N
        simp only [Int.toNat_natCast] at h hlt
        have haN : a ≤ N := by
          unfold sqllen at h
          omega
        have hall := (countBelow_fromSta_eq_iff valid haN).1 (by unfold sqllen at h; omega)
        refine ⟨hpos, by omega, by unfold sqllen at *; omega, fun k hk hk' _ ↦ ?_⟩
        exact hall k (by omega) hk'
  · rintro ⟨hpos, hN', hover, hall⟩
    obtain ⟨a, rfl⟩ := Int.eq_ofNat_of_zero_le hpos
    rw [sqllen_of_mem (by omega) hover]
    split
    · next hlt =>
      obtain ⟨m, hm⟩ := Int.eq_ofNat_of_zero_le (show 0 ≤ (a : Int) - 1 + nth by omega)
      rw [nthValid_next_found (m := m) (by omega) (by omega)
        (hall m (by omega) (by omega) (by omega)), hm, sqllen_of_mem (by omega) (by omega)]
      have := (countBelow_fromSta_eq_iff valid (show a ≤ m by omega)).2 fun k hk hk' ↦
        hall k (by omega) (by omega) (by omega)
      omega
    · have := (countBelow_fromSta_eq_iff valid (show a ≤ N by omega)).2 fun k hk hk' ↦
        hall k (by omega) hk' (by omega)
      rw [nthValid_next_none (by simp only [Int.toNat_natCast]; omega)]
      simp only [Int.toNat_natCast, Prod.mk.injEq, and_true, this]
      unfold sqllen
      omega

variable (valid) in
/-- Going back from `sta`, there are at most as many rows as steps down to `m`. -/
theorem countBelow_upToSta_le {m : Nat} (hm : m ≤ (sta + 1).toNat) :
    countBelow (upToSta valid sta) N ≤
      countBelow (upToSta valid sta) m + (min N (sta + 1).toNat - m) := by
  rw [countBelow_upTo, countBelow_upTo, Nat.min_eq_left hm]
  rcases Nat.le_total m (min N (sta + 1).toNat) with h | h
  · rw [countBelow_add_from valid h]
    have := countBelow_from_le valid m (min N (sta + 1).toNat)
    omega
  · have := countBelow_mono valid h
    omega

variable (valid) in
/-- There are that many only if none of them is deleted. -/
theorem countBelow_upToSta_eq_iff {m : Nat} (hm : m ≤ min N (sta + 1).toNat) :
    countBelow (upToSta valid sta) N =
        countBelow (upToSta valid sta) m + (min N (sta + 1).toNat - m) ↔
      ∀ k : Nat, m ≤ k → k < min N (sta + 1).toNat → valid k := by
  rw [countBelow_upTo, countBelow_upTo, show min m (sta + 1).toNat = m by omega,
    countBelow_add_from valid hm, ← countBelow_from_eq_iff valid hm]
  omega

/-- Backward, the path without deletes is right when it starts inside the result (or just
before it) and none of the rows it passes is deleted. -/
theorem nthPlain_prior_iff (hN : N < 2 ^ 62) (hlo : -2 ^ 63 ≤ sta) (hhi : sta < 2 ^ 63)
    (h1 : 1 ≤ nth) (h2 : nth < 2 ^ 64) :
    nthPlain N sta nth .prior = nthValid N valid sta nth .prior ↔
      -1 ≤ sta ∧ sta < N ∧ nth < 2 ^ 63 ∧
        ∀ m : Nat, m ≤ sta → sta < m + nth → valid m := by
  simp only [nthPlain]
  constructor
  · intro h
    rcases @nthValid_prior_cases N valid _ sta nth h1 with
      ⟨m, he, hm, hs, hv, hc⟩ | ⟨he, hlt⟩ <;> rw [he] at h <;> split at h <;>
      simp only [Prod.mk.injEq] at h
    · rw [Int.toNat_natCast] at hm hc
      have hle := @countBelow_upToSta_le N valid _ sta m (by omega)
      have hsta : sta < N ∧ nth < 2 ^ 63 ∧ sta + 1 = m + nth := by
        unfold sqllen at h
        omega
      obtain ⟨hsN, hover, hnear⟩ := hsta
      refine ⟨by omega, hsN, hover, fun k hk hk' ↦ ?_⟩
      have hiff := @countBelow_upToSta_eq_iff N valid _ sta m (by omega)
      exact hiff.1 (by omega) k (by omega) (by omega)
    · omega
    · exfalso
      rw [Int.toNat_natCast] at h hlt
      have hle := @countBelow_upToSta_le N valid _ sta 0 (by omega)
      rw [countBelow_zero] at hle
      unfold sqllen at *
      omega
    · rw [Int.toNat_natCast] at h hlt
      have hle := @countBelow_upToSta_le N valid _ sta 0 (by omega)
      rw [countBelow_zero] at hle
      have hsta : -1 ≤ sta ∧ sta < N ∧ nth < 2 ^ 63 ∧
          (countBelow (upToSta valid sta) N : Int) = sta + 1 := by
        unfold sqllen at *
        omega
      obtain ⟨hs, hsN, hover, hcount⟩ := hsta
      refine ⟨hs, hsN, hover, fun k hk hk' ↦ ?_⟩
      have hiff := @countBelow_upToSta_eq_iff N valid _ sta 0 (by omega)
      rw [countBelow_zero] at hiff
      exact hiff.1 (by omega) k (by omega) (by omega)
  · rintro ⟨hs, hsN, hover, hall⟩
    rw [sqllen_of_mem (by omega) (show sta + 1 < 2 ^ 63 by omega),
      sqllen_of_mem (x := nth) (by omega) (by omega)]
    split
    · next hle =>
      obtain ⟨m, hm⟩ := Int.eq_ofNat_of_zero_le (show 0 ≤ sta + 1 - nth by omega)
      have hcount := (@countBelow_upToSta_eq_iff N valid _ sta m (by omega)).2 fun k hk hk' ↦
        hall k (by omega) (by omega)
      rw [nthValid_prior_found (m := m) (by omega) (by omega) (hall m (by omega) (by omega))
        (by rw [Int.toNat_natCast]; omega), hm, sqllen_of_mem (by omega) (by omega)]
    · have hcount := (@countBelow_upToSta_eq_iff N valid _ sta 0 (by omega)).2 fun k hk hk' ↦
        hall k (by omega) (by omega)
      rw [countBelow_zero] at hcount
      rw [nthValid_prior_none (by rw [Int.toNat_natCast]; omega), Int.toNat_natCast, hcount]
      simp only [Prod.mk.injEq, and_true]
      unfold sqllen
      omega

end

/-! ## The path over `deleted[]` -/

section

variable {N : Nat} {sta : Int} {nth : Nat} {ds : List Int}

/-- The loop forward, from `near` to `x`: one row further for each deleted row from `sta` on
that it passes. -/
theorem skipNext_spec (hs : ds.Pairwise (· < ·)) (i : Nat) (near del : Int)
    (hlo : -2 ^ 63 ≤ near) (hsta : sta ≤ near) (hdel : del ≤ i + ds.length)
    (hover : near + ds.length < 2 ^ 63 + countLt ds sta) :
    ∃ x δ, skipNext sta ds i (near, del) = (x, δ) ∧ near ≤ x ∧
      x + countLt ds sta = near + countLt ds x ∧ x ∉ ds ∧
      ∀ b ≤ x, (∀ d ∈ ds, d < b) → δ = min del (i + countLt ds sta) := by
  induction ds generalizing i near del with
  | nil =>
    refine ⟨near, del, rfl, Int.le_refl _, rfl, List.not_mem_nil, fun _ _ _ ↦ ?_⟩
    exact (Int.min_eq_left hdel).symm
  | cons d ds ih =>
    obtain ⟨hd, hs⟩ := List.pairwise_cons.1 hs
    have hle := countLt_le ds sta
    simp only [countLt_cons, List.length_cons] at hover hdel ⊢
    rw [skipNext]
    rcases Int.lt_or_le near d with hlt | hge
    · -- The loop stops: the other deleted rows are further on.
      rw [if_neg (by omega)]
      have hfar : ∀ d' ∈ ds, near ≤ d' := fun d' hd' ↦ by
        have := hd d' hd'
        omega
      refine ⟨near, del, rfl, Int.le_refl _, ?_, ?_, fun b hb h ↦ ?_⟩
      · rw [countLt_eq_zero hfar, countLt_eq_zero fun d' hd' ↦ Int.le_trans hsta (hfar d' hd'),
          if_neg (by omega), if_neg (by omega)]
      · rintro (_ | ⟨_, hmem⟩)
        · omega
        · have := hd near hmem
          omega
      · have := h d List.mem_cons_self
        omega
    · rw [if_pos hge]
      rcases Int.lt_or_le d sta with hb | hb
      · rw [if_neg (by omega)]
        rw [if_pos hb] at hover ⊢
        obtain ⟨x, δ, he, hx, hc, hmem, hδ⟩ := ih hs (i + 1) near del hlo hsta
          (by omega) (by omega)
        refine ⟨x, δ, he, hx, ?_, ?_, fun b hbx h ↦ ?_⟩
        · rw [if_pos (by omega)]
          omega
        · rintro (_ | ⟨_, h⟩)
          · omega
          · exact hmem h
        · rw [hδ b hbx fun d' hd' ↦ h d' (List.mem_cons_of_mem _ hd')]
          push_cast
          omega
      · have hz : countLt ds sta = 0 := countLt_eq_zero fun d' hd' ↦ by
          have := hd d' hd'
          omega
        rw [if_neg (by omega : ¬d < sta)] at hover ⊢
        rw [if_pos hb, sqllen_of_mem (by omega) (by omega)]
        obtain ⟨x, δ, he, hx, hc, hmem, hδ⟩ := ih hs (i + 1) (near + 1)
          (min del i) (by omega) (by omega) (by omega) (by omega)
        refine ⟨x, δ, he, by omega, ?_, ?_, fun b hbx h ↦ ?_⟩
        · rw [if_pos (by omega)]
          omega
        · rintro (_ | ⟨_, h⟩)
          · omega
          · exact hmem h
        · rw [hδ b hbx fun d' hd' ↦ h d' (List.mem_cons_of_mem _ hd'), hz]
          omega

/-- The loop forward stays where it is when it reaches no deleted row from `sta` on. -/
theorem skipNext_stay {near del : Int} (h : ∀ d ∈ ds, sta ≤ d → near < d) {i : Nat} :
    skipNext sta ds i (near, del) = (near, del) := by
  induction ds generalizing i with
  | nil => rfl
  | cons d ds ih =>
    have hd := h d List.mem_cons_self
    rw [skipNext]
    split
    · rw [if_neg (by omega), ih fun d' hd' ↦ h d' (List.mem_cons_of_mem _ hd')]
    · rfl

/-- Forward, the position overflows when there are too many rows to pass. -/
theorem skipNext_overflow (hs : ds.Pairwise (· < ·)) (hmem : ∀ d ∈ ds, 0 ≤ d ∧ d < 2 ^ 62)
    (i : Nat) (near del : Int) (hlo : -2 ^ 63 ≤ near) (hhi : near < 2 ^ 63)
    (hlen : ds.length < 2 ^ 62) (hover : 2 ^ 63 + countLt ds sta ≤ near + ds.length) :
    (skipNext sta ds i (near, del)).1 < 0 := by
  induction ds generalizing i near del with
  | nil =>
    simp only [countLt_nil, List.length_nil] at hover
    omega
  | cons d ds ih =>
    obtain ⟨hd, hs⟩ := List.pairwise_cons.1 hs
    have hmem' : ∀ d ∈ ds, 0 ≤ d ∧ d < 2 ^ 62 := fun d' hd' ↦ hmem d' (List.mem_cons_of_mem _ hd')
    have hbound := hmem d List.mem_cons_self
    simp only [countLt_cons, List.length_cons] at hover hlen
    rw [skipNext, if_pos (by omega)]
    rcases Int.lt_or_le d sta with hb | hb
    · rw [if_neg (by omega)]
      rw [if_pos hb] at hover
      exact ih hs hmem' _ _ _ hlo hhi (by omega) (by omega)
    · rw [if_pos hb]
      rw [if_neg (by omega)] at hover
      rcases Int.lt_or_le (near + 1) (2 ^ 63) with hin | hout
      · rw [sqllen_of_mem (by omega) hin]
        exact ih hs hmem' _ _ _ (by omega) hin (by omega) (by omega)
      · have hwrap : sqllen (near + 1) < 0 := by
          unfold sqllen
          omega
        rw [skipNext_stay fun d' hd' _ ↦ by have := hmem' d' hd'; omega]
        exact hwrap

/-- The valid rows from `sta` on and the deleted ones. -/
theorem countBelow_fromSta_notMem (hnd : ds.Nodup) (h0 : ∀ d ∈ ds, 0 ≤ d) {m : Nat}
    (hm : sta ≤ m) :
    countBelow (fromSta (fun i ↦ i ∉ ds) sta) m + countLt ds m + sta.toNat =
      m + countLt ds sta := by
  induction m with
  | zero =>
    rw [Nat.cast_zero] at hm ⊢
    rw [countBelow_zero, countLt_eq_zero fun d hd ↦ Int.le_trans hm (h0 d hd),
      countLt_eq_zero h0]
    omega
  | succ m ih =>
    rw [Nat.cast_succ] at hm
    rw [countBelow_succ, Nat.cast_succ, countLt_succ hnd]
    rcases Int.lt_or_le m sta with hlt | hle
    · obtain rfl : sta = m + 1 := by omega
      have hz := countBelow_fromSta_le (fun i ↦ i ∉ ds) (m + 1) m
      rw [Nat.cast_succ] at hz
      rw [if_neg (fun h ↦ absurd h.1 (by omega)), countLt_succ hnd]
      omega
    · have hih := ih hle
      by_cases hmem : (m : Int) ∈ ds
      · rw [if_neg fun h ↦ h.2 hmem, if_pos hmem]
        omega
      · rw [if_pos ⟨hle, hmem⟩, if_neg hmem]
        omega

/-- Forward, the search over `deleted[]` is right when it starts inside the result and its
position does not overflow. -/
theorem nthDeleted_next_iff (hN : N < 2 ^ 62) (hlo : -2 ^ 63 ≤ sta) (hhi : sta < 2 ^ 63)
    (h1 : 1 ≤ nth) (h2 : nth < 2 ^ 64) (hs : ds.Pairwise (· < ·))
    (hmem : ∀ d ∈ ds, 0 ≤ d ∧ d < N) :
    nthDeleted N ds sta nth .next = nthValid N (fun i ↦ i ∉ ds) sta nth .next ↔
      0 ≤ sta ∧ sta ≤ N ∧ sta - 1 + nth + ds.length < 2 ^ 63 + countLt ds sta := by
  have hnd : ds.Nodup := hs.imp fun h ↦ Int.ne_of_lt h
  have h0 : ∀ d ∈ ds, 0 ≤ d := fun d hd ↦ (hmem d hd).1
  have hcount : ∀ m : Nat, sta ≤ m → _ := fun m hm ↦ countBelow_fromSta_notMem hnd h0 hm
  have hall : ∀ x : Int, N ≤ x → countLt ds x = ds.length := fun x hx ↦
    countLt_eq_length fun d hd ↦ Int.lt_of_lt_of_le (hmem d hd).2 hx
  have hlen : ds.length ≤ N := by
    have := countBelow_notMem hnd h0 N
    rw [hall N (Int.le_refl _)] at this
    omega
  have hle := countLt_le ds sta
  constructor
  · intro h
    rcases Int.lt_or_le (sqllen (sta - 1 + nth)) (max sta 0) with hback | hnear
    · -- Wrapped around, or still before the first row: the search does not move.
      exfalso
      rw [nthDeleted, skipNext_stay fun d hd hsd ↦ by have := h0 d hd; omega] at h
      rcases @nthValid_next_cases N (fun i ↦ i ∉ ds) _ sta nth h1 with
        ⟨m, he, hm, hsm, hv, hc⟩ | ⟨he, hlt⟩ <;> rw [he] at h <;> simp only at h <;>
        split at h <;> simp only [Prod.mk.injEq] at h <;> obtain ⟨hr, hx⟩ := h
      · clear hr
        omega
      · clear hr
        omega
      · next hge =>
        rw [Int.add_sub_cancel, sqllen_of_mem (by omega) (by omega)] at hr
        omega
      · clear hr
        omega
    · have hstart : sqllen (sta - 1 + nth) = sta - 1 + nth := by
        have := sqllen_lt (sta - 1 + nth)
        exact sqllen_eq_self (by omega) (by omega)
      have hhi' := sqllen_lt (sta - 1 + nth)
      have hlo' := le_sqllen (sta - 1 + nth)
      rw [hstart] at hnear hhi' hlo'
      rw [nthDeleted, hstart] at h
      rcases Int.lt_or_le (sta - 1 + nth + ds.length) (2 ^ 63 + countLt ds sta) with hin | hout
      · obtain ⟨x, δ, he, hx, hc, -, hδ⟩ := skipNext_spec hs 0 _ ds.length hlo'
          (by omega) (by omega) hin
        rw [he] at h
        rcases @nthValid_next_cases N (fun i ↦ i ∉ ds) _ sta nth h1 with
          ⟨m, he, hm, hsm, hv, hcm⟩ | ⟨he, hlt⟩ <;> rw [he] at h <;> simp only at h <;>
          split at h <;> simp only [Prod.mk.injEq] at h <;> obtain ⟨hr, hxm⟩ := h
        · clear hr
          omega
        · have hcm' := hcount m hsm
          clear hr
          rw [hxm] at hc
          exact ⟨by omega, by omega, hin⟩
        · next hge =>
          have hδ' := hδ N hge fun d hd ↦ (hmem d hd).2
          rw [Int.toNat_natCast] at hr hlt
          rw [sqllen_eq_self (by omega) (by omega)] at hr
          have hNN := hall N (Int.le_refl _)
          rcases Int.lt_or_le N sta with hout | hsN
          · rw [hall sta (Int.le_of_lt hout)] at hδ'
            omega
          · have := hcount N hsN
            exact ⟨by omega, hsN, hin⟩
        · clear hr
          omega
      · exfalso
        have hover := skipNext_overflow hs (fun d hd ↦ by have := hmem d hd; omega) 0 _
          ds.length hlo' hhi' (by omega) hout
        rcases he : skipNext sta ds 0 (sta - 1 + nth, ds.length) with ⟨x, δ⟩
        rw [he] at h hover
        simp only at h hover
        rw [if_neg (by omega)] at h
        rcases @nthValid_next_cases N (fun i ↦ i ∉ ds) _ sta nth h1 with
          ⟨m, he, hm, hsm, hv, hcm⟩ | ⟨he, hlt⟩ <;> rw [he] at h <;>
          simp only [Prod.mk.injEq] at h <;> obtain ⟨-, h⟩ := h <;> omega
  · rintro ⟨hpos, hleN, hover⟩
    obtain ⟨x, δ, he, hx, hc, hxm, hδ⟩ := skipNext_spec hs 0 (sta - 1 + nth)
      ds.length (by omega) (by omega) (by omega) hover
    rw [nthDeleted, sqllen_of_mem (by omega) (by omega), he]
    simp only
    split
    · next hge =>
      have hcN := hcount N hleN
      have hNx := hall x hge
      have hNN := hall N (Int.le_refl _)
      have hδ' := hδ N hge fun d hd ↦ (hmem d hd).2
      rw [nthValid_next_none (by rw [Int.toNat_natCast]; omega), Int.toNat_natCast,
        sqllen_of_mem (by omega) (by omega), Prod.mk.injEq]
      exact ⟨by omega, rfl⟩
    · next hlt =>
      obtain ⟨m, rfl⟩ := Int.eq_ofNat_of_zero_le (show 0 ≤ x by omega)
      have hcm := hcount m (by omega)
      rw [nthValid_next_found (m := m) (by omega) (by omega) hxm (by omega),
        sqllen_of_mem (by omega) (by omega)]

/-- The loop backward, from `near` to `x`. -/
theorem skipPrior_spec (hs : ds.Pairwise (· > ·)) (near del : Int)
    (hhi : near < 2 ^ 63) (hsta : near ≤ sta) (hdel : -1 ≤ del)
    (hover : countLt ds (sta + 1) ≤ 2 ^ 63 + near) :
    ∃ x δ, skipPrior sta ds ds.length (near, del) = (x, δ) ∧ x ≤ near ∧
      x + countLt ds (sta + 1) = near + countLt ds x ∧ x ∉ ds ∧
      ∀ b > x, (∀ d ∈ ds, b ≤ d) → δ = max del (countLt ds (sta + 1) - 1) := by
  induction ds generalizing near del with
  | nil =>
    refine ⟨near, del, rfl, Int.le_refl _, rfl, List.not_mem_nil, fun _ _ _ ↦ ?_⟩
    exact (Int.max_eq_left hdel).symm
  | cons d ds ih =>
    obtain ⟨hd, hs⟩ := List.pairwise_cons.1 hs
    simp only [countLt_cons, List.length_cons] at hover ⊢
    rw [skipPrior, Nat.add_sub_cancel]
    rcases Int.lt_or_le d near with hlt | hge
    · -- The loop stops: the other deleted rows are further back.
      rw [if_neg (by omega)]
      have hfar : ∀ d' ∈ ds, d' < near := fun d' hd' ↦ by
        have := hd d' hd'
        omega
      refine ⟨near, del, rfl, Int.le_refl _, ?_, ?_, fun b hbx h ↦ ?_⟩
      · rw [countLt_eq_length hfar, countLt_eq_length fun d' hd' ↦ by
          have := hfar d' hd'
          omega, if_pos hlt, if_pos (by omega)]
      · rintro (_ | ⟨_, hmem⟩)
        · omega
        · have := hd near hmem
          omega
      · have := h d List.mem_cons_self
        omega
    · rw [if_pos hge]
      rcases Int.lt_or_le sta d with hb | hb
      · rw [if_neg (by omega)]
        rw [if_neg (by omega)] at hover ⊢
        obtain ⟨x, δ, he, hx, hc, hmem, hδ⟩ := ih hs near del hhi hsta hdel hover
        refine ⟨x, δ, he, hx, ?_, ?_, fun b hbx h ↦ ?_⟩
        · rw [if_neg (by omega)]
          omega
        · rintro (_ | ⟨_, h⟩)
          · omega
          · exact hmem h
        · exact hδ b hbx fun d' hd' ↦ h d' (List.mem_cons_of_mem _ hd')
      · have hl : countLt ds (sta + 1) = ds.length := countLt_eq_length fun d' hd' ↦ by
          have := hd d' hd'
          omega
        rw [if_pos (by omega : d < sta + 1)] at hover ⊢
        rw [if_pos hb, sqllen_of_mem (by omega) (by omega)]
        obtain ⟨x, δ, he, hx, hc, hmem, hδ⟩ := ih hs (near - 1)
          (max del ds.length) (by omega) (by omega) (by omega) (by omega)
        refine ⟨x, δ, he, by omega, ?_, ?_, fun b hbx h ↦ ?_⟩
        · rw [if_neg (by omega)]
          omega
        · rintro (_ | ⟨_, h⟩)
          · omega
          · exact hmem h
        · rw [hδ b hbx fun d' hd' ↦ h d' (List.mem_cons_of_mem _ hd'), hl]
          push_cast
          omega

/-- The loop backward stays where it is when it reaches no deleted row up to `sta`. -/
theorem skipPrior_stay {near del : Int} (h : ∀ d ∈ ds, d ≤ sta → d < near) {i : Nat} :
    skipPrior sta ds i (near, del) = (near, del) := by
  induction ds generalizing i with
  | nil => rfl
  | cons d ds ih =>
    have hd := h d List.mem_cons_self
    rw [skipPrior]
    split
    · rw [if_neg (by omega), ih fun d' hd' ↦ h d' (List.mem_cons_of_mem _ hd')]
    · rfl

/-- Backward, the position overflows when there are too many rows to pass. -/
theorem skipPrior_overflow (hmem : ∀ d ∈ ds, 0 ≤ d ∧ d < N) (hN : N < 2 ^ 62) (i : Nat)
    (near del : Int) (hlo : -2 ^ 63 ≤ near) (hlen : ds.length < 2 ^ 62)
    (hover : 2 ^ 63 + near < countLt ds (sta + 1)) :
    N ≤ (skipPrior sta ds i (near, del)).1 := by
  induction ds generalizing i near del with
  | nil =>
    simp only [countLt_nil] at hover
    omega
  | cons d ds ih =>
    have hmem' : ∀ d ∈ ds, 0 ≤ d ∧ d < (N : Int) :=
      fun d' hd' ↦ hmem d' (List.mem_cons_of_mem _ hd')
    have hbound := hmem d List.mem_cons_self
    have hle := countLt_le ds (sta + 1)
    simp only [countLt_cons, List.length_cons] at hover hlen
    rw [skipPrior, if_pos (by split at hover <;> omega)]
    rcases Int.lt_or_le sta d with hb | hb
    · rw [if_neg (by omega)]
      rw [if_neg (by omega)] at hover
      exact ih hmem' _ _ _ hlo (by omega) hover
    · rw [if_pos hb]
      rw [if_pos (by omega)] at hover
      rcases Int.lt_or_le (near - 1) (-2 ^ 63) with hout | hin
      · have hwrap : (N : Int) ≤ sqllen (near - 1) := by
          unfold sqllen
          omega
        rw [skipPrior_stay fun d' hd' _ ↦ by have := hmem' d' hd'; omega]
        exact hwrap
      · rw [sqllen_of_mem hin (by omega)]
        exact ih hmem' _ _ _ hin (by omega) (by omega)

/-- The valid rows up to `sta` and the deleted ones, below a row it reaches. -/
theorem countBelow_upToSta_notMem (hnd : ds.Nodup) (h0 : ∀ d ∈ ds, 0 ≤ d) {m : Nat}
    (hm : m ≤ sta + 1) :
    countBelow (upToSta (fun i ↦ i ∉ ds) sta) m + countLt ds m = m := by
  rw [countBelow_upTo, show min m (sta + 1).toNat = m by omega]
  exact countBelow_notMem hnd h0 m

/-- The valid rows up to `sta` and the deleted ones, below a row it does not reach. -/
theorem countBelow_upToSta_notMem' (hnd : ds.Nodup) (h0 : ∀ d ∈ ds, 0 ≤ d) {m : Nat}
    (hm : sta + 1 ≤ m) :
    countBelow (upToSta (fun i ↦ i ∉ ds) sta) m + countLt ds (sta + 1) = (sta + 1).toNat := by
  rw [countBelow_upTo, show min m (sta + 1).toNat = (sta + 1).toNat by omega]
  have hcount := countBelow_notMem hnd h0 (sta + 1).toNat
  rcases Int.lt_or_le (sta + 1) 0 with hneg | hpos
  · rw [countLt_eq_zero fun d hd ↦ by have := h0 d hd; omega]
    omega
  · rw [Int.toNat_of_nonneg hpos] at hcount
    exact hcount

/-- Backward, the search over `deleted[]` is right when it starts inside the result (or just
before it) and its position does not overflow. -/
theorem nthDeleted_prior_iff (hN : N < 2 ^ 62) (hlo : -2 ^ 63 ≤ sta) (hhi : sta < 2 ^ 63)
    (h1 : 1 ≤ nth) (h2 : nth < 2 ^ 64) (hs : ds.Pairwise (· < ·))
    (hmem : ∀ d ∈ ds, 0 ≤ d ∧ d < N) :
    nthDeleted N ds sta nth .prior = nthValid N (fun i ↦ i ∉ ds) sta nth .prior ↔
      -1 ≤ sta ∧ sta < N ∧ nth + countLt ds (sta + 1) ≤ 2 ^ 63 + (sta + 1) := by
  have hnd : ds.Nodup := hs.imp fun h ↦ Int.ne_of_lt h
  have h0 : ∀ d ∈ ds, 0 ≤ d := fun d hd ↦ (hmem d hd).1
  have hrev : ds.reverse.Pairwise (· > ·) := List.pairwise_reverse.2 hs
  have hmrev : ∀ d ∈ ds.reverse, 0 ≤ d ∧ d < (N : Int) := fun d hd ↦ hmem d (List.mem_reverse.1 hd)
  have hlrev : ds.length = ds.reverse.length := List.length_reverse.symm
  have hcount : ∀ m : Nat, m ≤ sta + 1 → _ := fun m hm ↦ countBelow_upToSta_notMem hnd h0 hm
  have hcount' : ∀ m : Nat, sta + 1 ≤ m → _ := fun m hm ↦ countBelow_upToSta_notMem' hnd h0 hm
  have hall : ∀ x : Int, N ≤ x → countLt ds x = ds.length := fun x hx ↦
    countLt_eq_length fun d hd ↦ Int.lt_of_lt_of_le (hmem d hd).2 hx
  have hlen : ds.length ≤ N := by
    have := countBelow_notMem hnd h0 N
    rw [hall N (Int.le_refl _)] at this
    omega
  have hle := countLt_le ds (sta + 1)
  have hNN := hall N (Int.le_refl _)
  have hcN := hcount N
  have hcN' := hcount' N
  have hsN := hall (sta + 1)
  constructor
  · intro h
    rcases Int.lt_or_le sta (sqllen (sta + 1 - nth)) with hback | hnear
    · -- Wrapped around: the search does not move.
      exfalso
      rw [nthDeleted, skipPrior_stay fun d hd hsd ↦ by omega] at h
      rcases @nthValid_prior_cases N (fun i ↦ i ∉ ds) _ sta nth h1 with
        ⟨m, he, hm, hsm, hv, hc⟩ | ⟨he, hlt⟩ <;> rw [he] at h <;> simp only at h <;>
        split at h <;> simp only [Prod.mk.injEq] at h <;> obtain ⟨hr, hx⟩ := h
      · clear hr
        omega
      · clear hr
        omega
      · rw [sqllen_of_mem (by omega) (by omega)] at hr
        omega
      · clear hr
        omega
    · have hstart : sqllen (sta + 1 - nth) = sta + 1 - nth := by
        have := sqllen_lt (sta + 1 - nth)
        have := le_sqllen (sta + 1 - nth)
        exact sqllen_eq_self (by omega) (by omega)
      have hhi' := sqllen_lt (sta + 1 - nth)
      have hlo' := le_sqllen (sta + 1 - nth)
      rw [hstart] at hnear hhi' hlo'
      rw [nthDeleted, hstart, hlrev] at h
      rcases Int.lt_or_le (2 ^ 63 + (sta + 1 - nth)) (countLt ds (sta + 1)) with hout | hin
      · exfalso
        have hover := @skipPrior_overflow N sta _ hmrev hN ds.reverse.length
          _ (-1) hlo' (by omega) (by rw [countLt_reverse]; exact hout)
        rcases he : skipPrior sta ds.reverse ds.reverse.length (sta + 1 - nth, -1) with ⟨x, δ⟩
        rw [he] at h hover
        simp only at h hover
        rw [if_neg (by omega)] at h
        rcases @nthValid_prior_cases N (fun i ↦ i ∉ ds) _ sta nth h1 with
          ⟨m, he, hm, hsm, hv, hcm⟩ | ⟨he, hlt⟩ <;> rw [he] at h <;>
          simp only [Prod.mk.injEq] at h <;> obtain ⟨-, h⟩ := h <;> omega
      · obtain ⟨x, δ, he, hx, hc, -, hδ⟩ := skipPrior_spec hrev _ (-1) hhi' hnear
          (Int.le_refl _) (by rw [countLt_reverse]; exact hin)
        simp only [countLt_reverse, List.mem_reverse] at hc hδ
        rw [he] at h
        rcases @nthValid_prior_cases N (fun i ↦ i ∉ ds) _ sta nth h1 with
          ⟨m, he, hm, hsm, hv, hcm⟩ | ⟨he, hlt⟩ <;> rw [he] at h <;> simp only at h <;>
          split at h <;> simp only [Prod.mk.injEq] at h <;> obtain ⟨hr, hxm⟩ := h
        · exact absurd hxm (Int.ne_of_lt (Int.lt_of_lt_of_le (by decide) (Int.natCast_nonneg m)))
        · clear hr
          have hcm' := hcount m (by omega)
          rw [hxm] at hc
          rw [Int.toNat_natCast] at hcm
          exact ⟨by omega, by omega, by omega⟩
        · next hneg =>
          have hδ' := hδ 0 hneg h0
          rw [Int.toNat_natCast] at hr hlt
          rw [sqllen_eq_self (by omega) (by omega)] at hr
          exact ⟨by omega, by omega, by omega⟩
        · next hge =>
          rw [hxm] at hge
          exact absurd (by decide) hge
  · rintro ⟨hpos, hltN, hover⟩
    obtain ⟨x, δ, he, hx, hc, hxm, hδ⟩ := @skipPrior_spec sta _ hrev
      (sta + 1 - nth) (-1) (by omega) (by omega) (Int.le_refl _)
      (by rw [countLt_reverse]; omega)
    simp only [countLt_reverse, List.mem_reverse] at hc hxm hδ
    rw [nthDeleted, sqllen_of_mem (by omega) (by omega), hlrev, he]
    simp only
    split
    · next hneg =>
      have hx0 : countLt ds x = 0 := countLt_eq_zero fun d hd ↦ by have := h0 d hd; omega
      have hδ' := hδ 0 hneg h0
      rw [nthValid_prior_none (by rw [Int.toNat_natCast]; omega), Int.toNat_natCast,
        sqllen_of_mem (by omega) (by omega), Prod.mk.injEq]
      exact ⟨by omega, rfl⟩
    · next hge =>
      obtain ⟨m, rfl⟩ := Int.eq_ofNat_of_zero_le (show 0 ≤ x by omega)
      have hcm := hcount m (by omega)
      have hcx := countLt_mono ds (show (m : Int) ≤ sta + 1 by omega)
      rw [nthValid_prior_found (m := m) (by omega) (by omega) hxm
        (by rw [Int.toNat_natCast]; omega), sqllen_of_mem (by omega) (by omega)]

end

end PsqlOdbc
