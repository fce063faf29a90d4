import Mathlib.Data.List.DropRight
import Mathlib.Data.Nat.Digits.Lemmas
import Mathlib.Tactic.Ring

/-!
# Arithmetic on digits in place

A number is a list of digits in some base, the least significant one first, as in
`Nat.ofDigits`.  Multiplying it by a small number from the low end, with a carry, and dividing
it by a small number from the high end, with a remainder, keep the number of digits.
-/

namespace PsqlOdbc.Radix

open Nat (ofDigits)

variable {b : ℕ}

/-- Multiply by `m` and add `carry`; the second component is the carry out of the top. -/
def mulAdd (b m : ℕ) : List ℕ → ℕ → List ℕ × ℕ
  | [], carry => ([], carry)
  | d :: ds, carry =>
    let r := mulAdd b m ds ((d * m + carry) / b)
    ((d * m + carry) % b :: r.1, r.2)

/-- Divide by `m`; the second component is the remainder. -/
def divMod (b m : ℕ) : List ℕ → List ℕ × ℕ
  | [] => ([], 0)
  | d :: ds =>
    let r := divMod b m ds
    ((d + r.2 * b) / m :: r.1, (d + r.2 * b) % m)

theorem mulAdd_length (m : ℕ) (ds : List ℕ) (carry : ℕ) :
    (mulAdd b m ds carry).1.length = ds.length := by
  induction ds generalizing carry with
  | nil => rfl
  | cons d ds ih => rw [mulAdd, List.length_cons, List.length_cons, ih]

/-- The product is in the digits and in the carry. -/
theorem ofDigits_mulAdd (m : ℕ) (ds : List ℕ) (carry : ℕ) :
    ofDigits b (mulAdd b m ds carry).1 + b ^ ds.length * (mulAdd b m ds carry).2 =
      ofDigits b ds * m + carry := by
  induction ds generalizing carry with
  | nil => simp [mulAdd, Nat.ofDigits_nil]
  | cons d ds ih =>
    have hdiv := Nat.mod_add_div (d * m + carry) b
    have htail := ih ((d * m + carry) / b)
    rw [mulAdd, Nat.ofDigits_cons, Nat.ofDigits_cons, List.length_cons, pow_succ]
    calc (d * m + carry) % b + b * ofDigits b (mulAdd b m ds ((d * m + carry) / b)).1 +
          b ^ ds.length * b * (mulAdd b m ds ((d * m + carry) / b)).2
        = (d * m + carry) % b + b * (ofDigits b (mulAdd b m ds ((d * m + carry) / b)).1 +
            b ^ ds.length * (mulAdd b m ds ((d * m + carry) / b)).2) := by ring
      _ = (d * m + carry) % b + b * ((d * m + carry) / b) + b * ofDigits b ds * m := by
          rw [htail]
          ring
      _ = (d + b * ofDigits b ds) * m + carry := by
          rw [hdiv]
          ring

/-- The digits of the product are its remainder, if they are digits. -/
theorem mulAdd_lt (hb : 0 < b) (m : ℕ) (ds : List ℕ) (carry : ℕ) :
    ∀ d ∈ (mulAdd b m ds carry).1, d < b := by
  induction ds generalizing carry with
  | nil =>
    intro d hd
    cases hd
  | cons d ds ih =>
    intro e he
    rcases List.mem_cons.1 he with rfl | he
    · exact Nat.mod_lt _ hb
    · exact ih _ e he

theorem ofDigits_lt {ds : List ℕ} (h : ∀ d ∈ ds, d < b) :
    ofDigits b ds < b ^ ds.length := by
  induction ds with
  | nil => exact Nat.one_pos
  | cons d ds ih =>
    have hd := h d List.mem_cons_self
    have htail := ih fun e he ↦ h e (List.mem_cons_of_mem d he)
    rw [Nat.ofDigits_cons, List.length_cons, pow_succ]
    calc d + b * ofDigits b ds < b + b * ofDigits b ds := Nat.add_lt_add_right hd _
      _ = (ofDigits b ds + 1) * b := by ring
      _ ≤ b ^ ds.length * b := Nat.mul_le_mul_right b htail

/-- The digits that are left, and the carry, are what division by the weight of the carry
gives. -/
theorem mulAdd_eq (hb : 0 < b) (m : ℕ) (ds : List ℕ) (carry : ℕ) :
    ofDigits b (mulAdd b m ds carry).1 = (ofDigits b ds * m + carry) % b ^ ds.length ∧
      (mulAdd b m ds carry).2 = (ofDigits b ds * m + carry) / b ^ ds.length := by
  have hlt := ofDigits_lt (mulAdd_lt hb m ds carry)
  rw [mulAdd_length] at hlt
  rw [← ofDigits_mulAdd]
  constructor
  · rw [Nat.add_mul_mod_self_left, Nat.mod_eq_of_lt hlt]
  · rw [Nat.add_mul_div_left _ _ (Nat.pow_pos hb), Nat.div_eq_of_lt hlt, Nat.zero_add]

/-- Quotient and remainder. -/
theorem ofDigits_divMod {m : ℕ} (hm : 0 < m) (ds : List ℕ) :
    ofDigits b (divMod b m ds).1 = ofDigits b ds / m ∧ (divMod b m ds).2 = ofDigits b ds % m := by
  induction ds with
  | nil => simp [divMod, Nat.ofDigits_nil]
  | cons d ds ih =>
    obtain ⟨hquot, hrem⟩ := ih
    have hsplit : d + b * ofDigits b ds =
        d + ofDigits b ds % m * b + b * (ofDigits b ds / m) * m := by
      calc d + b * ofDigits b ds = d + b * (ofDigits b ds % m + m * (ofDigits b ds / m)) := by
            rw [Nat.mod_add_div]
        _ = d + ofDigits b ds % m * b + b * (ofDigits b ds / m) * m := by ring
    rw [divMod, Nat.ofDigits_cons, Nat.ofDigits_cons, hquot, hrem, hsplit]
    constructor
    · rw [Nat.add_mul_div_right _ _ hm]
    · rw [Nat.add_mul_mod_self_right]

/-- Zeros on top add nothing. -/
theorem ofDigits_map_rdropWhile {α : Type*} (f : α → ℕ) {p : α → Bool}
    (hp : ∀ a, p a = true → f a = 0) (ds : List α) :
    ofDigits b ((ds.rdropWhile p).map f) = ofDigits b (ds.map f) := by
  induction ds using List.reverseRecOn with
  | nil => rfl
  | append_singleton ds d ih =>
    by_cases hd : p d = true
    · rw [List.rdropWhile_concat_pos _ _ _ hd, ih, List.map_append, Nat.ofDigits_append,
        List.map_singleton, hp d hd, Nat.ofDigits_singleton, Nat.mul_zero, Nat.add_zero]
    · rw [List.rdropWhile_concat_neg _ _ _ hd]

/-- The digits taken place by place, with zeros on top. -/
theorem ofDigits_range (ds : List ℕ) {n : ℕ} (h : ds.length ≤ n) :
    ofDigits b ((List.range n).map (ds.getD · 0)) = ofDigits b ds := by
  induction ds generalizing n with
  | nil =>
    clear h
    induction n with
    | zero => rfl
    | succ n ih =>
      rw [List.range_succ, List.map_append, Nat.ofDigits_append, ih]
      simp
  | cons d ds ih =>
    cases n with
    | zero => exact absurd h (Nat.not_succ_le_zero _)
    | succ n =>
      rw [List.range_succ_eq_map, List.map_cons, List.map_map, Nat.ofDigits_cons, Nat.ofDigits_cons,
        ← ih (Nat.le_of_succ_le_succ h)]
      rfl

/-! ## Reading digits from the high end -/

/-- The number a list of decimal digits spells, the most significant one first. -/
def spell (ds : List ℕ) : ℕ := ofDigits 10 ds.reverse

theorem spell_append (xs ys : List ℕ) : spell (xs ++ ys) = spell xs * 10 ^ ys.length + spell ys := by
  rw [spell, List.reverse_append, Nat.ofDigits_append, List.length_reverse, spell, spell]
  ring

end PsqlOdbc.Radix
