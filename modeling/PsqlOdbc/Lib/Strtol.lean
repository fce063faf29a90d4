import Mathlib.Data.List.Induction
import Mathlib.Tactic.Ring
import PsqlOdbc.Lib.Bits

/-!
# Numbers as text

What `printf` makes of an integer with a precision, and what `strtol` and `strtoul` make of a text.
A text is a list of bytes without the NUL behind it; where reading has stopped is what is left of
it.  `strtol_signed` says that what has been written is read back.
-/

namespace Lib

/-! ## Writing -/

/-- The character of a decimal digit. -/
def digitByte (d : Nat) : UInt8 := UInt8.ofNat (0x30 + d)

/-- The digits of a number, at least `k` of them. -/
def decimals (k n : Nat) : List UInt8 :=
  if k = 0 ∧ n = 0 then [] else decimals (k - 1) (n / 10) ++ [digitByte (n % 10)]
termination_by k + n
decreasing_by omega

/-- `%.kd`. -/
def printfPrecision (k : Nat) (n : Int) : List UInt8 :=
  if n < 0 then 0x2d :: decimals k n.natAbs else decimals k n.natAbs

/-- `%0wd`. -/
def printfZero (w : Nat) (n : Int) : List UInt8 :=
  if n < 0 then 0x2d :: decimals (max (w - 1) 1) n.natAbs else decimals (max w 1) n.natAbs

/-! ## Reading -/

/-- `isspace`, in the C locale. -/
def isBlank (c : UInt8) : Bool := c = 0x20 || (0x09 ≤ c && c ≤ 0x0d)

/-- The value of a digit or a letter; 36 for any other character. -/
def digitValue (c : UInt8) : Nat :=
  if 0x30 ≤ c ∧ c ≤ 0x39 then c.toNat - 0x30
  else if 0x61 ≤ c ∧ c ≤ 0x7a then c.toNat - 0x57
  else if 0x41 ≤ c ∧ c ≤ 0x5a then c.toNat - 0x37
  else 36

/-- The number the digits at the head of a text make with those before them, and what follows. -/
def readDigits (base : Nat) : Nat → List UInt8 → Nat × List UInt8
  | acc, [] => (acc, [])
  | acc, c :: s =>
    if digitValue c < base then readDigits base (base * acc + digitValue c) s else (acc, c :: s)

/-- A sign, and what follows. -/
def strtolSign : List UInt8 → Bool × List UInt8
  | [] => (false, [])
  | c :: s => if c = 0x2d then (true, s) else if c = 0x2b then (false, s) else (false, c :: s)

/-- Whether there is a digit at the head of a text. -/
def startsWithDigit (base : Nat) (s : List UInt8) : Bool :=
  s.head?.any fun c ↦ digitValue c < base

/-- What `strtol` and `strtoul` read: whether there is a minus sign, the number, and what follows;
none if there is no number. -/
def strtolScan (base : Nat) (s : List UInt8) : Option (Bool × Nat × List UInt8) :=
  let (neg, s) := strtolSign (s.dropWhile isBlank)
  let s :=
    if base = 16 ∧ s.head? = some 0x30 ∧ (s[1]? = some 0x78 ∨ s[1]? = some 0x58) ∧
      startsWithDigit 16 (s.drop 2) then s.drop 2
    else s
  if startsWithDigit base s then some (neg, readDigits base 0 s) else none

/-- `strtol`, for a `long` of 64 bits, and what is left at `*endptr`. -/
def strtol (base : Nat) (s : List UInt8) : Int × List UInt8 :=
  match strtolScan base s with
  | none => (0, s)
  | some (neg, n, rest) => (max (-2 ^ 63) (min (2 ^ 63 - 1) (if neg then -n else n)), rest)

/-- `strtoul`, for an `unsigned long` of 64 bits. -/
def strtoul (base : Nat) (s : List UInt8) : Nat × List UInt8 :=
  match strtolScan base s with
  | none => (0, s)
  | some (neg, n, rest) =>
    (if 2 ^ 64 ≤ n then 2 ^ 64 - 1 else if neg then (2 ^ 64 - n) % 2 ^ 64 else n, rest)

/-! ## Decimal digits -/

/-- Whether a character is a decimal digit. -/
def isDecimal (c : UInt8) : Bool := 0x30 ≤ c && c ≤ 0x39

/-- The number a text of decimal digits stands for. -/
def decimalValue (cs : List UInt8) : Nat := cs.foldl (fun acc c ↦ 10 * acc + digitValue c) 0

section

variable {c : UInt8} {d k n : Nat} {ds : List UInt8}

theorem isDecimal_iff : isDecimal c = true ↔ 0x30 ≤ c.toNat ∧ c.toNat ≤ 0x39 := by
  rw [isDecimal, Bool.and_eq_true, decide_eq_true_iff, decide_eq_true_iff]
  rfl

theorem digitValue_lt_ten : digitValue c < 10 ↔ isDecimal c = true := by
  rw [isDecimal_iff]
  have h30 : 0x30 ≤ c ↔ 0x30 ≤ c.toNat := Iff.rfl
  have h39 : c ≤ 0x39 ↔ c.toNat ≤ 0x39 := Iff.rfl
  have h61 : 0x61 ≤ c ↔ 0x61 ≤ c.toNat := Iff.rfl
  have h7a : c ≤ 0x7a ↔ c.toNat ≤ 0x7a := Iff.rfl
  have h41 : 0x41 ≤ c ↔ 0x41 ≤ c.toNat := Iff.rfl
  have h5a : c ≤ 0x5a ↔ c.toNat ≤ 0x5a := Iff.rfl
  simp only [digitValue, h30, h39, h61, h7a, h41, h5a]
  split
  · omega
  · split
    · omega
    · split
      · omega
      · omega

theorem digitByte_toNat (h : d < 10) : (digitByte d).toNat = 0x30 + d := by
  rw [digitByte, UInt8.toNat_ofNat', Nat.mod_eq_of_lt (by omega)]

theorem isDecimal_digitByte (h : d < 10) : isDecimal (digitByte d) = true := by
  rw [isDecimal_iff, digitByte_toNat h]
  omega

theorem digitValue_digitByte (h : d < 10) : digitValue (digitByte d) = d := by
  have hc : 0x30 ≤ digitByte d ∧ digitByte d ≤ 0x39 := isDecimal_iff.1 (isDecimal_digitByte h)
  rw [digitValue, if_pos hc, digitByte_toNat h, Nat.add_sub_cancel_left]

theorem digitByte_digitValue (hc : isDecimal c = true) : digitByte (digitValue c) = c := by
  have hrange := isDecimal_iff.1 hc
  have hvalue : digitValue c = c.toNat - 0x30 := if_pos hrange
  rw [← UInt8.toNat_inj, digitByte_toNat (digitValue_lt_ten.2 hc), hvalue]
  omega

theorem decimals_zero : decimals 0 0 = [] := by
  rw [decimals, if_pos ⟨rfl, rfl⟩]

theorem decimals_succ (k n : Nat) :
    decimals (k + 1) n = decimals k (n / 10) ++ [digitByte (n % 10)] := by
  rw [decimals, if_neg fun h ↦ absurd h.1 (Nat.succ_ne_zero k), Nat.add_sub_cancel]

theorem isDecimal_decimals (k n : Nat) : ∀ c ∈ decimals k n, isDecimal c = true := by
  fun_induction decimals k n with
  | case1 => exact List.forall_mem_nil _
  | case2 k n h ih =>
    intro c hc
    rcases List.mem_append.1 hc with hc | hc
    · exact ih c hc
    · rw [List.mem_singleton.1 hc]
      exact isDecimal_digitByte (Nat.mod_lt n (by decide))

theorem decimalValue_append_singleton (cs : List UInt8) (c : UInt8) :
    decimalValue (cs ++ [c]) = 10 * decimalValue cs + digitValue c := by
  rw [decimalValue, List.foldl_append]
  rfl

theorem decimalValue_decimals (k n : Nat) : decimalValue (decimals k n) = n := by
  fun_induction decimals k n with
  | case1 k n h => exact h.2.symm
  | case2 k n h ih =>
    rw [decimalValue_append_singleton, ih, digitValue_digitByte (Nat.mod_lt n (by decide))]
    omega

theorem length_decimals (h : n < 10 ^ k) : (decimals k n).length = k := by
  induction k generalizing n with
  | zero =>
    obtain rfl := Nat.lt_one_iff.1 h
    rw [decimals_zero]
    rfl
  | succ k ih =>
    rw [Nat.pow_succ] at h
    rw [decimals_succ, List.length_append, ih (by omega), List.length_singleton]

/-- The upper digits. -/
theorem take_decimals {q : Nat} (h : n < 10 ^ (k + q)) :
    (decimals (k + q) n).take k = decimals k (n / 10 ^ q) := by
  induction q generalizing n with
  | zero =>
    rw [Nat.pow_zero, Nat.div_one]
    exact List.take_of_length_le (Nat.le_of_eq (length_decimals h))
  | succ q ih =>
    rw [← Nat.add_assoc, Nat.pow_succ] at h
    have hdiv : n / 10 < 10 ^ (k + q) := by omega
    rw [← Nat.add_assoc, decimals_succ, List.take_append_of_le_length, ih hdiv, Nat.div_div_eq_div_mul,
      Nat.pow_succ, Nat.mul_comm]
    rw [length_decimals hdiv]
    exact Nat.le_add_right k q

theorem decimalValue_zeros (cs : List UInt8) (q : Nat) :
    decimalValue (cs ++ List.replicate q 0x30) = decimalValue cs * 10 ^ q := by
  induction q with
  | zero => rw [List.replicate_zero, List.append_nil, Nat.pow_zero, Nat.mul_one]
  | succ q ih =>
    rw [List.replicate_succ', ← List.append_assoc, decimalValue_append_singleton, ih, Nat.pow_succ,
      show digitValue 0x30 = 0 from rfl]
    ring

theorem decimalValue_lt (hds : ∀ c ∈ ds, isDecimal c = true) : decimalValue ds < 10 ^ ds.length := by
  induction ds using List.reverseRecOn with
  | nil => exact Nat.one_pos
  | append_singleton ds c ih =>
    have hih := ih fun c hc ↦ hds c (List.mem_append_left _ hc)
    have hc := digitValue_lt_ten.2 (hds c (List.mem_append_right _ (List.mem_singleton_self c)))
    rw [decimalValue_append_singleton, List.length_append, List.length_singleton, Nat.pow_succ]
    omega

/-- Digits are those of the number they stand for. -/
theorem decimals_decimalValue (hds : ∀ c ∈ ds, isDecimal c = true) :
    decimals ds.length (decimalValue ds) = ds := by
  induction ds using List.reverseRecOn with
  | nil => exact decimals_zero
  | append_singleton ds c ih =>
    have hih := ih fun c hc ↦ hds c (List.mem_append_left _ hc)
    have hdigit := hds c (List.mem_append_right _ (List.mem_singleton_self c))
    have hc := digitValue_lt_ten.2 hdigit
    rw [List.length_append, List.length_singleton, decimals_succ, decimalValue_append_singleton,
      show (10 * decimalValue ds + digitValue c) / 10 = decimalValue ds by omega, hih,
      show (10 * decimalValue ds + digitValue c) % 10 = digitValue c by omega,
      digitByte_digitValue hdigit]

/-- The number the upper digits stand for. -/
theorem decimalValue_take (hds : ∀ c ∈ ds, isDecimal c = true) {k q : Nat}
    (hlen : ds.length = k + q) : decimalValue (ds.take k) = decimalValue ds / 10 ^ q := by
  have hlt := decimalValue_lt hds
  have htake := take_decimals (hlen ▸ hlt)
  rw [← hlen, decimals_decimalValue hds] at htake
  rw [htake, decimalValue_decimals]

theorem le_length_decimals (k n : Nat) : k ≤ (decimals k n).length := by
  fun_induction decimals k n with
  | case1 k n h => exact Nat.le_of_eq h.1
  | case2 k n h ih =>
    rw [List.length_append, List.length_singleton]
    omega

theorem length_decimals_le {q : Nat} (hk : k ≤ q) (h : n < 10 ^ q) : (decimals k n).length ≤ q := by
  fun_induction decimals k n generalizing q with
  | case1 => exact Nat.zero_le q
  | case2 k n hne ih =>
    cases q with
    | zero => exact absurd ⟨Nat.le_zero.1 hk, Nat.lt_one_iff.1 h⟩ hne
    | succ q =>
      rw [Nat.pow_succ] at h
      rw [List.length_append, List.length_singleton]
      exact Nat.succ_le_succ (ih (by omega) (by omega))

/-! ## Digits of any base -/

/-- The number a text of digits stands for in a base. -/
def baseValue (base : Nat) (cs : List UInt8) : Nat :=
  cs.foldl (fun acc c ↦ base * acc + digitValue c) 0

theorem readDigits_append {base : Nat} (hds : ∀ c ∈ ds, digitValue c < base) {rest : List UInt8}
    (hrest : startsWithDigit base rest = false) (acc : Nat) :
    readDigits base acc (ds ++ rest) =
      (ds.foldl (fun acc c ↦ base * acc + digitValue c) acc, rest) := by
  induction ds generalizing acc with
  | nil =>
    cases rest with
    | nil => rfl
    | cons c rest =>
      rw [List.nil_append, readDigits, if_neg (of_decide_eq_false hrest)]
      rfl
  | cons c ds ih =>
    rw [List.cons_append, readDigits, if_pos (hds c List.mem_cons_self),
      ih fun c hc ↦ hds c (List.mem_cons_of_mem _ hc)]
    rfl

/-- A digit is neither a blank nor a sign. -/
theorem notBlank_of_digit (hc : digitValue c < 36) : isBlank c = false ∧ c ≠ 0x2d ∧ c ≠ 0x2b := by
  revert hc
  exact uint8_forall (P := fun c ↦ digitValue c < 36 → isBlank c = false ∧ c ≠ 0x2d ∧ c ≠ 0x2b)
    (by decide +kernel) c

/-- A text with a minus sign in front, or without. -/
def signed (neg : Bool) (s : List UInt8) : List UInt8 := if neg then 0x2d :: s else s

theorem strtolSign_signed (neg : Bool) (hc : digitValue c < 36) (s : List UInt8) :
    strtolSign ((signed neg (c :: s)).dropWhile isBlank) = (neg, c :: s) := by
  obtain ⟨hblank, hminus, hplus⟩ := notBlank_of_digit hc
  cases neg with
  | true =>
    rw [signed, if_pos rfl, List.dropWhile_cons_of_neg (by decide), strtolSign, if_pos rfl]
  | false =>
    rw [signed, if_neg Bool.false_ne_true, List.dropWhile_cons_of_neg (by rw [hblank]; decide),
      strtolSign, if_neg hminus, if_neg hplus]

section

variable {base : Nat} (hbase : base ≤ 36) (neg : Bool) (hds : ∀ c ∈ ds, digitValue c < base)
  (hne : ds ≠ []) {rest : List UInt8} (hrest : startsWithDigit base rest = false)
include hbase hds hne hrest

/-- A number is read up to the first character that is no digit; a zero is not the beginning of
`0x`. -/
theorem strtolScan_signed (hzero : base = 16 → ds = [0x30] → startsWithDigit 16 rest.tail = true →
      rest.head? ≠ some 0x78 ∧ rest.head? ≠ some 0x58) :
    strtolScan base (signed neg (ds ++ rest)) = some (neg, baseValue base ds, rest) := by
  have hread := readDigits_append hds hrest 0
  obtain ⟨c, ds, rfl⟩ := List.exists_cons_of_ne_nil hne
  have hc := hds c List.mem_cons_self
  have hstart : startsWithDigit base (c :: (ds ++ rest)) = true := decide_eq_true hc
  have hfront : ¬(base = 16 ∧ (c :: (ds ++ rest)).head? = some 0x30 ∧
      ((c :: (ds ++ rest))[1]? = some 0x78 ∨ (c :: (ds ++ rest))[1]? = some 0x58) ∧
      startsWithDigit 16 ((c :: (ds ++ rest)).drop 2) = true) := by
    rintro ⟨rfl, h0, hx, hdigit⟩
    cases ds with
    | nil =>
      obtain ⟨hx', hX'⟩ := hzero rfl (congrArg (fun c ↦ [c]) (Option.some_inj.1 h0)) (by
        cases rest with
        | nil => exact hdigit
        | cons d rest => exact hdigit)
      rw [List.nil_append] at hx
      cases rest with
      | nil => rcases hx with hx | hx <;> cases hx
      | cons d rest => exact hx.elim hx' hX'
    | cons d ds =>
      have hd := hds d (List.mem_cons_of_mem _ List.mem_cons_self)
      rcases hx with hx | hx
      · rw [Option.some_inj.1 (show some d = some 0x78 from hx)] at hd
        exact absurd hd (by decide)
      · rw [Option.some_inj.1 (show some d = some 0x58 from hx)] at hd
        exact absurd hd (by decide)
  rw [List.cons_append] at hread ⊢
  rw [strtolScan, strtolSign_signed neg (Nat.lt_of_lt_of_le hc hbase)]
  dsimp only
  rw [if_neg hfront, if_pos hstart, hread]
  rfl

end

/-- A hexadecimal number behind `0x`. -/
theorem strtolScan_hex (neg : Bool) (hds : ∀ c ∈ ds, digitValue c < 16) (hne : ds ≠ [])
    {rest : List UInt8} (hrest : startsWithDigit 16 rest = false) {x : UInt8}
    (hx : x = 0x78 ∨ x = 0x58) :
    strtolScan 16 (signed neg (0x30 :: x :: (ds ++ rest))) = some (neg, baseValue 16 ds, rest) := by
  have hread := readDigits_append hds hrest 0
  have hstart : startsWithDigit 16 (ds ++ rest) = true := by
    obtain ⟨c, ds, rfl⟩ := List.exists_cons_of_ne_nil hne
    exact decide_eq_true (hds c List.mem_cons_self)
  have hfront : 16 = 16 ∧ (0x30 :: x :: (ds ++ rest)).head? = some 0x30 ∧
      ((0x30 :: x :: (ds ++ rest))[1]? = some 0x78 ∨ (0x30 :: x :: (ds ++ rest))[1]? = some 0x58) ∧
      startsWithDigit 16 ((0x30 :: x :: (ds ++ rest)).drop 2) = true :=
    ⟨rfl, rfl, hx.imp (congrArg some) (congrArg some), hstart⟩
  rw [strtolScan, strtolSign_signed neg (by decide)]
  dsimp only
  rw [if_pos hfront, List.drop_succ_cons, List.drop_succ_cons, List.drop_zero, if_pos hstart, hread]
  rfl

/-- What `strtol` makes of a number. -/
theorem strtol_of_scan {base n : Nat} {neg : Bool} {s rest : List UInt8}
    (h : strtolScan base s = some (neg, n, rest)) :
    strtol base s =
      (max (-2 ^ 63) (min (2 ^ 63 - 1) (if neg then -(n : Int) else n)), rest) := by
  rw [strtol, h]

theorem strtoul_of_scan {base n : Nat} {neg : Bool} {s rest : List UInt8}
    (h : strtolScan base s = some (neg, n, rest)) :
    strtoul base s =
      (if 2 ^ 64 ≤ n then 2 ^ 64 - 1 else if neg then (2 ^ 64 - n) % 2 ^ 64 else n, rest) := by
  rw [strtoul, h]

/-! ## Decimal numbers -/

theorem startsWithDigit_ten (s : List UInt8) : startsWithDigit 10 s = s.head?.any isDecimal := by
  cases s with
  | nil => rfl
  | cons c s => exact Bool.eq_iff_iff.2 (decide_eq_true_iff.trans digitValue_lt_ten)

theorem strtolScan_decimal (neg : Bool) (hds : ∀ c ∈ ds, isDecimal c = true) (hne : ds ≠ [])
    {rest : List UInt8} (hrest : rest.head?.any isDecimal = false) :
    strtolScan 10 (signed neg (ds ++ rest)) = some (neg, decimalValue ds, rest) :=
  strtolScan_signed (by decide) neg (fun c hc ↦ digitValue_lt_ten.2 (hds c hc)) hne
    ((startsWithDigit_ten rest).trans hrest) fun h ↦ absurd h (by decide)

theorem strtol_signed (neg : Bool) (hds : ∀ c ∈ ds, isDecimal c = true) (hne : ds ≠ [])
    {rest : List UInt8} (hrest : rest.head?.any isDecimal = false) (hlt : decimalValue ds < 2 ^ 63) :
    strtol 10 (signed neg (ds ++ rest)) =
      (if neg then -(decimalValue ds : Int) else decimalValue ds, rest) := by
  rw [strtol_of_scan (strtolScan_decimal neg hds hne hrest)]
  congr 1
  split
  · omega
  · omega

theorem strtol_decimal (hds : ∀ c ∈ ds, isDecimal c = true) (hne : ds ≠ []) {rest : List UInt8}
    (hrest : rest.head?.any isDecimal = false) (hlt : decimalValue ds < 2 ^ 63) :
    strtol 10 (ds ++ rest) = ((decimalValue ds : Int), rest) :=
  strtol_signed false hds hne hrest hlt

/-- Where no number begins nothing is read. -/
theorem strtolScan_none {base : Nat} (hbase : 0 < base) {s : List UInt8}
    (h : ∀ c ∈ s.head?, isBlank c = false ∧ c ≠ 0x2d ∧ c ≠ 0x2b ∧ base ≤ digitValue c) :
    strtolScan base s = none := by
  cases s with
  | nil =>
    simp [strtolScan, strtolSign, startsWithDigit]
  | cons c s =>
    obtain ⟨hblank, hminus, hplus, hdigit⟩ := h c rfl
    have hfront : ¬(base = 16 ∧ (c :: s).head? = some 0x30 ∧
        ((c :: s)[1]? = some 0x78 ∨ (c :: s)[1]? = some 0x58) ∧
        startsWithDigit 16 ((c :: s).drop 2) = true) := by
      rintro ⟨-, hc, -⟩
      rw [Option.some_inj.1 hc] at hdigit
      exact absurd hbase (Nat.not_lt.2 hdigit)
    have hstart : startsWithDigit base (c :: s) = false := decide_eq_false (Nat.not_lt.2 hdigit)
    rw [strtolScan, List.dropWhile_cons_of_neg (by rw [hblank]; decide), strtolSign, if_neg hminus,
      if_neg hplus]
    dsimp only
    rw [if_neg hfront, hstart, if_neg Bool.false_ne_true]

theorem strtol_none {s : List UInt8}
    (h : ∀ c ∈ s.head?, isBlank c = false ∧ c ≠ 0x2d ∧ c ≠ 0x2b ∧ isDecimal c = false) :
    strtol 10 s = (0, s) := by
  have hscan : strtolScan 10 s = none := by
    refine strtolScan_none (by decide) fun c hc ↦ ?_
    obtain ⟨hblank, hminus, hplus, hdigit⟩ := h c hc
    refine ⟨hblank, hminus, hplus, Nat.le_of_not_lt fun hlt ↦ ?_⟩
    rw [digitValue_lt_ten.1 hlt] at hdigit
    cases hdigit
  rw [strtol, hscan]

end

end Lib
