import Mathlib.Data.List.TakeWhile
import PsqlOdbc.Lib.Strtol

/-!
# Numbers in base 16

What `printf` makes of an unsigned integer with `%0kX`, and which part of a text `strtoul` reads: what
it reads is made of the characters of a number, and what follows does not begin with a digit.
-/

namespace Lib

/-! ## Writing -/

/-- The character of a digit in base 16. -/
def hexByte (d : Nat) : UInt8 := UInt8.ofNat (if d < 10 then 0x30 + d else 0x37 + d)

/-- `%0kX`: the digits of a number in base 16, at least `k` of them. -/
def hexadecimals (k n : Nat) : List UInt8 :=
  if k = 0 ∧ n = 0 then [] else hexadecimals (k - 1) (n / 16) ++ [hexByte (n % 16)]
termination_by k + n
decreasing_by omega

theorem digitValue_hexByte {d : Nat} (h : d < 16) : digitValue (hexByte d) = d := by
  revert d
  decide

theorem hexadecimals_zero : hexadecimals 0 0 = [] := by
  rw [hexadecimals, if_pos ⟨rfl, rfl⟩]

theorem hexadecimals_succ (k n : Nat) :
    hexadecimals (k + 1) n = hexadecimals k (n / 16) ++ [hexByte (n % 16)] := by
  rw [hexadecimals, if_neg fun h ↦ absurd h.1 (Nat.succ_ne_zero k), Nat.add_sub_cancel]

theorem digits_hexadecimals (k n : Nat) : ∀ c ∈ hexadecimals k n, digitValue c < 16 := by
  fun_induction hexadecimals k n with
  | case1 => exact List.forall_mem_nil _
  | case2 k n h ih =>
    intro c hc
    rcases List.mem_append.1 hc with hc | hc
    · exact ih c hc
    · rw [List.mem_singleton.1 hc, digitValue_hexByte (Nat.mod_lt n (by decide))]
      exact Nat.mod_lt n (by decide)

theorem baseValue_append_singleton (base : Nat) (cs : List UInt8) (c : UInt8) :
    baseValue base (cs ++ [c]) = base * baseValue base cs + digitValue c := by
  rw [baseValue, List.foldl_append]
  rfl

/-- What is written stands for the number. -/
theorem baseValue_hexadecimals (k n : Nat) : baseValue 16 (hexadecimals k n) = n := by
  fun_induction hexadecimals k n with
  | case1 k n h => exact h.2.symm
  | case2 k n h ih =>
    rw [baseValue_append_singleton, ih, digitValue_hexByte (Nat.mod_lt n (by decide))]
    omega

theorem length_hexadecimals {k n : Nat} (h : n < 16 ^ k) : (hexadecimals k n).length = k := by
  induction k generalizing n with
  | zero =>
    obtain rfl := Nat.lt_one_iff.1 h
    rw [hexadecimals_zero]
    rfl
  | succ k ih =>
    rw [Nat.pow_succ] at h
    rw [hexadecimals_succ, List.length_append, ih (by omega), List.length_singleton]

theorem baseValue_lt {base : Nat} {ds : List UInt8} (hds : ∀ c ∈ ds, digitValue c < base) :
    baseValue base ds < base ^ ds.length := by
  induction ds using List.reverseRecOn with
  | nil => exact Nat.one_pos
  | append_singleton ds c ih =>
    have hih := ih fun c hc ↦ hds c (List.mem_append_left _ hc)
    have hc := hds c (List.mem_append_right _ (List.mem_singleton_self c))
    rw [baseValue_append_singleton, List.length_append, List.length_singleton, Nat.pow_succ,
      Nat.mul_comm]
    calc baseValue base ds * base + digitValue c
        < baseValue base ds * base + base := Nat.add_lt_add_left hc _
      _ = (baseValue base ds + 1) * base := (Nat.succ_mul _ _).symm
      _ ≤ base ^ ds.length * base := Nat.mul_le_mul_right _ hih

/-! ## What is read of a text -/

/-- The characters of a number, with the blanks, the sign and the `0x` before it. -/
def isNumberChar (base : Nat) (c : UInt8) : Bool :=
  isBlank c || c = 0x2d || c = 0x2b || c = 0x78 || c = 0x58 || c = 0x30 || digitValue c < base

theorem isNumberChar_digit {base : Nat} {c : UInt8} (hc : digitValue c < base) :
    isNumberChar base c = true := by
  rw [isNumberChar, decide_eq_true hc, Bool.or_true]

/-- What is left of a text when characters of a kind have been read. -/
def ReadBy (p : UInt8 → Bool) (s rest : List UInt8) : Prop :=
  ∃ read, s = read ++ rest ∧ ∀ c ∈ read, p c = true

namespace ReadBy

variable {p q : UInt8 → Bool} {s t rest : List UInt8}

theorem refl (p : UInt8 → Bool) (s : List UInt8) : ReadBy p s s := ⟨[], rfl, List.forall_mem_nil _⟩

theorem cons {c : UInt8} (hc : p c = true) (h : ReadBy p s rest) : ReadBy p (c :: s) rest := by
  obtain ⟨read, rfl, hread⟩ := h
  exact ⟨c :: read, rfl, List.forall_mem_cons.2 ⟨hc, hread⟩⟩

theorem trans (h : ReadBy p s t) (h' : ReadBy p t rest) : ReadBy p s rest := by
  obtain ⟨read, rfl, hread⟩ := h
  obtain ⟨read', rfl, hread'⟩ := h'
  exact ⟨read ++ read', (List.append_assoc _ _ _).symm, List.forall_mem_append.2 ⟨hread, hread'⟩⟩

theorem imp (hpq : ∀ c, p c = true → q c = true) (h : ReadBy p s rest) : ReadBy q s rest := by
  obtain ⟨read, hs, hread⟩ := h
  exact ⟨read, hs, fun c hc ↦ hpq c (hread c hc)⟩

theorem dropWhile (s : List UInt8) : ReadBy p s (s.dropWhile p) :=
  ⟨s.takeWhile p, (List.takeWhile_append_dropWhile).symm, fun _ hc ↦ List.mem_takeWhile_imp hc⟩

theorem length_le (h : ReadBy p s rest) : rest.length ≤ s.length := by
  obtain ⟨read, rfl, -⟩ := h
  rw [List.length_append]
  omega

/-- The last character that has been read. -/
theorem last (h : ReadBy p s rest) (hlt : rest.length < s.length) :
    ∃ pre c, s = pre ++ c :: rest ∧ p c = true := by
  obtain ⟨read, rfl, hread⟩ := h
  rcases List.eq_nil_or_concat read with rfl | ⟨pre, c, rfl⟩
  · exact absurd hlt (Nat.lt_irrefl _)
  · rw [List.concat_eq_append] at hread ⊢
    refine ⟨pre, c, List.append_assoc _ _ _, ?_⟩
    exact hread c (List.mem_append_right _ (List.mem_singleton_self c))

end ReadBy

theorem readDigits_split (base acc : Nat) (s : List UInt8) :
    startsWithDigit base (readDigits base acc s).2 = false ∧
      ReadBy (digitValue · < base) s (readDigits base acc s).2 ∧
      (startsWithDigit base s = true → (readDigits base acc s).2.length < s.length) := by
  induction s generalizing acc with
  | nil => exact ⟨rfl, .refl _ _, fun h ↦ by cases h⟩
  | cons c s ih =>
    rw [readDigits]
    by_cases hc : digitValue c < base
    · rw [if_pos hc]
      obtain ⟨hends, hread, -⟩ := ih (base * acc + digitValue c)
      exact ⟨hends, hread.cons (decide_eq_true hc), fun _ ↦ Nat.lt_succ_of_le hread.length_le⟩
    · rw [if_neg hc]
      exact ⟨decide_eq_false hc, .refl _ _, fun h ↦ absurd (of_decide_eq_true h) hc⟩

theorem strtolSign_split (s : List UInt8) :
    ReadBy (fun c ↦ c = 0x2d || c = 0x2b) s (strtolSign s).2 := by
  cases s with
  | nil => exact .refl _ _
  | cons c s =>
    rw [strtolSign]
    split_ifs with hminus hplus
    · exact .cons (by rw [hminus]; rfl) (.refl _ _)
    · exact .cons (by rw [hplus]; rfl) (.refl _ _)
    · exact .refl _ _

/-- Behind its blanks a number that is found is made of the characters of one, up to where no digit
follows. -/
theorem strtolScan_read {base n : Nat} (hbase : base ≤ 36) {neg : Bool} {s rest : List UInt8}
    (h : strtolScan base s = some (neg, n, rest)) :
    startsWithDigit base rest = false ∧
      ReadBy (fun c ↦ isNumberChar base c && !isBlank c) (s.dropWhile isBlank) rest ∧
      rest.length < (s.dropWhile isBlank).length := by
  have hsign := (strtolSign_split (s.dropWhile isBlank)).imp
    (q := fun c ↦ isNumberChar base c && !isBlank c) fun c hc ↦ by
      rcases Bool.or_eq_true _ _ ▸ hc with hc | hc
      · rw [of_decide_eq_true hc]
        rfl
      · rw [of_decide_eq_true hc]
        rfl
  unfold strtolScan at h
  generalize strtolSign (s.dropWhile isBlank) = behind at h hsign
  obtain ⟨neg', s'⟩ := behind
  dsimp only at h hsign
  have hannounced : ∃ s'', ReadBy (fun c ↦ isNumberChar base c && !isBlank c) s' s'' ∧
      (if startsWithDigit base s'' = true then some (neg', readDigits base 0 s'') else none) =
        some (neg, n, rest) := by
    by_cases hfront : base = 16 ∧ s'.head? = some 0x30 ∧ (s'[1]? = some 0x78 ∨ s'[1]? = some 0x58) ∧
        startsWithDigit 16 (s'.drop 2) = true
    · rw [if_pos hfront] at h
      refine ⟨s'.drop 2, ?_, h⟩
      obtain ⟨rfl, hzero, hx, -⟩ := hfront
      match s', hzero, hx with
      | [_], _, hx => exact hx.elim (fun h ↦ by cases h) fun h ↦ by cases h
      | c :: d :: s', hzero, hx =>
        obtain rfl : c = 0x30 := Option.some.inj hzero
        refine .cons rfl (.cons ?_ (.refl _ _))
        rcases hx with hx | hx
        · rw [show d = 0x78 from Option.some.inj hx]
          rfl
        · rw [show d = 0x58 from Option.some.inj hx]
          rfl
    · rw [if_neg hfront] at h
      exact ⟨s', .refl _ _, h⟩
  obtain ⟨s'', hs', hread⟩ := hannounced
  split_ifs at hread with hstart
  have hrest : (readDigits base 0 s'').2 = rest := by
    have hpair := Option.some.inj hread
    exact congrArg (fun r ↦ r.2.2) hpair
  obtain ⟨hends, hdigits, hlt⟩ := readDigits_split base 0 s''
  rw [hrest] at hends hdigits hlt
  have hdigits := hdigits.imp (q := fun c ↦ isNumberChar base c && !isBlank c) fun c hc ↦ by
    have hdigit := of_decide_eq_true hc
    rw [isNumberChar_digit hdigit, (notBlank_of_digit (Nat.lt_of_lt_of_le hdigit hbase)).1]
    rfl
  have hle := (hsign.trans hs').length_le
  exact ⟨hends, (hsign.trans hs').trans hdigits, Nat.lt_of_lt_of_le (hlt hstart) hle⟩

theorem strtolScan_split {base n : Nat} (hbase : base ≤ 36) {neg : Bool} {s rest : List UInt8}
    (h : strtolScan base s = some (neg, n, rest)) :
    startsWithDigit base rest = false ∧ ReadBy (isNumberChar base) s rest := by
  obtain ⟨hends, hread, -⟩ := strtolScan_read hbase h
  have hblanks : ReadBy (isNumberChar base) s (s.dropWhile isBlank) :=
    (ReadBy.dropWhile s).imp fun c hc ↦ by
      rw [isNumberChar, hc]
      rfl
  exact ⟨hends, hblanks.trans (hread.imp fun c hc ↦ (Bool.and_eq_true _ _ ▸ hc).1)⟩

/-- A number is found where a digit is. -/
theorem strtolScan_ne_none {base : Nat} (hbase : base ≤ 36) {s : List UInt8}
    (h : startsWithDigit base s = true) : strtolScan base s ≠ none := by
  cases s with
  | nil => cases h
  | cons c s =>
    have hc : digitValue c < base := of_decide_eq_true h
    have hsign := strtolSign_signed false (Nat.lt_of_lt_of_le hc hbase) s
    rw [signed, if_neg Bool.false_ne_true] at hsign
    rw [strtolScan, hsign]
    dsimp only
    split_ifs with hfront hstart
    · exact Option.some_ne_none _
    · rw [hfront.1] at hstart
      exact absurd hfront.2.2.2 hstart
    · exact Option.some_ne_none _

/-- The same of a text without a number, of which nothing is read. -/
theorem strtoul_split {base : Nat} (hbase : base ≤ 36) (s : List UInt8) :
    startsWithDigit base (strtoul base s).2 = false ∧
      ReadBy (isNumberChar base) s (strtoul base s).2 := by
  cases hscan : strtolScan base s with
  | some r =>
    obtain ⟨neg, n, rest⟩ := r
    rw [strtoul_of_scan hscan]
    exact strtolScan_split hbase hscan
  | none =>
    rw [strtoul, hscan]
    refine ⟨?_, .refl _ _⟩
    by_contra hdigit
    rw [Bool.not_eq_false] at hdigit
    exact strtolScan_ne_none hbase hdigit hscan

end Lib
