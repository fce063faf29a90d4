import PsqlOdbc.Lib.HexText

/-!
# Numbers in floating point as text

What `strtof` reads of a text: the number before it is rounded, and what follows.  A number that is
too large for a `float` is told apart, and `strtofScan_read` says which characters have been read.
-/

namespace Lib

/-- A number in floating point before it is rounded. -/
inductive FloatNumber
  | finite (neg : Bool) (base mantissa : Nat) (exponent : Int)
  | infinity (neg : Bool)
  | nan (neg : Bool)
  deriving DecidableEq, Repr

/-- Whether the number is rounded to `HUGE_VALF` for its size: half a unit above the greatest
`float`. -/
def FloatNumber.overflows : FloatNumber → Bool
  | finite _ base mantissa (.ofNat e) => 2 ^ 128 - 2 ^ 103 ≤ mantissa * base ^ e
  | finite _ base mantissa (.negSucc e) => (2 ^ 128 - 2 ^ 103) * base ^ (e + 1) ≤ mantissa
  | _ => false

/-- Digits with a point among them or without: the number they make, how many are behind the point,
and what follows. -/
def floatDigits (base : Nat) (s : List UInt8) : Option (Nat × Nat × List UInt8) :=
  let whole := s.takeWhile (digitValue · < base)
  let rest := s.dropWhile (digitValue · < base)
  if rest.head? = some 0x2e then
    let fraction := rest.tail.takeWhile (digitValue · < base)
    if whole ++ fraction = [] then none
    else some (baseValue base (whole ++ fraction), fraction.length,
      rest.tail.dropWhile (digitValue · < base))
  else if whole = [] then none
  else some (baseValue base whole, 0, rest)

/-- An exponent behind its letter, which is a value of `digitValue`, and what follows. -/
def floatExponent (letter : Nat) : List UInt8 → Int × List UInt8
  | [] => (0, [])
  | c :: s =>
    let (neg, t) := strtolSign s
    let ds := t.takeWhile isDecimal
    if digitValue c = letter ∧ ds ≠ [] then
      (if neg then -(decimalValue ds : Int) else decimalValue ds, t.dropWhile isDecimal)
    else (0, c :: s)

/-- What follows `nan`: there may be letters, digits and underscores in parentheses. -/
def nanTail : List UInt8 → List UInt8
  | [] => []
  | c :: s =>
    let rest := s.dropWhile fun d ↦ digitValue d < 36 || d = 0x5f
    if c = 0x28 ∧ rest.head? = some 0x29 then rest.tail else c :: s

/-- A decimal number, or a hexadecimal one behind `0x`. -/
def finiteScan (neg : Bool) (s : List UInt8) : Option (FloatNumber × List UInt8) :=
  let hex :=
    if s.head? = some 0x30 ∧ (s[1]? = some 0x78 ∨ s[1]? = some 0x58) then floatDigits 16 (s.drop 2)
    else none
  match hex with
  | some (mantissa, places, rest) =>
    -- The letter is `p`.
    let (exponent, rest) := floatExponent 25 rest
    some (.finite neg 2 mantissa (exponent - 4 * places), rest)
  | none =>
    (floatDigits 10 s).map fun (mantissa, places, rest) ↦
      -- The letter is `e`.
      let (exponent, rest) := floatExponent 14 rest
      (.finite neg 10 mantissa (exponent - places), rest)

/-- What `strtof` reads; none if there is no number. -/
def strtofScan (s : List UInt8) : Option (FloatNumber × List UInt8) :=
  let (neg, s) := strtolSign (s.dropWhile isBlank)
  -- `infinity`, `inf` and `nan`, in letters of either case.
  if (s.take 8).map digitValue = [18, 23, 15, 18, 23, 18, 29, 34] then
    some (.infinity neg, s.drop 8)
  else if (s.take 3).map digitValue = [18, 23, 15] then some (.infinity neg, s.drop 3)
  else if (s.take 3).map digitValue = [23, 10, 23] then some (.nan neg, nanTail (s.drop 3))
  else finiteScan neg s

example : strtofScan (" -1.5e3x".toList.map fun c ↦ UInt8.ofNat c.toNat) =
    some (.finite true 10 15 2, [0x78]) := by decide

/-! ## What is read -/

/-- A character that is no blank. -/
def isSolid (c : UInt8) : Bool := !isBlank c

section

variable {s rest : List UInt8}

theorem isSolid_of_digit {c : UInt8} (hc : digitValue c < 36) : isSolid c = true := by
  rw [isSolid, (notBlank_of_digit hc).1]
  rfl

/-- Characters that are letters or digits. -/
theorem readBy_drop {k : Nat} (h : ∀ v ∈ (s.take k).map digitValue, v < 36) :
    ReadBy isSolid s (s.drop k) := by
  refine ⟨s.take k, (List.take_append_drop k s).symm, fun c hc ↦ ?_⟩
  exact isSolid_of_digit (h _ (List.mem_map_of_mem hc))

theorem readBy_digits {base : Nat} (hbase : base ≤ 36) (s : List UInt8) :
    ReadBy isSolid s (s.dropWhile (digitValue · < base)) :=
  (ReadBy.dropWhile s).imp fun _ hc ↦
    isSolid_of_digit (Nat.lt_of_lt_of_le (of_decide_eq_true hc) hbase)

theorem readBy_decimals (s : List UInt8) : ReadBy isSolid s (s.dropWhile isDecimal) :=
  (ReadBy.dropWhile s).imp fun _ hc ↦
    isSolid_of_digit (Nat.lt_trans (digitValue_lt_ten.2 hc) (by decide))

theorem readBy_sign (s : List UInt8) : ReadBy isSolid s (strtolSign s).2 := by
  refine (strtolSign_split s).imp fun c hc ↦ ?_
  rcases Bool.or_eq_true _ _ ▸ hc with hc | hc
  · rw [of_decide_eq_true hc]
    rfl
  · rw [of_decide_eq_true hc]
    rfl

theorem floatDigits_read {base mantissa places : Nat} (hbase : base ≤ 36)
    (h : floatDigits base s = some (mantissa, places, rest)) :
    ReadBy isSolid s rest ∧ rest.length < s.length := by
  have hwhole := readBy_digits hbase s
  have hlen := congrArg List.length (List.takeWhile_append_dropWhile (l := s)
    (p := fun c ↦ digitValue c < base))
  rw [List.length_append] at hlen
  unfold floatDigits at h
  dsimp only at h
  generalize s.takeWhile (digitValue · < base) = whole at h hlen
  generalize s.dropWhile (digitValue · < base) = t at h hlen hwhole
  by_cases hpoint : t.head? = some 0x2e
  · rw [if_pos hpoint] at h
    split_ifs at h
    cases h
    cases t with
    | nil => cases hpoint
    | cons c t =>
      obtain rfl : c = 0x2e := Option.some.inj hpoint
      have hfraction := readBy_digits hbase t
      have hle := hfraction.length_le
      refine ⟨hwhole.trans (hfraction.cons rfl), ?_⟩
      rw [List.length_cons] at hlen
      rw [List.tail_cons]
      omega
  · rw [if_neg hpoint] at h
    split_ifs at h with hnone
    cases h
    have hpos := List.length_pos_iff.2 hnone
    exact ⟨hwhole, by omega⟩

theorem floatExponent_read {letter : Nat} (hletter : letter < 36) (s : List UInt8) :
    ReadBy isSolid s (floatExponent letter s).2 := by
  cases s with
  | nil => exact .refl _ _
  | cons c s =>
    have hsign := readBy_sign s
    rw [floatExponent]
    dsimp only
    split
    · next h => exact .cons (isSolid_of_digit (h.1 ▸ hletter)) (hsign.trans (readBy_decimals _))
    · exact .refl _ _

theorem nanTail_read (s : List UInt8) : ReadBy isSolid s (nanTail s) := by
  cases s with
  | nil => exact .refl _ _
  | cons c s =>
    have hchars : ReadBy isSolid s (s.dropWhile fun d ↦ digitValue d < 36 || d = 0x5f) :=
      (ReadBy.dropWhile s).imp fun d hd ↦ by
        rcases Bool.or_eq_true _ _ ▸ hd with hd | hd
        · exact isSolid_of_digit (of_decide_eq_true hd)
        · rw [of_decide_eq_true hd]
          rfl
    rw [nanTail]
    split_ifs with h
    · obtain ⟨rfl, hclose⟩ := h
      generalize s.dropWhile (fun d ↦ digitValue d < 36 || d = 0x5f) = t at hchars hclose ⊢
      cases t with
      | nil => cases hclose
      | cons d t =>
        obtain rfl : d = 0x29 := Option.some.inj hclose
        exact .cons rfl (hchars.trans (.cons rfl (.refl _ _)))
    · exact .refl _ _

theorem finiteScan_read {neg : Bool} {x : FloatNumber} (h : finiteScan neg s = some (x, rest)) :
    ReadBy isSolid s rest ∧ rest.length < s.length := by
  have hstep {t : List UInt8} {letter : Nat} (ht : ReadBy isSolid s t ∧ t.length < s.length)
      (hletter : letter < 36) : ReadBy isSolid s (floatExponent letter t).2 ∧
        (floatExponent letter t).2.length < s.length := by
    have hread := floatExponent_read hletter t
    exact ⟨ht.1.trans hread, Nat.lt_of_le_of_lt hread.length_le ht.2⟩
  unfold finiteScan at h
  dsimp only at h
  split at h
  · next mantissa places t hhex =>
    cases h
    refine hstep ?_ (by decide)
    split_ifs at hhex with hfront
    obtain ⟨hread, hlt⟩ := floatDigits_read (by decide) hhex
    have hannounced : ReadBy isSolid s (s.drop 2) := by
      obtain ⟨hzero, hx⟩ := hfront
      match s, hzero, hx with
      | [_], _, hx => exact hx.elim (fun h ↦ by cases h) fun h ↦ by cases h
      | c :: d :: s', hzero, hx =>
        rw [show c = 0x30 from Option.some.inj hzero]
        refine .cons rfl (.cons ?_ (.refl _ _))
        rcases hx with hx | hx
        · rw [show d = 0x78 from Option.some.inj hx]
          rfl
        · rw [show d = 0x58 from Option.some.inj hx]
          rfl
    have hle := hannounced.length_le
    exact ⟨hannounced.trans hread, by omega⟩
  · cases hdigits : floatDigits 10 s with
    | none =>
      rw [hdigits] at h
      cases h
    | some r =>
      obtain ⟨mantissa, places, t⟩ := r
      rw [hdigits] at h
      cases h
      exact hstep (floatDigits_read (by decide) hdigits) (by decide)

/-- Behind its blanks a number that is found is made of characters that are no blanks. -/
theorem strtofScan_read {x : FloatNumber} (h : strtofScan s = some (x, rest)) :
    ReadBy isSolid (s.dropWhile isBlank) rest ∧ rest.length < (s.dropWhile isBlank).length := by
  have hsign := readBy_sign (s.dropWhile isBlank)
  unfold strtofScan at h
  generalize strtolSign (s.dropWhile isBlank) = behind at h hsign
  obtain ⟨neg, t⟩ := behind
  dsimp only at h hsign
  have hle := hsign.length_le
  have hword : ∀ {k : Nat} {word : List Nat}, (t.take (k + 1)).map digitValue = word →
      word.length = k + 1 → (∀ v ∈ word, v < 36) →
      ReadBy isSolid t (t.drop (k + 1)) ∧ (t.drop (k + 1)).length < t.length := by
    rintro k word rfl hlen hvalues
    rw [List.length_map, List.length_take] at hlen
    refine ⟨readBy_drop hvalues, ?_⟩
    rw [List.length_drop]
    omega
  have hread : ReadBy isSolid t rest ∧ rest.length < t.length := by
    split_ifs at h with hinfinity hinf hnan
    · cases h
      exact hword hinfinity rfl (by decide)
    · cases h
      exact hword hinf rfl (by decide)
    · cases h
      obtain ⟨hnan, hlt⟩ := hword hnan rfl (by decide)
      have htail := nanTail_read (t.drop 3)
      exact ⟨hnan.trans htail, Nat.lt_of_le_of_lt htail.length_le hlt⟩
    · exact finiteScan_read h
  exact ⟨hsign.trans hread.1, by omega⟩

end

end Lib
