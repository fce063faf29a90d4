import Mathlib.Data.Rat.Floor
import Mathlib.Tactic.FieldSimp
import PsqlOdbc.Convert.Numeric

/-!
# Numeric values and their texts

What a decimal text stands for, and that `parse_to_numeric_struct` reads it up to the digits it
has room for.  A value whose text has no more fraction digits than that comes back from the text
`ResolveNumericParam` makes of it.
-/

namespace PsqlOdbc

open Radix

/-! ## What is meant -/

/-- The sign in front of a text. -/
inductive TextSign
  | none | plus | minus
  deriving DecidableEq, Repr

def TextSign.bytes : TextSign → List UInt8
  | .none => []
  | .plus => [plusSign]
  | .minus => [hyphen]

/-- The sign byte of a value. -/
def TextSign.byte : TextSign → UInt8
  | .none | .plus => 1
  | .minus => 0

/-- A text that is an optional sign, digits and an optional fraction. -/
structure NumericText where
  sign : TextSign
  digits : List UInt8
  fraction : Option (List UInt8)
  digits_isDigit : ∀ c ∈ digits, isDigit c = true
  fraction_isDigit : ∀ c ∈ fraction.getD [], isDigit c = true

namespace NumericText

variable (t : NumericText)

/-- The dot and the fraction. -/
def fractionText : List UInt8 := t.fraction.elim [] (decimalDot :: ·)

def text : List UInt8 := t.sign.bytes ++ (t.digits ++ t.fractionText)

/-- The digits of the integer without leading zeros. -/
def significant : List UInt8 := t.digits.dropWhile (· = digitZero)

/-- How many digits of a fraction there is room for behind the integer. -/
def room : ℕ := calvSize - t.significant.length

/-- The digits that are kept. -/
def kept : List UInt8 := t.significant.take calvSize ++ (t.fraction.getD []).take t.room

/-- The text with `n` digits of its fraction. -/
def truncate (n : ℕ) : NumericText where
  sign := t.sign
  digits := t.digits
  fraction := t.fraction.map (·.take n)
  digits_isDigit := t.digits_isDigit
  fraction_isDigit c hc := by
    cases h : t.fraction with
    | none =>
      rw [h] at hc
      cases hc
    | some fraction =>
      have hall := t.fraction_isDigit
      rw [h] at hc hall
      exact hall c (List.mem_of_mem_take hc)

@[simp] theorem truncate_sign (n : ℕ) : (t.truncate n).sign = t.sign := rfl

@[simp] theorem truncate_fraction (n : ℕ) :
    (t.truncate n).fraction.getD [] = (t.fraction.getD []).take n := by
  change (t.fraction.map (·.take n)).getD [] = _
  cases t.fraction with
  | none => exact List.take_nil.symm
  | some fraction => rfl

end NumericText

/-- The number a list of decimal characters spells. -/
def spellChars (cs : List UInt8) : ℕ := spell (cs.map digitOf)

/-- The value of a text. -/
def NumericText.value (t : NumericText) : ℚ :=
  (if t.sign = .minus then -1 else 1) *
    (spellChars (t.digits ++ t.fraction.getD []) / 10 ^ (t.fraction.getD []).length)

namespace SqlNumericStruct

variable (ns : SqlNumericStruct)

/-- `val` as a number. -/
def magnitude : ℕ := Nat.ofDigits 256 (ns.val.map UInt8.toNat)

/-- What the struct denotes. -/
def value : ℚ := (if ns.sign = 0 then -1 else 1) * (ns.magnitude / 10 ^ ns.scale.toInt)

end SqlNumericStruct

/-! ## Reading the digits -/

theorem isDigit_iff {c : UInt8} : isDigit c = true ↔ 0x30 ≤ c ∧ c ≤ 0x39 := by
  rw [isDigit, Bool.and_eq_true, decide_eq_true_iff, decide_eq_true_iff]

/-- A digit is none of the other characters. -/
theorem isDigit_ne {c d : UInt8} (h : isDigit c = true) (hd : isDigit d = false) : c ≠ d := by
  rintro rfl
  rw [h] at hd
  cases hd

/-- One digit. -/
theorem readDigits_digit (s : NumericScan) {c : UInt8} (h : isDigit c = true) (wv : List UInt8) :
    readDigits s (c :: wv) =
      if calvSize ≤ s.calv.length then
        if s.dotExist then s
        else readDigits { s with scale := s.scale - 1, overflow := true } wv
      else
        readDigits { s with
          scale := if s.dotExist then s.scale + 1 else s.scale
          calv := s.calv ++ [c] } wv := by
  rw [readDigits, if_neg (isDigit_ne h rfl), if_neg]
  rintro (rfl | hnot)
  · cases h
  · rw [h] at hnot
    cases hnot

/-- The digits of the integer: those there is room for are taken, and an overflow is noted if
there are more. -/
theorem readDigits_integer {ds : List UInt8} (h : ∀ c ∈ ds, isDigit c = true) (wv : List UInt8)
    {calv : List UInt8} (scale : Int8) (overflow : Bool) (hlen : calv.length ≤ calvSize) :
    ∃ scale', (calv.length + ds.length ≤ calvSize → scale' = scale) ∧
      readDigits ⟨calv, false, scale, overflow⟩ (ds ++ wv) =
        readDigits ⟨calv ++ ds.take (calvSize - calv.length), false, scale',
          overflow || decide (calvSize < calv.length + ds.length)⟩ wv := by
  induction ds generalizing calv scale overflow with
  | nil =>
    refine ⟨scale, fun _ ↦ rfl, ?_⟩
    rw [List.take_nil, List.append_nil, List.length_nil, decide_eq_false (by omega), Bool.or_false]
    rfl
  | cons c ds ih =>
    have hc := h c List.mem_cons_self
    have hds := fun d hd ↦ h d (List.mem_cons_of_mem c hd)
    rw [List.cons_append, readDigits_digit _ hc, List.length_cons]
    by_cases hfull : calvSize ≤ calv.length
    · obtain ⟨scale', -, hread⟩ := ih hds (scale - 1) true hlen
      refine ⟨scale', fun hle ↦ absurd hle (by omega), ?_⟩
      rw [if_pos hfull, if_neg Bool.false_ne_true, hread,
        decide_eq_true (by omega : calvSize < calv.length + (ds.length + 1)), Bool.or_true,
        Bool.true_or, Nat.sub_eq_zero_of_le hfull, List.take_zero, List.take_zero]
    · have hlen' : (calv ++ [c]).length = calv.length + 1 := by
        rw [List.length_append, List.length_singleton]
      have hroom : calvSize - calv.length = calvSize - (calv.length + 1) + 1 := by omega
      obtain ⟨scale', hscale, hread⟩ := ih hds scale overflow (hlen'.trans_le (by omega))
      refine ⟨scale', fun hle ↦ hscale (by rw [hlen']; omega), ?_⟩
      rw [if_neg hfull, if_neg Bool.false_ne_true, hread, hlen', hroom, List.take_succ_cons,
        List.append_assoc, List.singleton_append, Nat.add_right_comm, Nat.add_assoc]

/-- The digits of the fraction, as far as there is room. -/
theorem readDigits_fraction {ds : List UInt8} (h : ∀ c ∈ ds, isDigit c = true)
    (calv : List UInt8) (scale : Int8) (overflow : Bool) :
    readDigits ⟨calv, true, scale, overflow⟩ ds =
      ⟨calv ++ ds.take (calvSize - calv.length), true,
        scale + Int8.ofNat (ds.take (calvSize - calv.length)).length, overflow⟩ := by
  induction ds generalizing calv scale with
  | nil =>
    rw [List.take_nil, List.append_nil, List.length_nil]
    exact congrArg (NumericScan.mk calv true · overflow) (Int8.add_zero scale).symm
  | cons c ds ih =>
    rw [readDigits_digit _ (h c List.mem_cons_self)]
    by_cases hfull : calvSize ≤ calv.length
    · rw [if_pos hfull, if_pos rfl, Nat.sub_eq_zero_of_le hfull, List.take_zero, List.append_nil]
      exact congrArg (NumericScan.mk calv true · overflow) (Int8.add_zero scale).symm
    · have hlen' : (calv ++ [c]).length = calv.length + 1 := by
        rw [List.length_append, List.length_singleton]
      have hroom : calvSize - calv.length = calvSize - (calv.length + 1) + 1 := by omega
      rw [if_neg hfull, if_pos rfl, ih (fun d hd ↦ h d (List.mem_cons_of_mem c hd)), hlen',
        hroom, List.take_succ_cons, List.length_cons, List.append_assoc, List.singleton_append,
        Int8.ofNat_add, Int8.add_assoc, Int8.add_comm (Int8.ofNat _)]
      rfl

/-! ## Conversion -/

theorem map_timesTen (val : List UInt8) (carry : ℕ) :
    (timesTen val carry).1.map UInt8.toNat = (mulAdd 256 10 (val.map UInt8.toNat) carry).1 ∧
      (timesTen val carry).2 = (mulAdd 256 10 (val.map UInt8.toNat) carry).2 := by
  induction val generalizing carry with
  | nil => exact ⟨rfl, rfl⟩
  | cons v val ih =>
    obtain ⟨hdigits, hcarry⟩ := ih ((v.toNat * 10 + carry) / 256)
    rw [timesTen, List.map_cons, List.map_cons, mulAdd, hdigits, hcarry]
    exact ⟨rfl, rfl⟩

theorem spellChars_append (cs ds : List UInt8) :
    spellChars (cs ++ ds) = spellChars cs * 10 ^ ds.length + spellChars ds := by
  rw [spellChars, List.map_append, spell_append, List.length_map, spellChars, spellChars]

theorem spellChars_cons (c : UInt8) (cs : List UInt8) :
    spellChars (c :: cs) = digitOf c * 10 ^ cs.length + spellChars cs := by
  rw [← List.singleton_append, spellChars_append]
  simp [spellChars, spell]

/-- The bytes hold the number modulo `2 ^ 128`, and the flag tells whether it was larger at any
digit, which is the same as whether it is at the last one. -/
theorem convertDigits_eq {val : List UInt8} {n : ℕ} (o : Bool) (hlen : val.length = sqlMaxNumericLen)
    (hval : Nat.ofDigits 256 (val.map UInt8.toNat) = n % 2 ^ 128) (calv : List UInt8) :
    Nat.ofDigits 256 ((convertDigits (val, o || decide (2 ^ 128 ≤ n)) calv).1.map UInt8.toNat) =
        (n * 10 ^ calv.length + spellChars calv) % 2 ^ 128 ∧
      (convertDigits (val, o || decide (2 ^ 128 ≤ n)) calv).2 =
        (o || decide (2 ^ 128 ≤ n * 10 ^ calv.length + spellChars calv)) := by
  induction calv generalizing val n with
  | nil =>
    have hn : n * 10 ^ ([] : List UInt8).length + spellChars [] = n :=
      (Nat.add_zero _).trans (Nat.mul_one n)
    rw [hn]
    exact ⟨hval, rfl⟩
  | cons c calv ih =>
    obtain ⟨hdigits, hcarry⟩ := map_timesTen val (digitOf c)
    obtain ⟨hlow, hhigh⟩ := mulAdd_eq (b := 256) (by decide) 10 (val.map UInt8.toNat) (digitOf c)
    have hweight : 256 ^ (val.map UInt8.toNat).length = 2 ^ 128 := by
      rw [List.length_map, hlen]
      rfl
    rw [← hdigits, hweight, hval] at hlow
    rw [← hcarry, hweight, hval] at hhigh
    have hnext : n * 10 ^ (c :: calv).length + spellChars (c :: calv) =
        (n * 10 + digitOf c) * 10 ^ calv.length + spellChars calv := by
      rw [spellChars_cons, List.length_cons, pow_succ]
      ring
    -- Once the number is too large it stays so, and before that nothing is lost.
    have hflag : (o || decide (2 ^ 128 ≤ n) || decide ((timesTen val (digitOf c)).2 ≠ 0)) =
        (o || decide (2 ^ 128 ≤ n * 10 + digitOf c)) := by
      rw [Bool.or_assoc, ← Bool.decide_or, hhigh]
      congr 1
      rw [decide_eq_decide]
      have hdiv : (n % 2 ^ 128 * 10 + digitOf c) / 2 ^ 128 ≠ 0 ↔
          2 ^ 128 ≤ n % 2 ^ 128 * 10 + digitOf c := by
        rw [Nat.ne_zero_iff_zero_lt, Nat.div_pos_iff]
        omega
      rw [hdiv]
      omega
    have hmod : Nat.ofDigits 256 ((timesTen val (digitOf c)).1.map UInt8.toNat) =
        (n * 10 + digitOf c) % 2 ^ 128 := by
      rw [hlow]
      omega
    have hrest := ih ((timesTen_length val (digitOf c)).trans hlen) hmod
    rw [hnext]
    rw [← hflag] at hrest
    exact hrest

/-! ## The whole text -/

/-- Leading zeros add nothing. -/
theorem spellChars_dropWhile (cs ds : List UInt8) :
    spellChars (cs.dropWhile (· = digitZero) ++ ds) = spellChars (cs ++ ds) := by
  induction cs with
  | nil => rfl
  | cons c cs ih =>
    by_cases hc : c = digitZero
    · subst hc
      rw [List.dropWhile_cons_of_pos (by simp), ih, List.cons_append, spellChars_cons]
      exact (Nat.zero_add _).symm.trans (congrArg (· + _) (Nat.zero_mul _).symm)
    · rw [List.dropWhile_cons_of_neg (by simpa using hc)]

namespace NumericText

variable (t : NumericText)

theorem significant_isDigit : ∀ c ∈ t.significant, isDigit c = true :=
  fun c hc ↦ t.digits_isDigit c ((List.dropWhile_suffix _).subset hc)

/-- What follows the sign begins with a digit or the dot. -/
theorem body_headD :
    let c := (t.digits ++ t.fractionText).headD 0
    isDigit c = true ∨ c = decimalDot ∨ t.digits ++ t.fractionText = [] := by
  intro c
  cases hdigits : t.digits with
  | cons d ds =>
    have hd := t.digits_isDigit d (hdigits ▸ List.mem_cons_self)
    exact .inl (by simpa [c, hdigits] using hd)
  | nil =>
    cases hfraction : t.fraction with
    | none => exact .inr (.inr (by rw [fractionText, hfraction]; rfl))
    | some fraction => exact .inr (.inl (by simp [c, hdigits, fractionText, hfraction]))

/-- The sign is found, there being no space in front of it. -/
theorem readSign_text :
    readSign (t.text.dropWhile isSpace) = (t.sign.byte, t.digits ++ t.fractionText) := by
  have hstart : t.text.dropWhile isSpace = t.text := by
    rw [text]
    cases t.sign with
    | plus => rfl
    | minus => rfl
    | none =>
      rw [TextSign.bytes, List.nil_append]
      rcases hbody : t.digits ++ t.fractionText with _ | ⟨c, cs⟩
      · rfl
      · have hc := t.body_headD
        rw [hbody] at hc
        refine List.dropWhile_cons_of_neg ?_
        rcases hc with hc | hc | hc
        · rw [List.headD_cons, isDigit_iff] at hc
          simp only [isSpace, Bool.or_eq_true, Bool.and_eq_true, decide_eq_true_eq]
          grind
        · rw [List.headD_cons] at hc
          rw [hc]
          decide
        · cases hc
  rw [hstart, text]
  cases hsign : t.sign with
  | plus => rfl
  | minus => rfl
  | none =>
    have hne : (t.digits ++ t.fractionText).headD 0 ≠ hyphen ∧
        (t.digits ++ t.fractionText).headD 0 ≠ plusSign := by
      rcases t.body_headD with hc | hc | hc
      · exact ⟨isDigit_ne hc rfl, isDigit_ne hc rfl⟩
      · rw [hc]
        decide
      · rw [hc]
        decide
    rw [TextSign.bytes, List.nil_append, readSign, if_neg hne.1, if_neg hne.2]
    rfl

/-- Leading zeros are skipped. -/
theorem dropWhile_body :
    (t.digits ++ t.fractionText).dropWhile (· = digitZero) = t.significant ++ t.fractionText := by
  have hfraction : t.fractionText.dropWhile (· = digitZero) = t.fractionText := by
    rw [fractionText]
    cases t.fraction with
    | none => rfl
    | some fraction => rfl
  rw [List.dropWhile_append, hfraction, significant]
  split
  · next hempty => rw [List.isEmpty_iff.1 hempty, List.nil_append]
  · rfl

/-- The loop that reads the digits. -/
theorem readDigits_text :
    ∃ dotExist scale, (t.significant.length ≤ calvSize →
        scale = Int8.ofNat ((t.fraction.getD []).take t.room).length) ∧
      readDigits ⟨[], false, 0, false⟩ (t.significant ++ t.fractionText) =
        ⟨t.kept, dotExist, scale, decide (calvSize < t.significant.length)⟩ := by
  obtain ⟨scale, hscale, hread⟩ := @readDigits_integer _ t.significant_isDigit t.fractionText
    [] 0 false (Nat.zero_le calvSize)
  rw [List.length_nil, Nat.zero_add, Nat.sub_zero, List.nil_append, Bool.false_or] at hread
  rw [List.length_nil, Nat.zero_add] at hscale
  have hroom : calvSize - (t.significant.take calvSize).length = t.room := by
    rw [List.length_take, room]
    omega
  have hisDigit := t.fraction_isDigit
  cases hfraction : t.fraction with
  | none =>
    refine ⟨false, scale, fun hle ↦ ?_, ?_⟩
    · rw [hscale hle, Option.getD_none, List.take_nil]
      rfl
    · rw [hread, fractionText, hfraction, kept, hfraction, Option.getD_none, List.take_nil,
        List.append_nil]
      rfl
  | some fraction =>
    rw [hfraction] at hisDigit
    refine ⟨true, scale + Int8.ofNat (fraction.take t.room).length, fun hle ↦ ?_, ?_⟩
    · rw [hscale hle]
      exact Int8.zero_add _
    · rw [hread, fractionText, hfraction, kept, hfraction, ← hroom]
      exact readDigits_fraction hisDigit _ _ _

/-- What is read of a text. -/
theorem parseToNumericStruct_text :
    (parseToNumericStruct t.text).1.sign = t.sign.byte ∧
      (parseToNumericStruct t.text).1.magnitude = spellChars t.kept % 2 ^ 128 ∧
      (t.significant.length ≤ calvSize → (parseToNumericStruct t.text).1.scale.toInt =
        ((t.fraction.getD []).take t.room).length) ∧
      (parseToNumericStruct t.text).2 =
        (decide (calvSize < t.significant.length) || decide (2 ^ 128 ≤ spellChars t.kept)) := by
  obtain ⟨dotExist, scale, hscale, hread⟩ := t.readDigits_text
  have hzero : Nat.ofDigits 256 ((List.replicate sqlMaxNumericLen (0 : UInt8)).map UInt8.toNat) =
      0 % 2 ^ 128 := by decide
  obtain ⟨hval, hflag⟩ := convertDigits_eq (decide (calvSize < t.significant.length))
    List.length_replicate hzero t.kept
  rw [Nat.zero_mul, Nat.zero_add, decide_eq_false (by decide : ¬2 ^ 128 ≤ 0), Bool.or_false]
    at hval hflag
  rw [parseToNumericStruct, SqlNumericStruct.magnitude]
  simp only [t.readSign_text, t.dropWhile_body, hread]
  refine ⟨trivial, hval, fun hle ↦ ?_, hflag⟩
  rw [hscale hle]
  refine Int8.toInt_ofNat_of_lt ?_
  have hle := List.length_take_le t.room (t.fraction.getD [])
  have hroom : t.room ≤ calvSize := Nat.sub_le _ _
  exact Nat.lt_of_le_of_lt (hle.trans hroom) (by decide)

end NumericText

/-! ## Making a text -/

theorem map_divideByTen {vals : List UInt8} :
    (divideByTen vals).1.map UInt8.toNat = (divMod 256 10 (vals.map UInt8.toNat)).1 ∧
      (divideByTen vals).2 = (divMod 256 10 (vals.map UInt8.toNat)).2 := by
  induction vals with
  | nil => exact ⟨rfl, rfl⟩
  | cons v vals ih =>
    obtain ⟨hdigits, hrem⟩ := ih
    have hquot : (v.toNat + (divMod 256 10 (vals.map UInt8.toNat)).2 * 256) / 10 < 256 := by
      have hv := v.toNat_lt
      have hr := (ofDigits_divMod (b := 256) (by decide : 0 < 10) (vals.map UInt8.toNat)).2
      omega
    rw [divideByTen, List.map_cons, List.map_cons, divMod, hdigits, hrem,
      UInt8.toNat_ofNat_of_lt' hquot]
    exact ⟨rfl, rfl⟩

/-- Division of the bytes by ten. -/
theorem ofDigits_divideByTen (vals : List UInt8) :
    Nat.ofDigits 256 ((divideByTen vals).1.map UInt8.toNat) =
        Nat.ofDigits 256 (vals.map UInt8.toNat) / 10 ∧
      (divideByTen vals).2 = Nat.ofDigits 256 (vals.map UInt8.toNat) % 10 := by
  rw [map_divideByTen.1, map_divideByTen.2]
  exact ofDigits_divMod (by decide) _

theorem numericDigits_lt (remaining : ℕ) (vals : List UInt8) :
    ∀ c ∈ numericDigits remaining vals, c.toNat < 10 := by
  have hfirst : ∀ vals : List UInt8, (UInt8.ofNat (divideByTen vals).2).toNat < 10 := by
    intro vals
    have hlt : (divideByTen vals).2 < 10 := by
      rw [(ofDigits_divideByTen vals).2]
      exact Nat.mod_lt _ (by decide)
    rw [UInt8.toNat_ofNat_of_lt' (hlt.trans (by decide))]
    exact hlt
  induction remaining generalizing vals with
  | zero =>
    intro c hc
    rw [List.mem_singleton.1 hc]
    exact hfirst vals
  | succ remaining ih =>
    intro c hc
    rcases List.mem_cons.1 hc with rfl | hc
    · exact hfirst vals
    · split at hc
      · cases hc
      · exact ih _ c hc

theorem numericDigits_length (remaining : ℕ) (vals : List UInt8) :
    0 < (numericDigits remaining vals).length ∧
      (numericDigits remaining vals).length ≤ remaining + 1 := by
  induction remaining generalizing vals with
  | zero => exact ⟨Nat.one_pos, le_rfl⟩
  | succ remaining ih =>
    rw [numericDigits, List.length_cons]
    refine ⟨Nat.succ_pos _, Nat.succ_le_succ ?_⟩
    split
    · exact Nat.zero_le _
    · exact (ih _).2

/-- The loop ends with the last digit, if there is a place for each. -/
theorem ofDigits_numericDigits {remaining : ℕ} {vals : List UInt8}
    (h : Nat.ofDigits 256 (vals.map UInt8.toNat) < 10 ^ (remaining + 1)) :
    Nat.ofDigits 10 ((numericDigits remaining vals).map UInt8.toNat) =
      Nat.ofDigits 256 (vals.map UInt8.toNat) := by
  induction remaining generalizing vals with
  | zero =>
    obtain ⟨-, hrem⟩ := ofDigits_divideByTen vals
    have h : Nat.ofDigits 256 (vals.map UInt8.toNat) < 10 := h
    rw [numericDigits, hrem, Nat.mod_eq_of_lt h, List.map_singleton, Nat.ofDigits_singleton,
      UInt8.toNat_ofNat_of_lt' (h.trans (by decide))]
  | succ remaining ih =>
    obtain ⟨hquot, hrem⟩ := ofDigits_divideByTen vals
    have hrest : Nat.ofDigits 256
        (((divideByTen vals).1.rdropWhile (· = 0)).map UInt8.toNat) =
          Nat.ofDigits 256 (vals.map UInt8.toNat) / 10 := by
      rw [ofDigits_map_rdropWhile UInt8.toNat (fun a ha ↦ by rw [of_decide_eq_true ha]; rfl), hquot]
    have htail : Nat.ofDigits 10 ((if (divideByTen vals).1.rdropWhile (· = 0) = [] then []
          else numericDigits remaining ((divideByTen vals).1.rdropWhile (· = 0))).map UInt8.toNat) =
        Nat.ofDigits 256 (vals.map UInt8.toNat) / 10 := by
      split
      · next hnil =>
        rw [hnil] at hrest
        exact hrest
      · rw [ih (by rw [hrest]; omega), hrest]
    have hmod := Nat.mod_lt (Nat.ofDigits 256 (vals.map UInt8.toNat)) (by decide : 10 > 0)
    rw [numericDigits, List.map_cons, Nat.ofDigits_cons, htail, hrem,
      UInt8.toNat_ofNat_of_lt' (hmod.trans (by decide)), Nat.mod_add_div]

/-- The character of a digit. -/
theorem digit_char {d : UInt8} (h : d.toNat < 10) :
    isDigit (d + digitZero) = true ∧ digitOf (d + digitZero) = d.toNat := by
  have hchar : (d + digitZero).toNat = d.toNat + 48 := by
    rw [UInt8.toNat_add]
    change (d.toNat + 48) % 256 = d.toNat + 48
    omega
  rw [isDigit_iff, UInt8.le_iff_toNat_le, UInt8.le_iff_toNat_le, digitOf, hchar]
  change (48 ≤ d.toNat + 48 ∧ d.toNat + 48 ≤ 57) ∧ d.toNat + 48 - 48 = d.toNat
  omega

theorem placeDigit_lt {calv : List UInt8} (hcalv : ∀ c ∈ calv, c.toNat < 10) (j : ℕ) :
    (calv.getD j 0).toNat < 10 := by
  rw [List.getD_eq_getElem?_getD]
  cases hget : calv[j]? with
  | none => exact Nat.zero_lt_succ _
  | some c => exact hcalv c (List.mem_of_getElem? hget)

/-- The text with the digits at the places from `i` down to 0, of which `scale` are behind the
dot. -/
def placesText (sign : UInt8) (calv : List UInt8) (i scale : ℕ)
    (hcalv : ∀ c ∈ calv, c.toNat < 10) : NumericText :=
  have hplace : ∀ j, isDigit (placeChar calv j) = true :=
    fun j ↦ (digit_char (placeDigit_lt hcalv j)).1
  { sign := if sign = 0 then .minus else .none
    digits := (List.range' scale (i + 1 - scale)).reverse.map (placeChar calv)
    fraction := if 0 < scale then some ((List.range scale).reverse.map (placeChar calv)) else none
    digits_isDigit := fun c hc ↦ by
      obtain ⟨j, -, rfl⟩ := List.mem_map.1 hc
      exact hplace j
    fraction_isDigit := fun c hc ↦ by
      split at hc
      · obtain ⟨j, -, rfl⟩ := List.mem_map.1 hc
        exact hplace j
      · cases hc }

section Places

variable {sign : UInt8} {calv : List UInt8} {i scale : ℕ} (hcalv : ∀ c ∈ calv, c.toNat < 10)

theorem placesText_digits : (placesText sign calv i scale hcalv).digits =
    (List.range' scale (i + 1 - scale)).reverse.map (placeChar calv) := rfl

theorem placesText_fraction :
    (placesText sign calv i scale hcalv).fraction.getD [] =
      (List.range scale).reverse.map (placeChar calv) := by
  change (if 0 < scale then some ((List.range scale).reverse.map (placeChar calv)) else none).getD []
    = _
  by_cases hscale : 0 < scale
  · rw [if_pos hscale]
    rfl
  · obtain rfl : scale = 0 := Nat.eq_zero_of_not_pos hscale
    rfl

/-- The text spells the number in `calv`. -/
theorem spellChars_placesText (hi : calv.length ≤ i + 1) (hscale : scale ≤ i) :
    spellChars ((placesText sign calv i scale hcalv).digits ++
        (placesText sign calv i scale hcalv).fraction.getD []) =
      Nat.ofDigits 10 (calv.map UInt8.toNat) := by
  have hrange : List.range (i + 1) = List.range scale ++ List.range' scale (i + 1 - scale) := by
    have happend := @List.range'_append 0 scale (i + 1 - scale) 1
    rw [Nat.zero_add, Nat.one_mul, Nat.add_sub_cancel' (Nat.le_succ_of_le hscale)] at happend
    rw [List.range_eq_range', List.range_eq_range', happend]
  have hplace : ∀ j, digitOf (placeChar calv j) = (calv.map UInt8.toNat).getD j 0 := by
    intro j
    rw [placeChar, (digit_char (placeDigit_lt hcalv j)).2, List.getD_eq_getElem?_getD,
      List.getD_eq_getElem?_getD, List.getElem?_map]
    cases calv[j]? with
    | none => rfl
    | some c => rfl
  have hdigits : spellChars ((placesText sign calv i scale hcalv).digits ++
        (placesText sign calv i scale hcalv).fraction.getD []) =
      Nat.ofDigits 10 ((List.range (i + 1)).map (digitOf ∘ placeChar calv)) := by
    rw [placesText_digits, placesText_fraction, spellChars, ← List.map_append,
      ← List.reverse_append, ← hrange, List.map_map, List.map_reverse, spell, List.reverse_reverse]
  rw [hdigits, ← @ofDigits_range 10 (calv.map UInt8.toNat) (i + 1) (by rwa [List.length_map])]
  congr 1
  exact List.map_congr_left fun j _ ↦ hplace j

/-- There is room for all digits, if there is for the fraction. -/
theorem placesText_room (hlen : calv.length ≤ maxNumericDigits)
    (hi : i = max (calv.length - 1) scale) (hpos : 0 < calv.length) (hscale : scale ≤ calvSize) :
    (placesText sign calv i scale hcalv).significant.length + scale ≤ calvSize := by
  have hmax : maxNumericDigits < calvSize := by decide
  by_cases hplace : calv.length ≤ scale
  · -- The integer is the zero in front of the dot.
    have hi : i = scale := hi.trans (max_eq_right (by omega))
    have hdigits : (placesText sign calv i scale hcalv).digits = [digitZero] := by
      rw [placesText_digits, hi, Nat.add_sub_cancel_left, List.range'_one, List.reverse_singleton,
        List.map_singleton, placeChar, List.getD_eq_default _ _ hplace]
      rfl
    rw [NumericText.significant, hdigits]
    exact (Nat.zero_add scale).trans_le hscale
  · have hsuffix := (List.dropWhile_suffix (· = digitZero)
      (l := (placesText sign calv i scale hcalv).digits)).length_le
    have hlength : (placesText sign calv i scale hcalv).digits.length = i + 1 - scale := by
      rw [placesText_digits, List.length_map, List.length_reverse, List.length_range']
    rw [hlength] at hsuffix
    rw [NumericText.significant]
    omega

end Places

/-! ## There and back -/

/-- Without an overflow the struct denotes the text, as far as its digits are kept. -/
theorem NumericText.parsed_value (t : NumericText) (h : (parseToNumericStruct t.text).2 = false) :
    (parseToNumericStruct t.text).1.sign = t.sign.byte ∧
      (parseToNumericStruct t.text).1.scale.toInt = ((t.fraction.getD []).take t.room).length ∧
      (parseToNumericStruct t.text).1.value = (t.truncate t.room).value := by
  obtain ⟨hsign, hmagnitude, hscale, hflag⟩ := t.parseToNumericStruct_text
  rw [hflag, Bool.or_eq_false_iff, decide_eq_false_iff_not, decide_eq_false_iff_not, Nat.not_lt,
    Nat.not_le] at h
  obtain ⟨hfits, hlt⟩ := h
  have hkept : t.kept = t.significant ++ (t.fraction.getD []).take t.room := by
    rw [kept, List.take_of_length_le hfits]
  have hminus : t.sign.byte = 0 ↔ t.sign = .minus := by
    cases t.sign <;> decide
  refine ⟨hsign, hscale hfits, ?_⟩
  rw [SqlNumericStruct.value, hmagnitude, Nat.mod_eq_of_lt hlt, hkept, significant,
    spellChars_dropWhile, hscale hfits, zpow_natCast, hsign, value, truncate_fraction,
    truncate_sign]
  congr 1
  exact if_congr hminus rfl rfl

theorem NumericText.overflow_iff (t : NumericText) :
    (parseToNumericStruct t.text).2 = true ↔
      calvSize < t.significant.length ∨ 2 ^ 128 ≤ spellChars t.kept := by
  rw [t.parseToNumericStruct_text.2.2.2, Bool.or_eq_true, decide_eq_true_iff, decide_eq_true_iff]

namespace SqlNumericStruct

variable (ns : SqlNumericStruct)

/-- The number in `val` determines it. -/
theorem val_eq_of_magnitude {ns ns' : SqlNumericStruct} (h : ns.magnitude = ns'.magnitude) :
    ns.val = ns'.val := by
  have hlt : ∀ val : List UInt8, ∀ d ∈ val.map UInt8.toNat, d < 256 := by
    intro val d hd
    obtain ⟨v, -, rfl⟩ := List.mem_map.1 hd
    exact v.toNat_lt
  have hlength : (ns.val.map UInt8.toNat).length = (ns'.val.map UInt8.toNat).length := by
    rw [List.length_map, List.length_map, ns.val_length, ns'.val_length]
  exact List.map_injective_iff.2 (fun _ _ h ↦ UInt8.toNat_inj.1 h)
    (Nat.ofDigits_inj_of_len_eq (by decide) hlength (hlt _) (hlt _) h)

theorem magnitude_lt : ns.magnitude < 2 ^ 128 := by
  have hlt := @ofDigits_lt 256 (ns.val.map UInt8.toNat) fun d hd ↦ by
    obtain ⟨v, -, rfl⟩ := List.mem_map.1 hd
    exact v.toNat_lt
  rw [List.length_map, ns.val_length] at hlt
  exact hlt

/-- The result of parsing has the sign, the scale and the number of `ns`.  The sign of a value
that is not negative is 1. -/
def Restored (r : SqlNumericStruct × Bool) : Prop :=
  r.2 = false ∧ r.1.sign = (if ns.sign = 0 then 0 else 1) ∧ r.1.scale = ns.scale ∧
    r.1.val = ns.val

end SqlNumericStruct

variable {ns : SqlNumericStruct}

/-- What `ResolveNumericParam` prints. -/
theorem resolveNumericParam_eq (hprecision : ns.precision ≠ 0) (hscale : 0 ≤ ns.scale) :
    resolveNumericParam ns =
      let calv := numericDigits (min ns.precision.toNat maxNumericDigits - 1) ns.val
      some (placesText ns.sign calv (max (calv.length - 1) ns.scale.toInt.toNat)
        ns.scale.toInt.toNat (numericDigits_lt _ _)).text := by
  rw [resolveNumericParam, if_neg hprecision, if_neg (Int8.not_lt.2 hscale)]
  refine congrArg some ?_
  rw [NumericText.text, NumericText.fractionText, placesText_digits]
  congr 1
  · change _ = (if ns.sign = 0 then TextSign.minus else TextSign.none).bytes
    split <;> rfl
  · congr 1
    change _ = (if 0 < ns.scale.toInt.toNat then some _ else none).elim [] _
    split <;> rfl

/-- The text that is printed spells the number, with as many digits behind the dot as `scale`
says. -/
theorem resolveNumericParam_text (hprecision : ns.precision ≠ 0) (hscale : 0 ≤ ns.scale)
    (hmagnitude : ns.magnitude < 10 ^ ns.precision.toNat) :
    ∃ t : NumericText, resolveNumericParam ns = some t.text ∧
      t.sign = (if ns.sign = 0 then .minus else .none) ∧
      spellChars (t.digits ++ t.fraction.getD []) = ns.magnitude ∧
      ((t.fraction.getD []).length : ℤ) = ns.scale.toInt ∧
      (ns.scale.toInt ≤ calvSize →
        t.significant.length + (t.fraction.getD []).length ≤ calvSize) := by
  set calv := numericDigits (min ns.precision.toNat maxNumericDigits - 1) ns.val with hcalv
  set scale := ns.scale.toInt.toNat with hscaleNat
  have hscaleInt : (scale : ℤ) = ns.scale.toInt :=
    Int.toNat_of_nonneg (Int8.le_iff_toInt_le.1 hscale)
  have hpos : 0 < ns.precision.toNat :=
    Nat.pos_of_ne_zero fun h ↦ hprecision (UInt8.toNat_inj.1 h)
  have hplaces : min ns.precision.toNat maxNumericDigits - 1 + 1 =
      min ns.precision.toNat maxNumericDigits :=
    Nat.sub_add_cancel (Nat.le_min.2 ⟨hpos, by decide⟩)
  have hlength := numericDigits_length (min ns.precision.toNat maxNumericDigits - 1) ns.val
  rw [← hcalv, hplaces] at hlength
  have hfraction : ((placesText ns.sign calv (max (calv.length - 1) scale) scale
      (numericDigits_lt _ _)).fraction.getD []).length = scale := by
    rw [placesText_fraction, List.length_map, List.length_reverse, List.length_range]
  refine ⟨_, resolveNumericParam_eq hprecision hscale, rfl, ?_, ?_, fun hle ↦ ?_⟩
  · rw [spellChars_placesText _ (by omega) (le_max_right _ _)]
    refine ofDigits_numericDigits ?_
    rw [hplaces]
    rcases min_choice ns.precision.toNat maxNumericDigits with h | h
    · rw [h]
      exact hmagnitude
    · rw [h]
      exact ns.magnitude_lt.trans (by decide)
  · exact hfraction ▸ hscaleInt
  · rw [hfraction]
    exact placesText_room (numericDigits_lt _ ns.val) (hlength.2.trans (min_le_right _ _)) rfl
      hlength.1 (Int.ofNat_le.1 (hscaleInt.symm ▸ hle))

/-- A value comes back unless digits of its fraction are left out. -/
theorem restored_iff (hprecision : ns.precision ≠ 0) (hscale : 0 ≤ ns.scale)
    (hmagnitude : ns.magnitude < 10 ^ ns.precision.toNat) :
    ∃ text, resolveNumericParam ns = some text ∧
      (ns.Restored (parseToNumericStruct text) ↔ ns.scale.toInt ≤ calvSize) := by
  obtain ⟨t, htext, htsign, hspell, hfraction, hroom⟩ :=
    resolveNumericParam_text hprecision hscale hmagnitude
  refine ⟨t.text, htext, ?_⟩
  obtain ⟨hsign, hparsed, hscaleOf, hflag⟩ := t.parseToNumericStruct_text
  constructor
  · rintro ⟨hno, -, hrestored, -⟩
    have htaken := (t.parsed_value hno).2.1
    rw [hrestored, ← hfraction, List.length_take] at htaken
    have hle : t.room ≤ calvSize := Nat.sub_le _ _
    omega
  · intro hle
    have hroom := hroom hle
    have hall : (t.fraction.getD []).take t.room = t.fraction.getD [] := by
      refine List.take_of_length_le ?_
      rw [NumericText.room]
      omega
    have hkept : spellChars t.kept = ns.magnitude := by
      rw [NumericText.kept, hall, List.take_of_length_le (by omega), NumericText.significant,
        spellChars_dropWhile, hspell]
    rw [hkept] at hparsed hflag
    refine ⟨?_, ?_, ?_, ?_⟩
    · rw [hflag, decide_eq_false (by omega : ¬calvSize < t.significant.length),
        decide_eq_false (Nat.not_le.2 ns.magnitude_lt)]
      rfl
    · rw [hsign, htsign]
      split <;> rfl
    · rw [← Int8.toInt_inj, hscaleOf (by omega), hall, hfraction]
    · refine SqlNumericStruct.val_eq_of_magnitude ?_
      rw [hparsed, Nat.mod_eq_of_lt ns.magnitude_lt]

/-- A text is decoded exactly up to the digits that are kept, an overflow is noted exactly when a
digit of the integer is dropped or the kept number is too large, and a value comes back from its
own text unless it has more fraction digits than are kept, or a sign but no precision. -/
theorem parseToNumericStruct_decodes :
    (∀ t : NumericText,
      ((parseToNumericStruct t.text).2 = false →
        (parseToNumericStruct t.text).1.sign = t.sign.byte ∧
          (parseToNumericStruct t.text).1.scale.toInt = ((t.fraction.getD []).take t.room).length ∧
          (parseToNumericStruct t.text).1.value = (t.truncate t.room).value) ∧
      ((parseToNumericStruct t.text).2 = true ↔
        calvSize < t.significant.length ∨ 2 ^ 128 ≤ spellChars t.kept)) ∧
    ∀ ns : SqlNumericStruct, 0 ≤ ns.scale → ns.scale.toInt ≤ ns.precision.toNat →
      ns.magnitude < 10 ^ ns.precision.toNat →
        ∃ text, resolveNumericParam ns = some text ∧
          (ns.Restored (parseToNumericStruct text) ↔
            ns.scale.toInt ≤ calvSize ∧ (ns.precision = 0 → ns.sign ≠ 0)) := by
  refine ⟨fun t ↦ ⟨t.parsed_value, t.overflow_iff⟩, fun ns hscale hle hmagnitude ↦ ?_⟩
  by_cases hprecision : ns.precision = 0
  · have hzero : ns.precision.toNat = 0 := by
      rw [hprecision]
      rfl
    have hscale0 : ns.scale = 0 := by
      have hnonneg := Int8.le_iff_toInt_le.1 hscale
      rw [hzero] at hle
      exact Int8.toInt_inj.1 (le_antisymm hle hnonneg)
    have hval : ns.val = (parseToNumericStruct [digitZero]).1.val := by
      refine SqlNumericStruct.val_eq_of_magnitude ?_
      rw [hzero] at hmagnitude
      exact (Nat.lt_one_iff.1 hmagnitude).trans (by decide)
    refine ⟨[digitZero], if_pos hprecision, ?_⟩
    rw [SqlNumericStruct.Restored, hscale0, hval]
    constructor
    · rintro ⟨-, hsign, -⟩
      refine ⟨by decide, fun _ h ↦ ?_⟩
      rw [if_pos h] at hsign
      exact absurd hsign (by decide)
    · rintro ⟨-, hsign⟩
      rw [if_neg (hsign hprecision)]
      exact ⟨by decide, by decide, by decide, rfl⟩
  · obtain ⟨text, htext, hrestored⟩ := restored_iff hprecision hscale hmagnitude
    exact ⟨text, htext, hrestored.trans ⟨fun h ↦ ⟨h, fun h0 ↦ absurd h0 hprecision⟩, And.left⟩⟩

/-- A value of 16 bytes. -/
def numericOf (precision : UInt8) (scale : Int8) (sign low : UInt8) : SqlNumericStruct :=
  ⟨precision, scale, sign, low :: List.replicate 15 0, rfl⟩

/-- `-0.05`. -/
theorem parseToNumericStruct_decodes_fraction :
    0 ≤ (numericOf 3 2 0 5).scale ∧ (numericOf 3 2 0 5).magnitude < 10 ^ 3 ∧
      ∃ text, resolveNumericParam (numericOf 3 2 0 5) = some text ∧
        ((numericOf 3 2 0 5).Restored (parseToNumericStruct text) ↔
          (numericOf 3 2 0 5).scale.toInt ≤ calvSize ∧
            ((numericOf 3 2 0 5).precision = 0 → (numericOf 3 2 0 5).sign ≠ 0)) :=
  ⟨by decide, by decide,
    parseToNumericStruct_decodes.2 (numericOf 3 2 0 5) (by decide) (by decide) (by decide)⟩

/-- A fraction of 49 digits loses its last one, and without precision the sign is lost. -/
theorem parseToNumericStruct_loses :
    (0 ≤ (numericOf 49 49 1 1).scale ∧
      (numericOf 49 49 1 1).scale.toInt ≤ (numericOf 49 49 1 1).precision.toNat ∧
      (numericOf 49 49 1 1).magnitude < 10 ^ (numericOf 49 49 1 1).precision.toNat ∧
      (resolveNumericParam (numericOf 49 49 1 1)).map (fun text ↦
          ((parseToNumericStruct text).1.scale, (parseToNumericStruct text).1.val)) =
        some (48, List.replicate 16 0)) ∧
    (0 ≤ (numericOf 0 0 0 0).scale ∧
      (numericOf 0 0 0 0).scale.toInt ≤ (numericOf 0 0 0 0).precision.toNat ∧
      (numericOf 0 0 0 0).magnitude < 10 ^ (numericOf 0 0 0 0).precision.toNat ∧
      (resolveNumericParam (numericOf 0 0 0 0)).map (fun text ↦
          (parseToNumericStruct text).1.sign) = some 1) := by
  decide +kernel

/-! ## Printing -/

/-- The digits fit into `calv`, none is read below it, and the text denotes the value. -/
def Prints (ns : SqlNumericStruct) : Prop :=
  (numericDigits (min ns.precision.toNat maxNumericDigits - 1) ns.val).length ≤ maxNumericDigits ∧
    ∃ t : NumericText, resolveNumericParam ns = some t.text ∧ t.value = ns.value

/-- A value is printed unless it has a negative scale. -/
theorem resolveNumericParam_prints_iff (ns : SqlNumericStruct)
    (hmagnitude : ns.magnitude < 10 ^ ns.precision.toNat) :
    Prints ns ↔ 0 ≤ ns.scale ∨ ns.precision = 0 := by
  have hdigits : (numericDigits (min ns.precision.toNat maxNumericDigits - 1) ns.val).length ≤
      maxNumericDigits := by
    have hlength := numericDigits_length (min ns.precision.toNat maxNumericDigits - 1) ns.val
    have hmax : 1 ≤ maxNumericDigits := by decide
    omega
  by_cases hprecision : ns.precision = 0
  · refine iff_of_true ⟨hdigits, ⟨.none, [digitZero], none, ?_, ?_⟩, if_pos hprecision, ?_⟩
      (Or.inr hprecision)
    · intro c hc
      rw [List.mem_singleton.1 hc]
      decide
    · intro c hc
      cases hc
    · rw [hprecision] at hmagnitude
      have hzero : ns.magnitude = 0 := Nat.lt_one_iff.1 hmagnitude
      have hspell : spellChars ([digitZero] ++ (none : Option (List UInt8)).getD []) = 0 := by
        decide
      rw [SqlNumericStruct.value, hzero, NumericText.value, hspell, Nat.cast_zero, zero_div,
        zero_div, mul_zero, mul_zero]
  constructor
  · rintro ⟨-, t, htext, -⟩
    by_contra hno
    rw [not_or, Int8.not_le] at hno
    rw [resolveNumericParam, if_neg hprecision, if_pos hno.1] at htext
    cases htext
  · intro hscale
    obtain ⟨t, htext, hsign, hspell, hfraction, -⟩ :=
      resolveNumericParam_text hprecision (hscale.resolve_right hprecision) hmagnitude
    refine ⟨hdigits, t, htext, ?_⟩
    rw [NumericText.value, SqlNumericStruct.value, hspell, hsign, ← hfraction, zpow_natCast]
    congr 1
    split <;> rfl

/-- `-0.05`. -/
theorem resolveNumericParam_prints_fraction :
    (numericOf 3 2 0 5).magnitude < 10 ^ (numericOf 3 2 0 5).precision.toNat ∧
      (Prints (numericOf 3 2 0 5) ↔
        0 ≤ (numericOf 3 2 0 5).scale ∨ (numericOf 3 2 0 5).precision = 0) :=
  ⟨by decide, resolveNumericParam_prints_iff (numericOf 3 2 0 5) (by decide)⟩

/-- 5 thousand. -/
theorem resolveNumericParam_not_prints :
    (numericOf 1 (-3) 1 5).magnitude < 10 ^ (numericOf 1 (-3) 1 5).precision.toNat ∧
      resolveNumericParam (numericOf 1 (-3) 1 5) = none ∧ ¬Prints (numericOf 1 (-3) 1 5) := by
  refine ⟨by decide, by decide, ?_⟩
  rintro ⟨-, t, htext, -⟩
  cases htext

end PsqlOdbc
