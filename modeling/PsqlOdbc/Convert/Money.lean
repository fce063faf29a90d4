import Mathlib.Data.List.Infix
import PsqlOdbc.Convert.Numeric
import PsqlOdbc.Convert.QueryParse
import PsqlOdbc.Lib.CString
import PsqlOdbc.Lib.Stores

/-!
# Money (`convert.c`)

`convert_money` takes the digits and the sign out of the text of an amount.  Which of a period and a
comma is the decimal separator is not known: it is the one whose first place is the last, if that is
at most two places before the last digit.  A text is converted if the characters around the digits
leave that decision to the separators between them, `converted_iff`.
-/

namespace PsqlOdbc

open Lib

/-! ## `convert_money` -/

/-- What the first loop finds; a negative place is none. -/
structure MoneyPlaces where
  numIn : Int
  periodIn : Int
  commaIn : Int
  deriving DecidableEq, Repr

/-- The first loop of `convert_money`, from the place `i` on. -/
def moneyPlaces : List UInt8 → Nat → MoneyPlaces → MoneyPlaces
  | [], _, p => p
  | c :: s, i, p =>
    moneyPlaces s (i + 1) <|
      if c = decimalDot then if p.periodIn < 0 then { p with periodIn := i } else p
      else if c = comma then if p.commaIn < 0 then { p with commaIn := i } else p
      else if isDigit c then { p with numIn := i }
      else p

/-- `decp`. -/
def decimalPoint (p : MoneyPlaces) : UInt8 :=
  if p.periodIn > p.commaIn then
    if p.periodIn ≥ p.numIn - 2 then decimalDot else 0
  else if p.commaIn ≥ 0 ∧ p.commaIn ≥ p.numIn - 2 then comma
  else 0

/-- The second loop of `convert_money`, with `out` characters stored, and the terminator. -/
def moneyLoop (decp : UInt8) (soutmax : Nat) :
    List UInt8 → Nat → List UInt8 → Option (List UInt8)
  | [], out, sout => storeAll sout out [0]
  | c :: s, out, sout =>
    if soutmax ≤ out + 1 then storeAll sout out [0]
    else if c = leftParen ∨ c = hyphen then
      (storeAll sout out [hyphen]).bind (moneyLoop decp soutmax s (out + 1))
    else if isDigit c then (storeAll sout out [c]).bind (moneyLoop decp soutmax s (out + 1))
    else if c = decp then
      (storeAll sout out [decimalDot]).bind (moneyLoop decp soutmax s (out + 1))
    else moneyLoop decp soutmax s out sout

/-- `convert_money`: the array with the text, unless it is left. -/
def convertMoney (s sout : List UInt8) : Option (List UInt8) :=
  moneyLoop (decimalPoint (moneyPlaces s 0 ⟨-1, -1, -1⟩)) sout.length s 0 sout

/-! ## Amounts -/

/-- The sign of an amount is shown by the characters in front of its digits and behind them, among
them those of a currency symbol, which may be any. -/
inductive SignShown : Bool → List UInt8 → List UInt8 → Prop
  | positive (before after) : SignShown false before after
  | minusBefore (s t after) : SignShown true (s ++ hyphen :: t) after
  | minusBehind (before s t) : SignShown true before (s ++ hyphen :: t)
  | parens (s t) : SignShown true (leftParen :: s) (t ++ [rightParen])

/-- The text of an amount. -/
structure MoneyText where
  /-- The decimal separator is the period, and groups are separated by commas, not the other way
  round. -/
  dotDecimal : Bool
  negative : Bool
  before : List UInt8
  first : List UInt8
  /-- The groups of digits behind the first one. -/
  groups : List (List UInt8)
  fraction : List UInt8
  after : List UInt8
  shown : SignShown negative before after
  zero_notMem : 0 ∉ before ++ after
  first_ne : first ≠ []
  first_digits : first.all isDigit = true
  groups_three : ∀ group ∈ groups, group.length = 3 ∧ group.all isDigit = true
  fraction_two : fraction.length ≤ 2
  fraction_digits : fraction.all isDigit = true

namespace MoneyText

variable (m : MoneyText)

def decimalSeparator : UInt8 := if m.dotDecimal then decimalDot else comma

def groupSeparator : UInt8 := if m.dotDecimal then comma else decimalDot

/-- The digits of the integer part with the separators between groups. -/
def integer : List UInt8 := m.first ++ m.groups.flatMap (m.groupSeparator :: ·)

/-- The digits with their separators. -/
def number : List UInt8 :=
  m.integer ++ if m.fraction = [] then [] else m.decimalSeparator :: m.fraction

def text : List UInt8 := m.before ++ (m.number ++ m.after)

/-- The minus sign of the plain text. -/
def signText : List UInt8 := if m.negative then [hyphen] else []

/-- The plain text of the digits. -/
def plainNumber : List UInt8 :=
  m.first ++ m.groups.flatten ++ if m.fraction = [] then [] else decimalDot :: m.fraction

/-- The plain decimal text. -/
def plain : List UInt8 := m.signText ++ m.plainNumber

/-- The amount is converted into any array, as far as there is room. -/
def Converted : Prop :=
  ∀ sout : List UInt8, sout ≠ [] →
    ∃ rest, convertMoney m.text sout = some (m.plain.take (sout.length - 1) ++ 0 :: rest)

end MoneyText

/-! ## The second loop -/

/-- What a character of the text becomes. -/
def moneyChar (decp c : UInt8) : Option UInt8 :=
  if c = leftParen ∨ c = hyphen then some hyphen
  else if isDigit c then some c
  else if c = decp then some decimalDot
  else none

section

variable {decp : UInt8} {s done cells : List UInt8}

/-- A character is stored where there is room for the terminator behind it. -/
theorem moneyLoop_store (x : UInt8) (h : 1 < cells.length) :
    ∃ cells', cells.length = cells'.length + 1 ∧
      (storeAll (done ++ cells) done.length [x]).bind
          (moneyLoop decp (done.length + cells.length) s (done.length + 1)) =
        moneyLoop decp ((done ++ [x]).length + cells'.length) s (done ++ [x]).length
          (done ++ [x] ++ cells') := by
  have hroom : [x].length ≤ cells.length := Nat.le_of_lt h
  refine ⟨cells.drop 1, ?_, ?_⟩
  · rw [List.length_drop]
    omega
  · have hlen : (done ++ [x]).length + (cells.drop 1).length = done.length + cells.length := by
      rw [List.length_append, List.length_drop, List.length_singleton]
      omega
    rw [storeAll_append hroom, Option.bind_some, hlen, List.append_assoc, List.length_append]
    rfl

/-- The array holds what the text becomes, as far as there is room. -/
theorem moneyLoop_eq (h : 0 < cells.length) :
    ∃ rest, moneyLoop decp (done.length + cells.length) s done.length (done ++ cells) =
      some (done ++ ((s.filterMap (moneyChar decp)).take (cells.length - 1) ++ 0 :: rest)) := by
  have hroom : [(0 : UInt8)].length ≤ cells.length := h
  induction s generalizing done cells with
  | nil =>
    refine ⟨cells.drop 1, ?_⟩
    rw [moneyLoop, storeAll_append hroom, List.filterMap_nil, List.take_nil]
    rfl
  | cons c s ih =>
    rw [moneyLoop]
    by_cases hfull : cells.length = 1
    · refine ⟨cells.drop 1, ?_⟩
      rw [if_pos (by omega), storeAll_append hroom, hfull, Nat.sub_self, List.take_zero]
      rfl
    · have hstore : ∀ x, moneyChar decp c = some x →
          ∃ rest, (storeAll (done ++ cells) done.length [x]).bind
              (moneyLoop decp (done.length + cells.length) s (done.length + 1)) =
            some (done ++ (((c :: s).filterMap (moneyChar decp)).take (cells.length - 1) ++
              0 :: rest)) := by
        intro x hx
        obtain ⟨cells', hlen, hgo⟩ := @moneyLoop_store decp s done cells x (by omega)
        have hpos : 0 < cells'.length := by omega
        obtain ⟨rest, hrest⟩ := @ih (done ++ [x]) cells' hpos hpos
        refine ⟨rest, ?_⟩
        rw [hgo, hrest, List.filterMap_cons_some hx, hlen, Nat.add_sub_cancel,
          ← Nat.sub_add_cancel hpos, List.take_succ_cons, List.append_assoc]
        rfl
      rw [if_neg (by omega)]
      by_cases hminus : c = leftParen ∨ c = hyphen
      · rw [if_pos hminus]
        exact hstore hyphen (if_pos hminus)
      · rw [if_neg hminus]
        by_cases hdigit : isDigit c = true
        · rw [if_pos hdigit]
          exact hstore c (by rw [moneyChar, if_neg hminus, if_pos hdigit])
        · rw [if_neg hdigit]
          by_cases hpoint : c = decp
          · rw [if_pos hpoint]
            exact hstore decimalDot (by
              rw [moneyChar, if_neg hminus, if_neg hdigit, if_pos hpoint])
          · have hnone : moneyChar decp c = none := by
              rw [moneyChar, if_neg hminus, if_neg hdigit, if_neg hpoint]
            rw [if_neg hpoint, List.filterMap_cons_none hnone]
            exact ih h hroom

end

/-! ## The first loop -/

/-- A separator and the other one. -/
def Separators (s s' : UInt8) : Prop := s = decimalDot ∧ s' = comma ∨ s = comma ∧ s' = decimalDot

/-- The first place of a separator. -/
def MoneyPlaces.placeOf (s : UInt8) (p : MoneyPlaces) : Int :=
  if s = decimalDot then p.periodIn else p.commaIn

/-- What the first loop finds in a text. -/
def textPlaces (t : List UInt8) : MoneyPlaces := moneyPlaces t 0 ⟨-1, -1, -1⟩

section

variable {s s' c : UInt8} {t u v : List UInt8} {p : MoneyPlaces} {i n : Nat}

theorem Separators.symm (h : Separators s s') : Separators s' s :=
  h.elim (fun h ↦ Or.inr h.symm) fun h ↦ Or.inl h.symm

theorem Separators.ne (h : Separators s s') : s ≠ s' := by
  rcases h with ⟨rfl, rfl⟩ | ⟨rfl, rfl⟩ <;> decide

theorem Separators.not_isDigit (h : Separators s s') : isDigit s = false := by
  rcases h with ⟨rfl, -⟩ | ⟨rfl, -⟩ <;> decide

theorem moneyPlaces_append (u v : List UInt8) (i : Nat) (p : MoneyPlaces) :
    moneyPlaces (u ++ v) i p = moneyPlaces v (i + u.length) (moneyPlaces u i p) := by
  induction u generalizing i p with
  | nil => rfl
  | cons c u ih =>
    rw [List.cons_append, moneyPlaces, ih, List.length_cons, Nat.add_right_comm, moneyPlaces,
      Nat.add_assoc]

/-- The place of a separator that has been found, or does not come, is kept. -/
theorem placeOf_moneyPlaces (hs : Separators s s') (h : s ∉ t ∨ 0 ≤ p.placeOf s) :
    (moneyPlaces t i p).placeOf s = p.placeOf s := by
  induction t generalizing i p with
  | nil => rfl
  | cons c t ih =>
    have hstep : ∀ q : MoneyPlaces, q.placeOf s = p.placeOf s →
        (moneyPlaces t (i + 1) q).placeOf s = p.placeOf s := by
      intro q hq
      rw [ih, hq]
      exact h.imp List.not_mem_of_not_mem_cons fun h ↦ by rwa [hq]
    have hne : c = s → 0 ≤ p.placeOf s := by
      rintro rfl
      exact h.resolve_left fun h ↦ h List.mem_cons_self
    rw [moneyPlaces]
    apply hstep
    rcases hs with ⟨rfl, -⟩ | ⟨rfl, -⟩
    · split
      · next hc =>
        have hfound : ¬p.periodIn < 0 := Int.not_lt.2 (hne hc)
        rw [if_neg hfound]
      · split
        · split <;> rfl
        · split <;> rfl
    · split
      · split <;> rfl
      · split
        · next hc =>
          have hfound : ¬p.commaIn < 0 := Int.not_lt.2 (hne hc)
          rw [if_neg hfound]
        · split <;> rfl

theorem placeOf_textPlaces_of_notMem (hs : Separators s s') (h : s ∉ t) :
    (textPlaces t).placeOf s = -1 := by
  rw [textPlaces, placeOf_moneyPlaces hs (Or.inl h), MoneyPlaces.placeOf]
  split <;> rfl

theorem placeOf_textPlaces (hs : Separators s s') (h : s ∉ u) :
    (textPlaces (u ++ s :: v)).placeOf s = u.length := by
  have hu : (moneyPlaces u 0 ⟨-1, -1, -1⟩).placeOf s = -1 := placeOf_textPlaces_of_notMem hs h
  rw [textPlaces, moneyPlaces_append, Nat.zero_add, moneyPlaces]
  generalize moneyPlaces u 0 ⟨-1, -1, -1⟩ = q at hu ⊢
  rcases hs with ⟨rfl, -⟩ | ⟨rfl, -⟩
  · rw [MoneyPlaces.placeOf, if_pos rfl] at hu
    have hfound : (⟨q.numIn, u.length, q.commaIn⟩ : MoneyPlaces).placeOf decimalDot = u.length := rfl
    rw [if_pos rfl, hu, if_pos (by decide), placeOf_moneyPlaces (Or.inl ⟨rfl, rfl⟩), hfound]
    exact Or.inr (Int.natCast_nonneg _)
  · rw [MoneyPlaces.placeOf, if_neg (by decide)] at hu
    have hfound : (⟨q.numIn, q.periodIn, u.length⟩ : MoneyPlaces).placeOf comma = u.length := rfl
    rw [if_neg (by decide), if_pos rfl, hu, if_pos (by decide),
      placeOf_moneyPlaces (Or.inr ⟨rfl, rfl⟩), hfound]
    exact Or.inr (Int.natCast_nonneg _)

/-- The first place is below a bound exactly if the separator is among so many characters. -/
theorem placeOf_lt_iff (hs : Separators s s') (hmem : s ∈ t) :
    (textPlaces t).placeOf s < n ↔ s ∈ t.take n := by
  obtain ⟨u, v, rfl, hu⟩ := List.eq_append_cons_of_mem hmem
  rw [placeOf_textPlaces hs hu, Int.ofNat_lt, List.take_append, List.mem_append,
    or_iff_right (fun h ↦ hu (List.mem_of_mem_take h))]
  constructor
  · intro hlt
    rw [← Nat.sub_pos_iff_lt] at hlt
    rw [← Nat.sub_add_cancel hlt, List.take_succ_cons]
    exact List.mem_cons_self
  · intro h
    refine Nat.lt_of_not_le fun hle ↦ ?_
    rw [Nat.sub_eq_zero_of_le hle] at h
    cases h

theorem placeOf_nonneg_iff (hs : Separators s s') : 0 ≤ (textPlaces t).placeOf s ↔ s ∈ t := by
  by_cases hmem : s ∈ t
  · obtain ⟨u, v, rfl, hu⟩ := List.eq_append_cons_of_mem hmem
    rw [placeOf_textPlaces hs hu]
    exact iff_of_true (Int.natCast_nonneg _) hmem
  · rw [placeOf_textPlaces_of_notMem hs hmem]
    exact iff_of_false (by decide) hmem

theorem neg_one_le_placeOf (hs : Separators s s') : -1 ≤ (textPlaces t).placeOf s := by
  by_cases hmem : s ∈ t
  · obtain ⟨u, v, rfl, hu⟩ := List.eq_append_cons_of_mem hmem
    rw [placeOf_textPlaces hs hu]
    omega
  · rw [placeOf_textPlaces_of_notMem hs hmem]

theorem numIn_moneyPlaces (h : t.all (isDigit · = false) = true) :
    (moneyPlaces t i p).numIn = p.numIn := by
  induction t generalizing i p with
  | nil => rfl
  | cons c t ih =>
    rw [List.all_cons, Bool.and_eq_true, decide_eq_true_eq] at h
    rw [moneyPlaces, ih h.2, h.1]
    split
    · split <;> rfl
    · split
      · split <;> rfl
      · rfl

theorem numIn_textPlaces (hc : isDigit c = true) (hv : v.all (isDigit · = false) = true) :
    (textPlaces (u ++ c :: v)).numIn = u.length := by
  have hdot : c ≠ decimalDot := by
    rintro rfl
    exact absurd hc (by decide)
  have hcomma : c ≠ comma := by
    rintro rfl
    exact absurd hc (by decide)
  rw [textPlaces, moneyPlaces_append, moneyPlaces, numIn_moneyPlaces hv, if_neg hdot,
    if_neg hcomma, if_pos hc, Nat.zero_add]

/-- The separators are not found at one place. -/
theorem placeOf_ne (hs : Separators s s') (h : 0 ≤ (textPlaces t).placeOf s) :
    (textPlaces t).placeOf s' ≠ (textPlaces t).placeOf s := by
  have hfound : ∀ {r r'}, Separators r r' → 0 ≤ (textPlaces t).placeOf r →
      t[((textPlaces t).placeOf r).toNat]? = some r := by
    intro r r' hr hpos
    by_cases hmem : r ∈ t
    · obtain ⟨u, v, rfl, hu⟩ := List.eq_append_cons_of_mem hmem
      rw [placeOf_textPlaces hr hu, Int.toNat_natCast, getElem?_length_append]
    · rw [placeOf_textPlaces_of_notMem hr hmem] at hpos
      exact absurd hpos (by decide)
  intro heq
  have hs' := hfound hs.symm (heq ▸ h)
  rw [heq, hfound hs h] at hs'
  exact hs.ne (Option.some_inj.1 hs')

/-- The separator that is taken for the decimal one. -/
theorem decimalPoint_eq_iff (hs : Separators s s') (h' : -1 ≤ p.placeOf s')
    (hne : 0 ≤ p.placeOf s → p.placeOf s' ≠ p.placeOf s) :
    decimalPoint p = s ↔ p.placeOf s' < p.placeOf s ∧ p.numIn - 2 ≤ p.placeOf s := by
  rw [decimalPoint]
  rcases hs with ⟨rfl, rfl⟩ | ⟨rfl, rfl⟩
  · have hdot : p.placeOf decimalDot = p.periodIn := rfl
    have hcomma : p.placeOf comma = p.commaIn := rfl
    rw [hdot, hcomma]
    split
    · next hlt =>
      rw [and_iff_right hlt]
      split
      · next hnear => exact iff_of_true rfl hnear
      · next hnear => exact iff_of_false (by decide) hnear
    · next hle =>
      refine iff_of_false ?_ fun h ↦ hle h.1
      split <;> decide
  · have hdot : p.placeOf decimalDot = p.periodIn := rfl
    have hcomma : p.placeOf comma = p.commaIn := rfl
    rw [hdot, hcomma] at hne
    rw [hdot] at h' ⊢
    rw [hcomma]
    split
    · next hlt =>
      refine iff_of_false ?_ fun h ↦ Int.lt_asymm hlt h.1
      split <;> decide
    · next hle =>
      split
      · next hnear =>
        have hlt := lt_of_le_of_ne (Int.not_lt.1 hle) (hne hnear.1)
        exact iff_of_true rfl ⟨hlt, hnear.2⟩
      · next hnear => exact iff_of_false (by decide) fun h ↦ hnear ⟨by omega, h.2⟩

end

/-! ## What becomes of the characters -/

/-- The characters that become a minus sign. -/
def isMinusMark (c : UInt8) : Bool := c = leftParen || c = hyphen

/-- The characters that are taken for a decimal separator: one of the two, or none. -/
def PointChar (d : UInt8) : Prop := d = 0 ∨ d = decimalDot ∨ d = comma

section

variable {d c x : UInt8} {t : List UInt8}

theorem pointChar_decimalPoint (p : MoneyPlaces) : PointChar (decimalPoint p) := by
  rw [decimalPoint, PointChar]
  split
  · split
    · exact Or.inr (Or.inl rfl)
    · exact Or.inl rfl
  · split
    · exact Or.inr (Or.inr rfl)
    · exact Or.inl rfl

theorem moneyChar_mark (h : isMinusMark c = true) : moneyChar d c = some hyphen := by
  rw [isMinusMark, Bool.or_eq_true, decide_eq_true_eq, decide_eq_true_eq] at h
  rw [moneyChar, if_pos h]

theorem moneyChar_digit (h : isDigit c = true) : moneyChar d c = some c := by
  have hmark : ¬(c = leftParen ∨ c = hyphen) := by
    rintro (rfl | rfl) <;> exact absurd h (by decide)
  rw [moneyChar, if_neg hmark, if_pos h]

theorem moneyChar_point (hd : PointChar d) : moneyChar d d = some decimalDot := by
  rcases hd with rfl | rfl | rfl <;> rfl

theorem moneyChar_other (hmark : isMinusMark c = false) (hdigit : isDigit c = false) (h : c ≠ d) :
    moneyChar d c = none := by
  rw [isMinusMark, Bool.or_eq_false_iff, decide_eq_false_iff_not, decide_eq_false_iff_not] at hmark
  rw [moneyChar, if_neg (not_or.2 hmark), hdigit, if_neg Bool.false_ne_true, if_neg h]

theorem moneyChar_separator {s s' : UInt8} (hs : Separators s s') (h : s ≠ d) :
    moneyChar d s = none := by
  refine moneyChar_other ?_ hs.not_isDigit h
  rcases hs with ⟨rfl, -⟩ | ⟨rfl, -⟩ <;> rfl

/-- A digit in the output is one of the text. -/
theorem isDigit_moneyChar (h : moneyChar d c = some x) (hx : isDigit x = true) :
    isDigit c = true ∧ x = c := by
  rw [moneyChar] at h
  split at h
  · cases h
    exact absurd hx (by decide)
  · split at h
    · next hc =>
      cases h
      exact ⟨hc, rfl⟩
    · split at h
      · cases h
        exact absurd hx (by decide)
      · cases h

theorem moneyChar_ne_zero (h : moneyChar d c = some x) : x ≠ 0 := by
  rw [moneyChar] at h
  split at h
  · cases h
    decide
  · split at h
    · next hc =>
      cases h
      rintro rfl
      exact absurd hc (by decide)
    · split at h
      · cases h
        decide
      · cases h

theorem filter_moneyChar (d : UInt8) (t : List UInt8) :
    (t.filterMap (moneyChar d)).filter isDigit = t.filter isDigit := by
  induction t with
  | nil => rfl
  | cons c t ih =>
    by_cases hdigit : isDigit c = true
    · rw [List.filterMap_cons_some (moneyChar_digit hdigit), List.filter_cons_of_pos hdigit,
        List.filter_cons_of_pos hdigit, ih]
    · rw [List.filter_cons_of_neg hdigit, ← ih]
      cases h : moneyChar d c with
      | none => rw [List.filterMap_cons_none h]
      | some x =>
        have hx : ¬isDigit x = true := fun hx ↦ hdigit (isDigit_moneyChar h hx).1
        rw [List.filterMap_cons_some h, List.filter_cons_of_neg hx]

/-- Digits are kept. -/
theorem filterMap_digits (h : t.all isDigit = true) : t.filterMap (moneyChar d) = t := by
  rw [List.all_eq_true] at h
  induction t with
  | nil => rfl
  | cons c t ih =>
    rw [List.filterMap_cons_some (moneyChar_digit (h c List.mem_cons_self)),
      ih fun x hx ↦ h x (List.mem_cons_of_mem _ hx)]

/-- What becomes of the characters around the digits. -/
theorem filterMap_eq_replicate_iff (hd : PointChar d) (k : Nat) :
    t.filterMap (moneyChar d) = List.replicate k hyphen ↔
      (∀ c ∈ t, isDigit c = false) ∧ (t.filter isMinusMark).length = k ∧ d ∉ t := by
  have hmark : isMinusMark d = false := by rcases hd with rfl | rfl | rfl <;> rfl
  induction t generalizing k with
  | nil =>
    rw [List.filterMap_nil, List.filter_nil, List.length_nil, eq_comm, List.replicate_eq_nil_iff,
      eq_comm, and_iff_left List.not_mem_nil, and_iff_right (List.forall_mem_nil _)]
  | cons c t ih =>
    rw [List.forall_mem_cons, List.mem_cons, not_or]
    by_cases hc : isDigit c = true
    · rw [List.filterMap_cons_some (moneyChar_digit hc)]
      refine iff_of_false ?_ fun h ↦ absurd h.1.1 (by rw [hc]; decide)
      intro h
      have hhyphen := (List.eq_replicate_iff.1 h).2 c List.mem_cons_self
      rw [hhyphen] at hc
      exact absurd hc (by decide)
    · rw [and_iff_right (Bool.eq_false_iff.2 hc)]
      by_cases hm : isMinusMark c = true
      · have hne : d ≠ c := by
          rintro rfl
          exact absurd hm (by rw [hmark]; decide)
        rw [List.filterMap_cons_some (moneyChar_mark hm), List.filter_cons_of_pos hm,
          List.length_cons, and_iff_right hne]
        cases k with
        | zero => exact iff_of_false (by simp) fun h ↦ Nat.succ_ne_zero _ h.2.1
        | succ k =>
          rw [List.replicate_succ, List.cons_inj_right, Nat.succ_inj]
          exact ih k
      · rw [List.filter_cons_of_neg hm]
        by_cases hdc : d = c
        · subst hdc
          rw [List.filterMap_cons_some (moneyChar_point hd)]
          refine iff_of_false ?_ fun h ↦ h.2.2.1 rfl
          intro h
          exact absurd ((List.eq_replicate_iff.1 h).2 _ List.mem_cons_self) (by decide)
        · rw [List.filterMap_cons_none (moneyChar_other (Bool.eq_false_iff.2 hm)
            (Bool.eq_false_iff.2 hc) (Ne.symm hdc)), and_iff_right hdc]
          exact ih k

end

/-! ## When an amount is converted -/

namespace MoneyText

variable (m : MoneyText)

/-- The separator that `convert_money` takes for the decimal one. -/
def point : UInt8 := decimalPoint (textPlaces m.text)

/-- The characters around the digits show the sign, and nothing else: there are no digits among them,
and no parenthesis or minus sign but the one in front of the digits of a negative amount. -/
def SignOnly : Prop :=
  (∀ c ∈ m.before ++ m.after, isDigit c = false) ∧
    (m.before.filter isMinusMark).length = (if m.negative then 1 else 0) ∧
    (m.after.filter isMinusMark).length = 0

/-- The separators tell which of them is the decimal one.  With a fraction, the decimal separator is
nowhere else, and the other one is not only behind it.  Without a fraction, either one is first seen
more than two places before the last digit. -/
def SeparatorsTell : Prop :=
  if m.fraction = [] then
    ∀ s, s = m.decimalSeparator ∨ s = m.groupSeparator → s ∈ m.text →
      s ∈ m.text.take (m.before.length + m.number.length - 3)
  else
    m.decimalSeparator ∉ m.before ++ m.after ∧
      (m.groupSeparator ∈ m.after → m.groupSeparator ∈ m.before ++ m.integer)

theorem separators : Separators m.decimalSeparator m.groupSeparator := by
  rw [decimalSeparator, groupSeparator]
  split
  · exact Or.inl ⟨rfl, rfl⟩
  · exact Or.inr ⟨rfl, rfl⟩

theorem pointChar_point : PointChar m.point := pointChar_decimalPoint _

variable {m}

theorem flatten_digits : m.groups.flatten.all isDigit = true := by
  rw [List.all_flatten, List.all_eq_true]
  exact fun group h ↦ (m.groups_three group h).2

/-- What becomes of the integer part if the group separator is left out. -/
theorem filterMap_integer {d : UInt8} (h : m.groupSeparator ≠ d) :
    m.integer.filterMap (moneyChar d) = m.first ++ m.groups.flatten := by
  rw [integer, List.filterMap_append, filterMap_digits m.first_digits]
  congr 1
  have hthree := m.groups_three
  generalize m.groups = groups at hthree
  induction groups with
  | nil => rfl
  | cons group groups ih =>
    rw [List.flatMap_cons, List.cons_append, List.filterMap_cons_none
      (moneyChar_separator m.separators.symm h), List.filterMap_append,
      filterMap_digits (hthree group List.mem_cons_self).2, List.flatten_cons,
      ih fun g hg ↦ hthree g (List.mem_cons_of_mem _ hg)]

/-- The last character of a nonempty text of digits in a longer one. -/
theorem exists_last_digit {s t : List UInt8} (hne : t ≠ []) (h : t.all isDigit = true) :
    ∃ u c, s ++ t = u ++ [c] ∧ isDigit c = true :=
  ⟨s ++ t.dropLast, t.getLast hne, by rw [List.append_assoc, List.dropLast_append_getLast],
    List.all_eq_true.1 h _ (List.getLast_mem hne)⟩

/-- The integer part ends with a digit, with its separators and without. -/
theorem integer_last : (∃ u c, m.integer = u ++ [c] ∧ isDigit c = true) ∧
    ∃ u c, m.first ++ m.groups.flatten = u ++ [c] ∧ isDigit c = true := by
  rw [integer]
  rcases List.eq_nil_or_concat m.groups with hnil | ⟨groups, group, hgroups⟩
  · rw [hnil, List.flatMap_nil, List.flatten_nil, List.append_nil]
    have hlast := exists_last_digit (s := []) m.first_ne m.first_digits
    exact ⟨hlast, hlast⟩
  · rw [List.concat_eq_append] at hgroups
    have hthree := m.groups_three group (by rw [hgroups]; simp)
    have hne : group ≠ [] := by
      rintro rfl
      exact absurd hthree.1 (by decide)
    rw [hgroups, List.flatMap_append, List.flatten_append, List.flatMap_singleton,
      List.flatten_singleton, ← List.append_assoc, ← List.append_assoc, List.append_cons]
    exact ⟨exists_last_digit hne hthree.2, exists_last_digit hne hthree.2⟩

/-- So do the digits as a whole, with the fraction. -/
theorem fraction_last {t : List UInt8} {s : UInt8} (ht : ∃ u c, t = u ++ [c] ∧ isDigit c = true) :
    ∃ u c, (t ++ if m.fraction = [] then [] else s :: m.fraction) = u ++ [c] ∧ isDigit c = true := by
  split
  · rwa [List.append_nil]
  · next hne =>
    rw [List.append_cons]
    exact exists_last_digit hne m.fraction_digits

/-- The digits of the number are those of the plain text. -/
theorem filter_number : m.number.filter isDigit = m.plainNumber.filter isDigit := by
  have hint : m.integer.filter isDigit = (m.first ++ m.groups.flatten).filter isDigit := by
    have hdigits : (m.first ++ m.groups.flatten).all isDigit = true := by
      rw [List.all_append, m.first_digits, flatten_digits]
      rfl
    rw [← filter_moneyChar 0, filterMap_integer, List.filter_eq_self.2 (List.all_eq_true.1 hdigits)]
    rcases m.separators.symm with ⟨h, -⟩ | ⟨h, -⟩ <;> rw [h] <;> decide
  rw [number, plainNumber, List.filter_append, List.filter_append, hint]
  congr 1
  split
  · rfl
  · rw [List.filter_cons_of_neg (by rw [m.separators.not_isDigit]; decide),
      List.filter_cons_of_neg (by decide)]

theorem zero_notMem_plain : 0 ∉ m.plain := by
  have hdigits : ∀ t : List UInt8, t.all isDigit = true → 0 ∉ t := by
    intro t ht h0
    exact absurd (List.all_eq_true.1 ht 0 h0) (by decide)
  rw [plain, plainNumber, signText, List.mem_append, List.mem_append, List.mem_append, not_or,
    not_or, not_or]
  refine ⟨?_, ⟨hdigits _ m.first_digits, hdigits _ flatten_digits⟩, ?_⟩
  · split <;> decide
  · split
    · exact List.not_mem_nil
    · rw [List.mem_cons, not_or]
      exact ⟨by decide, hdigits _ m.fraction_digits⟩

/-- The conversion into arrays of any size as one of characters. -/
theorem converted_iff_filterMap :
    m.Converted ↔ m.text.filterMap (moneyChar m.point) = m.plain := by
  have hout : ∀ sout : List UInt8, sout ≠ [] → ∃ rest, convertMoney m.text sout = some
      ((m.text.filterMap (moneyChar m.point)).take (sout.length - 1) ++ 0 :: rest) := by
    intro sout hne
    have h := @moneyLoop_eq m.point m.text [] sout (List.length_pos_iff.2 hne)
    rw [List.length_nil, Nat.zero_add] at h
    exact h
  constructor
  · intro h
    -- An array with room for both texts.
    let size := (m.text.filterMap (moneyChar m.point)).length + m.plain.length
    have hsize : (List.replicate (size + 1) (0 : UInt8)).length - 1 = size := by
      rw [List.length_replicate, Nat.add_sub_cancel]
    have hne : List.replicate (size + 1) (0 : UInt8) ≠ [] := List.cons_ne_nil _ _
    obtain ⟨rest, hrest⟩ := hout _ hne
    obtain ⟨rest', hrest'⟩ := h _ hne
    rw [hsize, List.take_of_length_le (Nat.le_add_right _ _)] at hrest
    rw [hrest, hsize, List.take_of_length_le (Nat.le_add_left _ _)] at hrest'
    refine (split_unique ?_ zero_notMem_plain (Option.some_inj.1 hrest')).1
    intro h0
    obtain ⟨c, -, hc⟩ := List.mem_filterMap.1 h0
    exact moneyChar_ne_zero hc rfl
  · intro h sout hne
    rw [← h]
    exact hout sout hne

/-- The text is converted if each part of it is. -/
theorem filterMap_text_eq_iff {d : UInt8} :
    m.text.filterMap (moneyChar d) = m.plain ↔
      m.before.filterMap (moneyChar d) = m.signText ∧
        m.number.filterMap (moneyChar d) = m.plainNumber ∧
        m.after.filterMap (moneyChar d) = [] := by
  have hfirst := m.first_ne
  obtain ⟨e, first, he⟩ := List.exists_cons_of_ne_nil hfirst
  have hedigit : isDigit e = true := List.all_eq_true.1 m.first_digits e (by rw [he]; simp)
  rw [text, List.filterMap_append, List.filterMap_append, plain]
  constructor
  · intro h
    -- There are no digits around the number.
    have hcount := congrArg List.length (congrArg (List.filter isDigit) h)
    have hsign : m.signText.filter isDigit = [] := by
      rw [signText]
      split <;> decide
    rw [List.filter_append, List.filter_append, List.filter_append, filter_moneyChar,
      filter_moneyChar, filter_moneyChar, filter_number, hsign, List.length_append,
      List.length_append, List.nil_append] at hcount
    have hdigitless : ∀ t : List UInt8, (t.filter isDigit).length = 0 →
        ∀ x ∈ t.filterMap (moneyChar d), ¬isDigit x = true := by
      intro t ht x hx
      rw [← filter_moneyChar d, List.length_eq_zero_iff, List.filter_eq_nil_iff] at ht
      exact ht x hx
    have hbefore := hdigitless m.before (by omega)
    have hafter := hdigitless m.after (by omega)
    -- So the first digit of the number is the first one on both sides.
    have hnum : m.number.filterMap (moneyChar d) = e :: m.number.tail.filterMap (moneyChar d) := by
      rw [number, integer, he]
      exact List.filterMap_cons_some (moneyChar_digit hedigit)
    have hplain : m.plainNumber = e :: m.plainNumber.tail := by
      rw [plainNumber, he]
      rfl
    have hsplit : m.before.filterMap (moneyChar d) = m.signText ∧
        m.number.filterMap (moneyChar d) ++ m.after.filterMap (moneyChar d) = m.plainNumber := by
      rw [hnum, hplain, List.cons_append] at h
      rw [hnum, hplain, List.cons_append]
      obtain ⟨hb, hn⟩ := split_unique (fun hmem ↦ hbefore e hmem hedigit)
        (fun hmem ↦ List.filter_eq_nil_iff.1 hsign e hmem hedigit) h
      exact ⟨hb, congrArg (e :: ·) hn⟩
    refine ⟨hsplit.1, ?_⟩
    -- And the last one is the last.
    have hnil : m.after.filterMap (moneyChar d) = [] := by
      rcases List.eq_nil_or_concat (m.after.filterMap (moneyChar d)) with hnil | ⟨t, x, hx⟩
      · exact hnil
      · obtain ⟨u, c, hu, hc⟩ := fraction_last (m := m) (s := decimalDot) integer_last.2
        have heq := hsplit.2.trans hu
        rw [hx, List.concat_eq_append, ← List.append_assoc] at heq
        have hxc : x = c := (List.cons.inj (List.append_inj' heq rfl).2).1
        exact absurd hc (hxc ▸ hafter x (by rw [hx]; simp))
    rw [hnil, List.append_nil] at hsplit
    exact ⟨hsplit.2, hnil⟩
  · rintro ⟨hb, hn, ha⟩
    rw [hb, hn, ha, List.append_nil]

theorem filterMap_around_eq_iff {d : UInt8} (hd : PointChar d) :
    (m.before.filterMap (moneyChar d) = m.signText ∧ m.after.filterMap (moneyChar d) = []) ↔
      m.SignOnly ∧ d ∉ m.before ++ m.after := by
  have hsign : m.signText = List.replicate (if m.negative then 1 else 0) hyphen := by
    rw [signText]
    split <;> rfl
  have hnil : ([] : List UInt8) = List.replicate 0 hyphen := rfl
  rw [hsign, hnil, filterMap_eq_replicate_iff hd, filterMap_eq_replicate_iff hd, SignOnly,
    List.forall_mem_append, List.mem_append, not_or]
  tauto

/-- The number with a fraction is converted if its separator is recognised. -/
theorem filterMap_number_fraction {d : UInt8} (hne : m.fraction ≠ []) :
    m.number.filterMap (moneyChar d) = m.plainNumber ↔ d = m.decimalSeparator := by
  rw [number, plainNumber, if_neg hne, if_neg hne, List.filterMap_append]
  constructor
  · intro h
    by_contra hd
    rw [List.filterMap_cons_none (moneyChar_separator m.separators (Ne.symm hd)),
      filterMap_digits m.fraction_digits, List.append_cons] at h
    -- The integer part would end with the separator.
    obtain ⟨u, c, hu, hc⟩ := (integer_last (m := m)).1
    rw [hu, List.filterMap_append, List.filterMap_cons_some (moneyChar_digit hc),
      List.filterMap_nil] at h
    have hdot : c = decimalDot :=
      (List.cons.inj (List.append_inj' (List.append_inj' h rfl).1 rfl).2).1
    rw [hdot] at hc
    exact absurd hc (by decide)
  · rintro rfl
    have hpoint : moneyChar m.decimalSeparator m.decimalSeparator = some decimalDot := by
      apply moneyChar_point
      rcases m.separators with ⟨h, -⟩ | ⟨h, -⟩
      · exact Or.inr (Or.inl h)
      · exact Or.inr (Or.inr h)
    rw [filterMap_integer m.separators.symm.ne, List.filterMap_cons_some hpoint,
      filterMap_digits m.fraction_digits]

theorem groupSeparator_mem_integer : m.groupSeparator ∈ m.integer ↔ m.groups ≠ [] := by
  have hdigits : ∀ t : List UInt8, t.all isDigit = true → m.groupSeparator ∉ t := by
    intro t ht hmem
    have hdigit := List.all_eq_true.1 ht _ hmem
    rw [m.separators.symm.not_isDigit] at hdigit
    exact Bool.false_ne_true hdigit
  rw [integer, List.mem_append, or_iff_right (hdigits _ m.first_digits)]
  cases m.groups with
  | nil => simp
  | cons group groups => simp

/-- The number without a fraction is converted if the separator between its groups is not taken for
another one. -/
theorem filterMap_number_integer {d : UInt8} (hnil : m.fraction = []) :
    m.number.filterMap (moneyChar d) = m.plainNumber ↔
      (d = m.groupSeparator → m.groupSeparator ∉ m.integer) := by
  rw [number, plainNumber, if_pos hnil, if_pos hnil, List.append_nil, List.append_nil]
  by_cases hd : d = m.groupSeparator
  · rw [forall_prop_of_true hd]
    constructor
    · intro h hmem
      have hpoint : moneyChar d m.groupSeparator = some decimalDot := by
        rw [hd]
        apply moneyChar_point
        rcases m.separators.symm with ⟨h, -⟩ | ⟨h, -⟩
        · exact Or.inr (Or.inl h)
        · exact Or.inr (Or.inr h)
      have hdot : decimalDot ∈ m.first ++ m.groups.flatten := by
        rw [← h]
        exact List.mem_filterMap.2 ⟨_, hmem, hpoint⟩
      have hdigits : (m.first ++ m.groups.flatten).all isDigit = true := by
        rw [List.all_append, m.first_digits, flatten_digits]
        rfl
      exact absurd (List.all_eq_true.1 hdigits _ hdot) (by decide)
    · intro h
      rw [groupSeparator_mem_integer, not_not] at h
      rw [integer, h, List.flatMap_nil, List.flatten_nil, List.append_nil,
        filterMap_digits m.first_digits]
  · exact iff_of_true (filterMap_integer (Ne.symm hd)) fun h ↦ absurd h hd

/-! ### The separator that is taken for the decimal one -/

theorem point_eq_iff {s s' : UInt8} (hs : Separators s s') : m.point = s ↔
    (textPlaces m.text).placeOf s' < (textPlaces m.text).placeOf s ∧
      (textPlaces m.text).numIn - 2 ≤ (textPlaces m.text).placeOf s :=
  decimalPoint_eq_iff hs (neg_one_le_placeOf hs.symm) (placeOf_ne hs)

theorem text_eq : m.text = m.before ++ m.number ++ m.after := (List.append_assoc _ _ _).symm

/-- The place of the last digit. -/
theorem numIn_text (h : m.SignOnly) :
    (textPlaces m.text).numIn = (m.before.length + m.number.length : Nat) - 1 := by
  obtain ⟨u, c, hu, hc⟩ := fraction_last (m := m) (s := m.decimalSeparator) integer_last.1
  have hafter : m.after.all (isDigit · = false) = true := by
    rw [List.all_eq_true]
    intro x hx
    exact decide_eq_true (h.1 x (List.mem_append_right _ hx))
  have htext : m.text = (m.before ++ u) ++ c :: m.after := by
    rw [text_eq, number, hu, List.append_assoc, List.append_assoc, List.append_assoc]
    rfl
  have hlen : m.number.length = u.length + 1 := by
    rw [number, hu, List.length_append, List.length_singleton]
  rw [htext, numIn_textPlaces hc hafter, hlen, List.length_append]
  omega

theorem decimalSeparator_notMem_integer : m.decimalSeparator ∉ m.integer := by
  have hdigits : ∀ t : List UInt8, t.all isDigit = true → m.decimalSeparator ∉ t := by
    intro t ht hmem
    have hdigit := List.all_eq_true.1 ht _ hmem
    rw [m.separators.not_isDigit] at hdigit
    exact Bool.false_ne_true hdigit
  have hthree := m.groups_three
  rw [integer, List.mem_append, List.mem_flatMap]
  rintro (hmem | ⟨group, hgroup, hmem⟩)
  · exact hdigits _ m.first_digits hmem
  · rcases List.mem_cons.1 hmem with heq | hmem
    · exact m.separators.ne heq
    · exact hdigits _ (hthree group hgroup).2 hmem

/-- With a fraction. -/
theorem point_fraction_iff (hsign : m.SignOnly) (hne : m.fraction ≠ []) :
    (m.point = m.decimalSeparator ∧ m.point ∉ m.before ++ m.after) ↔ m.SeparatorsTell := by
  rw [SeparatorsTell, if_neg hne]
  have hnumber : m.number = m.integer ++ m.decimalSeparator :: m.fraction := by
    rw [number, if_neg hne]
  have htext : m.text = (m.before ++ m.integer) ++ m.decimalSeparator :: (m.fraction ++ m.after) := by
    rw [text_eq, hnumber, List.append_assoc, List.append_assoc, List.append_assoc]
    rfl
  -- The decimal separator is first seen in front of the fraction.
  have hplace : m.decimalSeparator ∉ m.before ++ m.after →
      (textPlaces m.text).placeOf m.decimalSeparator = (m.before ++ m.integer).length := by
    intro hmem
    rw [htext]
    apply placeOf_textPlaces m.separators
    rw [List.mem_append, not_or]
    exact ⟨fun h ↦ hmem (List.mem_append_left _ h), decimalSeparator_notMem_integer⟩
  have hnear : (textPlaces m.text).numIn - 2 ≤ (m.before ++ m.integer).length := by
    have htwo := m.fraction_two
    rw [numIn_text hsign, hnumber, List.length_append, List.length_append, List.length_cons]
    omega
  -- Where the other one is first seen.
  have hother : (textPlaces m.text).placeOf m.groupSeparator < (m.before ++ m.integer).length ↔
      (m.groupSeparator ∈ m.after → m.groupSeparator ∈ m.before ++ m.integer) := by
    have htake : m.text.take (m.before ++ m.integer).length = m.before ++ m.integer := by
      rw [htext, List.take_left]
    by_cases hmem : m.groupSeparator ∈ m.text
    · rw [placeOf_lt_iff m.separators.symm hmem, htake]
      refine ⟨fun h _ ↦ h, fun h ↦ ?_⟩
      rw [htext, List.mem_append, List.mem_cons, @List.mem_append _ _ m.fraction] at hmem
      rcases hmem with hmem | heq | hmem | hmem
      · exact hmem
      · exact absurd heq.symm m.separators.ne
      · have hdigit := List.all_eq_true.1 m.fraction_digits _ hmem
        rw [m.separators.symm.not_isDigit] at hdigit
        exact absurd hdigit Bool.false_ne_true
      · exact h hmem
    · rw [placeOf_textPlaces_of_notMem m.separators.symm hmem]
      refine iff_of_true (by omega) fun h ↦ absurd ?_ hmem
      rw [text_eq]
      exact List.mem_append_right _ h
  constructor
  · rintro ⟨hpoint, hout⟩
    rw [hpoint] at hout
    have hlt := ((point_eq_iff m.separators).1 hpoint).1
    rw [hplace hout, hother] at hlt
    exact ⟨hout, hlt⟩
  · rintro ⟨hout, hgroup⟩
    have hpoint : m.point = m.decimalSeparator := by
      rw [point_eq_iff m.separators, hplace hout, hother]
      exact ⟨hgroup, hnear⟩
    rw [hpoint]
    exact ⟨rfl, hout⟩

/-- Without a fraction. -/
theorem point_integer_iff (hsign : m.SignOnly) (hnil : m.fraction = []) :
    ((m.point = m.groupSeparator → m.groupSeparator ∉ m.integer) ∧
      m.point ∉ m.before ++ m.after) ↔ m.SeparatorsTell := by
  rw [SeparatorsTell, if_pos hnil]
  have hnumber : m.number = m.integer := by rw [number, if_pos hnil, List.append_nil]
  have hlast : (textPlaces m.text).numIn = (m.before.length + m.number.length : Nat) - 1 :=
    numIn_text hsign
  have hbound : m.before.length + m.number.length - 3 = ((textPlaces m.text).numIn - 2).toNat := by
    rw [hlast]
    omega
  have hseparator : ∀ s, s = m.decimalSeparator ∨ s = m.groupSeparator → ∃ s', Separators s s' ∧
      (s' = m.decimalSeparator ∨ s' = m.groupSeparator) := by
    rintro s (rfl | rfl)
    · exact ⟨_, m.separators, Or.inr rfl⟩
    · exact ⟨_, m.separators.symm, Or.inl rfl⟩
  rw [hbound]
  constructor
  · rintro ⟨hgroup, hout⟩ s hs hmem
    have hnone : ∀ r, r = m.decimalSeparator ∨ r = m.groupSeparator → r ∈ m.text → m.point ≠ r := by
      rintro r hr hrmem hpoint
      rw [hpoint] at hout
      rw [text, List.mem_append, List.mem_append, hnumber] at hrmem
      rw [List.mem_append, not_or] at hout
      rcases hrmem with hrmem | hrmem | hrmem
      · exact hout.1 hrmem
      · rcases hr with rfl | rfl
        · exact decimalSeparator_notMem_integer hrmem
        · exact hgroup hpoint hrmem
      · exact hout.2 hrmem
    obtain ⟨s', hss, hs'⟩ := hseparator s hs
    have hpos := (placeOf_nonneg_iff hss).2 hmem
    rw [← placeOf_lt_iff hss hmem]
    by_contra hnear
    -- The one of the two that is first seen last would be taken.
    rcases lt_or_gt_of_ne (placeOf_ne hss hpos) with hlt | hgt
    · exact hnone s hs hmem ((point_eq_iff hss).2 ⟨hlt, by omega⟩)
    · have hmem' := (placeOf_nonneg_iff hss.symm).1 (le_of_lt (lt_of_le_of_lt hpos hgt))
      exact hnone s' hs' hmem' ((point_eq_iff hss.symm).2 ⟨hgt, by omega⟩)
  · intro h
    have hnone : ∀ r, r = m.decimalSeparator ∨ r = m.groupSeparator → m.point = r → r ∉ m.text := by
      intro r hr hpoint hmem
      obtain ⟨s', hss, -⟩ := hseparator r hr
      have hnear := ((point_eq_iff hss).1 hpoint).2
      have hpos := (placeOf_nonneg_iff hss).2 hmem
      have hlt := (placeOf_lt_iff hss hmem).2 (h r hr hmem)
      omega
    constructor
    · intro hpoint hmem
      refine hnone _ (Or.inr rfl) hpoint ?_
      rw [text, hnumber]
      exact List.mem_append_right _ (List.mem_append_left _ hmem)
    · intro hmem
      have hpoint : m.point = m.decimalSeparator ∨ m.point = m.groupSeparator := by
        rcases m.pointChar_point with h0 | hdot | hcomma
        · exact absurd (h0 ▸ hmem) m.zero_notMem
        · rcases m.separators with ⟨hd, -⟩ | ⟨-, hg⟩
          · exact Or.inl (hdot.trans hd.symm)
          · exact Or.inr (hdot.trans hg.symm)
        · rcases m.separators with ⟨-, hg⟩ | ⟨hd, -⟩
          · exact Or.inr (hcomma.trans hg.symm)
          · exact Or.inl (hcomma.trans hd.symm)
      refine hnone _ hpoint rfl ?_
      rw [text, List.mem_append, List.mem_append]
      rcases List.mem_append.1 hmem with hmem | hmem
      · exact Or.inl hmem
      · exact Or.inr (Or.inr hmem)

/-- An amount is converted if the characters around its digits show nothing but the sign, and the
separators are recognised. -/
theorem converted_iff (m : MoneyText) : m.Converted ↔ m.SignOnly ∧ m.SeparatorsTell := by
  rw [converted_iff_filterMap, filterMap_text_eq_iff]
  have haround := filterMap_around_eq_iff (m := m) m.pointChar_point
  by_cases hnil : m.fraction = []
  · rw [filterMap_number_integer hnil]
    constructor
    · rintro ⟨hb, hn, ha⟩
      obtain ⟨hsign, hout⟩ := haround.1 ⟨hb, ha⟩
      exact ⟨hsign, (point_integer_iff hsign hnil).1 ⟨hn, hout⟩⟩
    · rintro ⟨hsign, htell⟩
      obtain ⟨hn, hout⟩ := (point_integer_iff hsign hnil).2 htell
      obtain ⟨hb, ha⟩ := haround.2 ⟨hsign, hout⟩
      exact ⟨hb, hn, ha⟩
  · rw [filterMap_number_fraction hnil]
    constructor
    · rintro ⟨hb, hn, ha⟩
      obtain ⟨hsign, hout⟩ := haround.1 ⟨hb, ha⟩
      exact ⟨hsign, (point_fraction_iff hsign hnil).1 ⟨hn, hout⟩⟩
    · rintro ⟨hsign, htell⟩
      obtain ⟨hn, hout⟩ := (point_fraction_iff hsign hnil).2 htell
      obtain ⟨hb, ha⟩ := haround.2 ⟨hsign, hout⟩
      exact ⟨hb, hn, ha⟩

/-- Two soles and a half. -/
def soles : MoneyText where
  dotDecimal := true
  negative := false
  before := ascii "S/."
  first := ascii "2"
  groups := []
  fraction := ascii "50"
  after := []
  shown := .positive _ _
  zero_notMem := by decide
  first_ne := by decide
  first_digits := by decide
  groups_three := List.forall_mem_nil _
  fraction_two := by decide
  fraction_digits := by decide

/-- The period of the currency symbol is first. -/
theorem not_converted_soles : ¬soles.Converted := by
  rw [converted_iff_filterMap]
  decide

end MoneyText

end PsqlOdbc
