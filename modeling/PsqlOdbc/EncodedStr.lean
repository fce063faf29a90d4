import Mathlib.Data.List.GetD
import PsqlOdbc.Multibyte

/-!
# Walking over an encoded string (`multibyte.c`)

`EncodedStr` is the cursor the driver's scanners hold on a string.  What they need of it is
`encodedNextchar_classifies`: over validly encoded text the byte under the cursor is called
ASCII exactly when it is a character of its own, and after each character the walk is between
two characters.  JOHAB is the one encoding where this fails, and the theorem says on which of
its characters.
-/

namespace PsqlOdbc

/-! ## The cursor -/

/-- `encoded_str`: the bytes of the string without the NUL that ends it, and a cursor. -/
structure EncodedStr where
  ccsc : CharSet
  encstr : List UInt8
  pos : Int
  ccst : Nat
  deriving DecidableEq, Repr

namespace EncodedStr

/-- The byte at a position; the NUL at the end and, where nothing reads, outside. -/
def byteAt (e : EncodedStr) (pos : Int) : UInt8 := e.encstr.getD pos.toNat 0

/-- `MBCS_NON_ASCII`. -/
def nonAscii (e : EncodedStr) : Bool := mbcsNonAscii e.ccst (e.byteAt e.pos)

/-- `encoded_str_constr`. -/
def constr (ccsc : CharSet) (str : List UInt8) : EncodedStr := ⟨ccsc, str, -1, 0⟩

/-- `encoded_nextchar`: the cursor after it. -/
def nextchar (e : EncodedStr) : EncodedStr :=
  if 0 ≤ e.pos ∧ e.byteAt e.pos = 0 then e
  else { e with
    pos := e.pos + 1
    ccst := pgCSStat e.ccst (e.byteAt (e.pos + 1)) e.ccsc }

/-- The cursor after `n` calls of `encoded_nextchar`. -/
def walk (ccsc : CharSet) (str : List UInt8) (n : Nat) : EncodedStr :=
  nextchar^[n] (constr ccsc str)

end EncodedStr

/-! ## The state of the walk -/

/-- The state of the walk after some bytes. -/
def walkState (ccsc : CharSet) (st : Nat) (bs : List UInt8) : Nat :=
  bs.foldl (fun st b ↦ pgCSStat st b ccsc) st

@[simp] theorem walkState_nil (ccsc : CharSet) (st : Nat) : walkState ccsc st [] = st := rfl

@[simp] theorem walkState_cons (ccsc : CharSet) (st : Nat) (b : UInt8) (bs : List UInt8) :
    walkState ccsc st (b :: bs) = walkState ccsc (pgCSStat st b ccsc) bs := rfl

theorem walkState_append (ccsc : CharSet) (st : Nat) (bs cs : List UInt8) :
    walkState ccsc st (bs ++ cs) = walkState ccsc (walkState ccsc st bs) cs :=
  List.foldl_append

/-- As long as there is no NUL, `n` calls of `encoded_nextchar` go over `n` bytes. -/
theorem EncodedStr.walk_take (ccsc : CharSet) {str : List UInt8} {n : Nat} (h0 : 0 ∉ str.take n)
    (hn : n ≤ str.length) :
    EncodedStr.walk ccsc str n = ⟨ccsc, str, (n : Int) - 1, walkState ccsc 0 (str.take n)⟩ := by
  induction n with
  | zero => rfl
  | succ n ih =>
    have hlt : n < str.length := hn
    have h0' : 0 ∉ str.take n := fun h ↦ h0 (List.take_subset_take_left _ (Nat.le_succ n) h)
    rw [EncodedStr.walk, Function.iterate_succ_apply', ← EncodedStr.walk,
      ih h0' (Nat.le_of_lt hlt), EncodedStr.nextchar, if_neg]
    · have hb : (EncodedStr.mk ccsc str ((n : Int) - 1) (walkState ccsc 0 (str.take n))).byteAt
          ((n : Int) - 1 + 1) = str[n] := by
        rw [EncodedStr.byteAt, Int.sub_add_cancel, Int.toNat_natCast,
          List.getD_eq_getElem _ _ hlt]
      rw [hb, List.take_succ_eq_append_getElem hlt, walkState_append]
      push_cast
      rw [Int.add_sub_cancel, Int.sub_add_cancel]
      rfl
    · -- The byte before is not the end of the string.
      rintro ⟨hpos, hz⟩
      have hpos' : 0 ≤ (n : Int) - 1 := hpos
      obtain ⟨m, rfl⟩ : ∃ m, n = m + 1 := ⟨n - 1, by omega⟩
      have hm : m < str.length := by omega
      have hcast : (((m + 1 : Nat) : Int) - 1).toNat = m := by omega
      rw [EncodedStr.byteAt, hcast, List.getD_eq_getElem _ _ hm] at hz
      exact h0 (List.mem_take_iff_getElem.2 ⟨m, by omega, hz⟩)

/-- Over text without NULs, `n` calls of `encoded_nextchar` go over `n` bytes. -/
theorem EncodedStr.walk_eq (ccsc : CharSet) {str : List UInt8} (h0 : 0 ∉ str) {n : Nat}
    (hn : n ≤ str.length) :
    EncodedStr.walk ccsc str n = ⟨ccsc, str, (n : Int) - 1, walkState ccsc 0 (str.take n)⟩ :=
  EncodedStr.walk_take ccsc (fun h ↦ h0 (List.mem_of_mem_take h)) hn

/-! ## One character -/

/-- The bytes that are one character in an encoding. -/
inductive EncodedChar : CharSet → List UInt8 → Prop
  | single {ccsc} {c : UInt8} : ccsc.multibyte = false → ccsc ≠ .utf8 → ccsc ≠ .muleInternal →
      EncodedChar ccsc [c]
  | multi {ccsc} {c : List UInt8} : ccsc.multibyte = true → MbChar ccsc c → EncodedChar ccsc c
  | utf8One {c : UInt8} : c < 0x80 → EncodedChar .utf8 [c]
  | utf8Two {c d : UInt8} : 0xc2 ≤ c → c ≤ 0xdf → 0x80 ≤ d → d ≤ 0xbf → EncodedChar .utf8 [c, d]
  | utf8Three {c d e : UInt8} : 0xe0 ≤ c → c ≤ 0xef → 0x80 ≤ d → d ≤ 0xbf → 0x80 ≤ e →
      e ≤ 0xbf → EncodedChar .utf8 [c, d, e]
  | utf8Four {c d e f : UInt8} : 0xf0 ≤ c → c ≤ 0xf4 → 0x80 ≤ d → d ≤ 0xbf → 0x80 ≤ e →
      e ≤ 0xbf → 0x80 ≤ f → f ≤ 0xbf → EncodedChar .utf8 [c, d, e, f]
  | muleOne {c : UInt8} : c < 0x80 → EncodedChar .muleInternal [c]
  /-- A leading byte and what it announces, all of them above ASCII. -/
  | mule {c : List UInt8} : 2 ≤ c.length → c.length ≤ 4 → (∀ b ∈ c, 0x80 ≤ b) →
      EncodedChar .muleInternal c

/-- The walk calls the bytes of a character ASCII as it should (`ascii`, if they are one
ASCII byte) and is between two characters after it. -/
def CharWalk (ccsc : CharSet) (ascii : Bool) : Nat → List UInt8 → Prop
  | st, [] => st < 2
  | st, b :: bs =>
    mbcsNonAscii (pgCSStat st b ccsc) b = !ascii ∧ CharWalk ccsc ascii (pgCSStat st b ccsc) bs

/-- A character is a single ASCII byte. -/
def isAscii (c : List UInt8) : Bool := c.length = 1 && c.headD 0 < 0x80

/-- A lead byte that JOHAB shares with EUC_KR, or a trail byte that is no lead byte there
and no ASCII. -/
def JohabSafe (c : List UInt8) : Prop :=
  c.length = 2 → 0xa0 < c.headD 0 ∨ (0x80 ≤ c.getD 1 0 ∧ c.getD 1 0 ≤ 0xa0)

theorem charWalk_high {ccsc : CharSet} {st : Nat} {b : UInt8} {bs : List UInt8} (st' : Nat)
    (hb : 0x80 ≤ b) (hst : pgCSStat st b ccsc = st') (hbs : CharWalk ccsc false st' bs) :
    CharWalk ccsc false st (b :: bs) := by
  rw [CharWalk, hst]
  exact ⟨mbcsNonAscii_of_high st' hb, hbs⟩

theorem charWalk_inside {ccsc : CharSet} {st : Nat} {b : UInt8} {bs : List UInt8} (st' : Nat)
    (hst : pgCSStat st b ccsc = st') (h0 : 0 < st') (hbs : CharWalk ccsc false st' bs) :
    CharWalk ccsc false st (b :: bs) := by
  rw [CharWalk, hst]
  refine ⟨?_, hbs⟩
  simp [mbcsNonAscii, Nat.ne_of_gt h0]

theorem charWalk_ascii {ccsc : CharSet} {st : Nat} {b : UInt8} (hs : st < 2) (hb : b < 0x80) :
    CharWalk ccsc true st [b] := by
  have h0 : pgCSStat st b ccsc = 0 := pgCSStat_ascii (Or.inr hs) hb
  rw [CharWalk, h0]
  exact ⟨mbcsNonAscii_eq_false.2 ⟨rfl, hb⟩, Nat.zero_lt_two⟩

theorem isAscii_singleton (b : UInt8) : isAscii [b] = decide (b < 0x80) := by simp [isAscii]

theorem isAscii_of_two_le {c : List UInt8} (h : 2 ≤ c.length) : isAscii c = false := by
  rw [isAscii, Bool.and_eq_false_iff]
  exact Or.inl (decide_eq_false (by omega))

theorem charWalk_mule {st : Nat} {c : List UInt8} (hs : st < 2) (hc : ∀ b ∈ c, 0x80 ≤ b) :
    CharWalk .muleInternal false st c := by
  induction c generalizing st with
  | nil => exact hs
  | cons b bs ih =>
    refine charWalk_high 0 (hc b List.mem_cons_self) rfl (ih (by omega) fun b' hb' ↦ ?_)
    exact hc b' (List.mem_cons_of_mem _ hb')

/-- One character of any encoding but JOHAB. -/
theorem MbChar.charWalk {ccsc : CharSet} {c : List UInt8} {st : Nat} (hj : ccsc ≠ .johab)
    (hm : ccsc.multibyte = true) (hc : MbChar ccsc c) (hs : st < 2) :
    CharWalk ccsc (isAscii c) st c := by
  cases hc with
  | ascii h =>
    rw [isAscii_singleton, decide_eq_true h]
    exact charWalk_ascii hs h
  | byte h =>
    rw [h] at hm
    cases hm
  | kana h hc hc' =>
    rw [isAscii_singleton, decide_eq_false (by grind)]
    rcases h with rfl | rfl <;>
      exact charWalk_high 0 (by grind) (by simp only [pgCSStat]; grind) Nat.zero_lt_two
  | sjis h hc hd hd' =>
    rcases h with rfl | rfl <;>
      exact charWalk_high 2 (by grind) (by simp only [pgCSStat]; grind)
        (charWalk_inside 1 (by simp only [pgCSStat]; grind) Nat.one_pos Nat.one_lt_two)
  | big5 hc hc' hd hd' =>
    exact charWalk_high 2 (by grind) (by simp only [pgCSStat]; grind)
      (charWalk_inside 1 (by simp only [pgCSStat]; grind) Nat.one_pos Nat.one_lt_two)
  | gbk h hc hc' hd hd' =>
    rcases h with rfl | rfl | rfl <;>
      exact charWalk_high 2 (by grind) (by simp only [pgCSStat]; grind)
        (charWalk_inside 1 (by simp only [pgCSStat]; grind) Nat.one_pos Nat.one_lt_two)
  | gb18030 hc hc' hd hd' he he' hf hf' =>
    exact charWalk_high 2 (by grind) (by simp only [pgCSStat]; grind)
      (charWalk_inside 3 (by simp only [pgCSStat]; grind) (by omega)
        (charWalk_inside 3 (by simp only [pgCSStat]; grind) (by omega)
          (charWalk_inside 1 (by simp only [pgCSStat]; grind) Nat.one_pos Nat.one_lt_two)))
  | euc h hc hc' hd hd' =>
    rcases h with rfl | rfl | rfl | rfl | rfl <;>
      exact charWalk_high 2 (by grind) (by simp only [pgCSStat]; grind)
        (charWalk_inside 1 (by simp only [pgCSStat]; grind) Nat.one_pos Nat.one_lt_two)
  | eucKana h hd hd' =>
    rcases h with rfl | rfl <;>
      exact charWalk_high 2 (by grind) (by simp only [pgCSStat]; grind)
        (charWalk_inside 1 (by simp only [pgCSStat]; grind) Nat.one_pos Nat.one_lt_two)
  | eucJis h hd hd' he he' =>
    rcases h with rfl | rfl <;>
      exact charWalk_high 3 (by grind) (by simp only [pgCSStat]; grind)
        (charWalk_inside 2 (by simp only [pgCSStat]; grind) (by omega)
          (charWalk_inside 1 (by simp only [pgCSStat]; grind) Nat.one_pos Nat.one_lt_two))
  | eucTw hd hd' he he' hf hf' =>
    exact charWalk_high 4 (by grind) (by simp only [pgCSStat]; grind)
      (charWalk_inside 3 (by simp only [pgCSStat]; grind) (by omega)
        (charWalk_inside 2 (by simp only [pgCSStat]; grind) (by omega)
          (charWalk_inside 1 (by simp only [pgCSStat]; grind) Nat.one_pos Nat.one_lt_two)))
  | johabHangul => exact absurd rfl hj
  | johabHanja => exact absurd rfl hj

/-- A two-byte character of JOHAB, which the walk takes for EUC_KR. -/
theorem charWalk_johab {c d : UInt8} {st : Nat} (hs : st < 2) (hc : 0x80 ≤ c)
    (hd : d ≠ 0) :
    CharWalk .johab false st [c, d] ↔ JohabSafe [c, d] := by
  have hsafe : JohabSafe [c, d] ↔ 0xa0 < c ∨ (0x80 ≤ d ∧ d ≤ 0xa0) :=
    ⟨fun h ↦ h rfl, fun h _ ↦ h⟩
  rw [hsafe]
  by_cases hlead : 0xa0 < c
  · refine iff_of_true ?_ (Or.inl hlead)
    exact charWalk_high 2 hc (by simp only [pgCSStat]; grind)
      (charWalk_inside 1 (by simp only [pgCSStat]; grind) Nat.one_pos Nat.one_lt_two)
  · have h0 : pgCSStat st c .johab = 0 := by simp only [pgCSStat]; grind
    rw [CharWalk, h0, CharWalk, CharWalk]
    have hnon : mbcsNonAscii 0 c = true := mbcsNonAscii_of_high 0 hc
    by_cases htrail : 0xa0 < d
    · have h2 : pgCSStat 0 d .johab = 2 := by simp only [pgCSStat]; grind
      rw [h2]
      refine iff_of_false ?_ ?_
      · rintro ⟨-, -, h⟩
        exact absurd h (by omega)
      · rintro (h | ⟨-, h⟩)
        · exact hlead h
        · exact UInt8.not_le.2 htrail h
    · have hz : pgCSStat 0 d .johab = 0 := by simp only [pgCSStat]; grind
      rw [hz, hnon]
      simp only [mbcsNonAscii, Bool.not_false, true_and, hlead, false_or, UInt8.not_lt.1 htrail,
        and_true, Nat.zero_lt_two, ne_eq, not_true_eq_false, decide_false, Bool.false_or,
        decide_eq_true_eq]

/-- One character of any encoding: the walk is right about it unless it is a JOHAB character
that EUC_KR does not have. -/
theorem EncodedChar.charWalk_iff {ccsc : CharSet} {c : List UInt8} {st : Nat}
    (hc : EncodedChar ccsc c) (hs : st < 2) :
    CharWalk ccsc (isAscii c) st c ↔ (ccsc = .johab → JohabSafe c) := by
  have hutf : ∀ {c d : UInt8} {bs : List UInt8} (k : Nat), 0xc2 ≤ c →
      pgCSStat st c .utf8 = k + 1 → CharWalk .utf8 false (k + 1) (d :: bs) →
      CharWalk .utf8 false st (c :: d :: bs) := fun k hc hk h ↦
    charWalk_high (k + 1) (by grind) hk h
  cases hc with
  | @single _ c hm hu hmu =>
    refine iff_of_true ?_ (fun h ↦ absurd (h ▸ hm) (by decide))
    rw [isAscii_singleton]
    by_cases hb : c < 0x80
    · rw [decide_eq_true hb]
      exact charWalk_ascii hs hb
    · have h0 : pgCSStat st c ccsc = 0 := by
        cases ccsc <;> first | rfl | exact absurd rfl hu | cases hm
      rw [decide_eq_false hb]
      exact charWalk_high 0 (UInt8.not_lt.1 hb) h0 Nat.zero_lt_two
  | multi hm hc =>
    by_cases hj : ccsc = .johab
    · subst hj
      rw [forall_prop_of_true rfl]
      cases hc with
      | ascii h =>
        rw [isAscii_singleton, decide_eq_true h]
        refine iff_of_true (charWalk_ascii hs h) ?_
        rintro ⟨⟩
      | byte h => cases h
      | kana h => rcases h with h | h <;> cases h
      | sjis h => rcases h with h | h <;> cases h
      | gbk h => rcases h with h | h | h <;> cases h
      | euc h => rcases h with h | h | h | h | h <;> cases h
      | eucKana h => rcases h with h | h <;> cases h
      | eucJis h => rcases h with h | h <;> cases h
      | johabHangul hc hc' hd => exact charWalk_johab hs (by grind) (by grind)
      | johabHanja hc hd => exact charWalk_johab hs (by grind) (by grind)
    · exact iff_of_true (hc.charWalk hj hm hs) fun h ↦ absurd h hj
  | utf8One h =>
    rw [isAscii_singleton, decide_eq_true h]
    exact iff_of_true (charWalk_ascii hs h) (by rintro ⟨⟩)
  | utf8Two hc hc' hd hd' =>
    refine iff_of_true (hutf 1 hc (by simp only [pgCSStat]; grind) ?_) (by rintro ⟨⟩)
    exact charWalk_inside 1 (by simp only [pgCSStat]; grind) Nat.one_pos Nat.one_lt_two
  | utf8Three hc hc' hd hd' he he' =>
    refine iff_of_true (hutf 2 (by grind) (by simp only [pgCSStat]; grind) ?_) (by rintro ⟨⟩)
    exact charWalk_inside 2 (by simp only [pgCSStat]; grind) (by omega)
      (charWalk_inside 1 (by simp only [pgCSStat]; grind) Nat.one_pos Nat.one_lt_two)
  | utf8Four hc hc' hd hd' he he' hf hf' =>
    refine iff_of_true (hutf 3 (by grind) (by simp only [pgCSStat]; grind) ?_) (by rintro ⟨⟩)
    exact charWalk_inside 3 (by simp only [pgCSStat]; grind) (by omega)
      (charWalk_inside 2 (by simp only [pgCSStat]; grind) (by omega)
        (charWalk_inside 1 (by simp only [pgCSStat]; grind) Nat.one_pos Nat.one_lt_two))
  | muleOne h =>
    rw [isAscii_singleton, decide_eq_true h]
    exact iff_of_true (charWalk_ascii hs h) (by rintro ⟨⟩)
  | mule h2 h4 h =>
    rw [isAscii_of_two_le h2]
    exact iff_of_true (charWalk_mule hs h) (by rintro ⟨⟩)

/-! ## Whole texts -/

theorem CharWalk.walkState_lt {ccsc : CharSet} {ascii : Bool} {st : Nat} {c : List UInt8}
    (h : CharWalk ccsc ascii st c) : walkState ccsc st c < 2 := by
  induction c generalizing st with
  | nil => exact h
  | cons b bs ih => exact ih h.2

theorem CharWalk.nonAscii {ccsc : CharSet} {ascii : Bool} {st : Nat} {c : List UInt8}
    (h : CharWalk ccsc ascii st c) {j : Nat} (hj : j < c.length) :
    mbcsNonAscii (walkState ccsc st (c.take (j + 1))) (c)[j] = !ascii := by
  induction c generalizing st j with
  | nil => exact absurd hj (Nat.not_lt_zero j)
  | cons b bs ih =>
    cases j with
    | zero => exact h.1
    | succ j => exact ih h.2 (Nat.lt_of_succ_lt_succ hj)

theorem charWalk_of {ccsc : CharSet} {ascii : Bool} {st : Nat} {c : List UInt8}
    (h : ∀ j, (hj : j < c.length) →
      mbcsNonAscii (walkState ccsc st (c.take (j + 1))) (c)[j] = !ascii)
    (hl : walkState ccsc st c < 2) : CharWalk ccsc ascii st c := by
  induction c generalizing st with
  | nil => exact hl
  | cons b bs ih =>
    exact ⟨h 0 (Nat.succ_pos _), ih (fun j hj ↦ h (j + 1) (Nat.succ_lt_succ hj)) hl⟩

/-- Walking over a text with `encoded_nextchar`, on the bytes of the character `c` in it:
`MBCS_NON_ASCII` is false exactly where `c` is a single ASCII byte, and the walk is between
two characters when it has gone over `c`. -/
def Classified (ccsc : CharSet) (text pre c : List UInt8) : Prop :=
  (∀ j < c.length, (EncodedStr.walk ccsc text (pre.length + j + 1)).nonAscii = !isAscii c) ∧
    (EncodedStr.walk ccsc text (pre.length + c.length)).ccst < 2

theorem classified_iff {ccsc : CharSet} {pre c post : List UInt8} (h0 : 0 ∉ pre ++ c ++ post) :
    Classified ccsc (pre ++ c ++ post) pre c ↔
      CharWalk ccsc (isAscii c) (walkState ccsc 0 pre) c := by
  have hwalk : ∀ n ≤ c.length, EncodedStr.walk ccsc (pre ++ c ++ post) (pre.length + n) =
      ⟨ccsc, pre ++ c ++ post, ((pre.length + n : Nat) : Int) - 1,
        walkState ccsc (walkState ccsc 0 pre) (c.take n)⟩ := fun n hn ↦ by
    rw [EncodedStr.walk_eq ccsc h0 (by simp only [List.length_append]; omega), List.append_assoc,
      List.take_length_add_append, List.take_append_of_le_length hn, walkState_append]
  have hend : (EncodedStr.walk ccsc (pre ++ c ++ post) (pre.length + c.length)).ccst =
      walkState ccsc (walkState ccsc 0 pre) c := by
    rw [hwalk _ (Nat.le_refl _), List.take_length]
  have hbyte : ∀ j, (hj : j < c.length) →
      (EncodedStr.walk ccsc (pre ++ c ++ post) (pre.length + j + 1)).nonAscii =
        mbcsNonAscii (walkState ccsc (walkState ccsc 0 pre) (c.take (j + 1))) (c)[j] := by
    intro j hj
    have hb : (pre ++ c ++ post).getD (pre.length + j) 0 = (c)[j] := by
      rw [List.append_assoc, List.getD_append_right _ _ _ _ (Nat.le_add_right _ _),
        Nat.add_sub_cancel_left, List.getD_append _ _ _ _ hj, List.getD_eq_getElem _ _ hj]
    have hpos : (((pre.length + (j + 1) : Nat) : Int) - 1).toNat = pre.length + j := by omega
    rw [Nat.add_assoc, hwalk _ hj, EncodedStr.nonAscii, EncodedStr.byteAt, hpos, hb]
  rw [Classified, hend]
  constructor
  · rintro ⟨h, hl⟩
    exact charWalk_of (fun j hj ↦ (hbyte j hj).symm.trans (h j hj)) hl
  · intro h
    exact ⟨fun j hj ↦ (hbyte j hj).trans (h.nonAscii hj), h.walkState_lt⟩

/-- In a text of whole characters the walk is right about all of them exactly if none is a
JOHAB character that EUC_KR does not have. -/
theorem classified_all_iff {ccsc : CharSet} {chars : List (List UInt8)}
    (hc : ∀ c ∈ chars, EncodedChar ccsc c) (h0 : 0 ∉ chars.flatten) :
    (∀ pre c post, chars = pre ++ c :: post →
        Classified ccsc chars.flatten pre.flatten c) ↔
      (ccsc = .johab → ∀ c ∈ chars, JohabSafe c) := by
  have hsplit : ∀ pre c post, chars = pre ++ c :: post →
      (Classified ccsc chars.flatten pre.flatten c ↔
        CharWalk ccsc (isAscii c) (walkState ccsc 0 pre.flatten) c) := by
    intro pre c post h
    have hf : chars.flatten = pre.flatten ++ c ++ post.flatten := by
      rw [h, List.flatten_append, List.flatten_cons, List.append_assoc]
    rw [hf] at h0 ⊢
    exact classified_iff h0
  constructor
  · intro h hj c hm
    obtain ⟨pre, post, hs⟩ := List.append_of_mem hm
    have hlt : walkState ccsc 0 pre.flatten < 2 := by
      -- The character before has left the walk between two characters.
      rcases List.eq_nil_or_concat pre with rfl | ⟨pre', d, rfl⟩
      · exact Nat.zero_lt_two
      · rw [List.concat_eq_append] at hs ⊢
        have hd := (hsplit pre' d (c :: post) (by rw [hs, List.append_assoc]; rfl)).1
          (h pre' d (c :: post) (by rw [hs, List.append_assoc]; rfl))
        rw [List.flatten_append, walkState_append, List.flatten_cons, List.flatten_nil,
          List.append_nil]
        exact hd.walkState_lt
    exact ((hc c hm).charWalk_iff hlt).1 ((hsplit pre c post hs).1 (h pre c post hs)) hj
  · intro h pre c post hs
    have hstate : ∀ pre : List (List UInt8), (∀ c ∈ pre, c ∈ chars) →
        ∀ st < 2, walkState ccsc st pre.flatten < 2 := by
      intro pre
      induction pre with
      | nil => exact fun _ _ hst ↦ hst
      | cons d pre ih =>
        intro hmem st hst
        have hd := hmem d List.mem_cons_self
        rw [List.flatten_cons, walkState_append]
        refine ih (fun c hcm ↦ hmem c (List.mem_cons_of_mem _ hcm)) _ ?_
        exact (((hc d hd).charWalk_iff hst).2 fun hj ↦ h hj d hd).walkState_lt
    have hlt := hstate pre (fun c hcm ↦ hs ▸ List.mem_append_left _ hcm) 0 Nat.zero_lt_two
    have hm : c ∈ chars := hs ▸ List.mem_append_right _ List.mem_cons_self
    exact (hsplit pre c post hs).2 (((hc c hm).charWalk_iff hlt).2 fun hj ↦ h hj c hm)

theorem classified_all_iff_sjis :
    (∀ c ∈ [[0x83, 0x5c], [(0x27 : UInt8)]], EncodedChar .sjis c) ∧
    ((0 : UInt8) ∉ [[0x83, 0x5c], [(0x27 : UInt8)]].flatten) ∧
    ((∀ pre c post, [[0x83, 0x5c], [(0x27 : UInt8)]] = pre ++ c :: post →
        Classified .sjis [[0x83, 0x5c], [(0x27 : UInt8)]].flatten pre.flatten c) ↔
      (CharSet.sjis = .johab → ∀ c ∈ [[0x83, 0x5c], [(0x27 : UInt8)]], JohabSafe c)) := by
  have hc : ∀ c ∈ [[0x83, 0x5c], [(0x27 : UInt8)]], EncodedChar .sjis c := by
    intro c hm
    rcases List.mem_cons.1 hm with rfl | hm
    · exact .multi rfl (.sjis (Or.inl rfl) (Or.inl (by decide)) (by decide) (by decide))
    · rw [List.mem_singleton.1 hm]
      exact .multi rfl (.ascii (by decide))
  have h0 : (0 : UInt8) ∉ [[0x83, 0x5c], [(0x27 : UInt8)]].flatten := by decide
  exact ⟨hc, h0, classified_all_iff hc h0⟩

/-- The Hangul syllable `88 41`: its trail byte is called ASCII. -/
theorem not_classified_johab :
    EncodedChar .johab [0x88, 0x41] ∧
      ¬Classified .johab [[0x88, (0x41 : UInt8)]].flatten [] [0x88, 0x41] := by
  refine ⟨.multi rfl (.johabHangul (by decide) (by decide) (Or.inl (by decide))), fun h ↦ ?_⟩
  exact absurd (h.1 1 (by decide)) (by decide)

end PsqlOdbc
