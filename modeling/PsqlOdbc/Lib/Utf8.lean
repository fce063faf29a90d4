import Mathlib.Data.List.TakeWhile

/-!
# UTF-8 forms

A text is taken form by form: a first byte says how many bytes belong to it.  What a text has to be
to be the encoding of characters is said form by form too (`utf8_iff`): each form is `Complete`,
which its first byte, its length and the highest bits of its other bytes tell, and none is
`Misformed`.
-/

namespace Lib

theorem uint8_ofNat_congr {a b : Nat} (h : a % 256 = b % 256) : UInt8.ofNat a = UInt8.ofNat b :=
  UInt8.toNat_inj.1 h

theorem uint8_toNat_ofNat {x : Nat} (h : x < 0x100) : (UInt8.ofNat x).toNat = x := by
  rw [UInt8.toNat_ofNat']
  omega

/-! ## One character -/

theorem char_range (c : Char) : c.toNat < 0xd800 ∨ 0xdfff < c.toNat ∧ c.toNat < 0x110000 :=
  c.valid

theorem exists_char {v : Nat} (h : v < 0xd800 ∨ 0xdfff < v ∧ v < 0x110000) :
    ∃ c : Char, c.toNat = v :=
  have hlt : v < 2 ^ 32 := by omega
  ⟨⟨UInt32.ofNatLT v hlt, by rw [UInt32.isValidChar, UInt32.toNat_ofNatLT]; exact h⟩,
    UInt32.toNat_ofNatLT⟩

section

variable {c : Char} {v : Nat} (hv : c.toNat = v)
include hv

theorem utf8EncodeChar_one (h : v < 0x80) : String.utf8EncodeChar c = [UInt8.ofNat v] := by
  simp only [String.utf8EncodeChar, show c.val.toNat = v from hv]
  rw [if_pos (by omega)]

theorem utf8EncodeChar_two (h : 0x80 ≤ v) (h' : v < 0x800) :
    String.utf8EncodeChar c = [UInt8.ofNat (0xc0 + v / 64), UInt8.ofNat (0x80 + v % 64)] := by
  simp only [String.utf8EncodeChar, show c.val.toNat = v from hv]
  rw [if_neg (by omega), if_pos (by omega)]
  congr 1
  · exact uint8_ofNat_congr (by omega)
  · congr 1
    exact uint8_ofNat_congr (by omega)

theorem utf8EncodeChar_three (h : 0x800 ≤ v) (h' : v < 0x10000) :
    String.utf8EncodeChar c =
      [UInt8.ofNat (0xe0 + v / 4096), UInt8.ofNat (0x80 + v / 64 % 64),
        UInt8.ofNat (0x80 + v % 64)] := by
  simp only [String.utf8EncodeChar, show c.val.toNat = v from hv]
  rw [if_neg (by omega), if_neg (by omega), if_pos (by omega)]
  congr 1
  · exact uint8_ofNat_congr (by omega)
  · congr 1
    · exact uint8_ofNat_congr (by omega)
    · congr 1
      exact uint8_ofNat_congr (by omega)

theorem utf8EncodeChar_four (h : 0x10000 ≤ v) (h' : v < 0x110000) :
    String.utf8EncodeChar c =
      [UInt8.ofNat (0xf0 + v / 262144), UInt8.ofNat (0x80 + v / 4096 % 64),
        UInt8.ofNat (0x80 + v / 64 % 64), UInt8.ofNat (0x80 + v % 64)] := by
  simp only [String.utf8EncodeChar, show c.val.toNat = v from hv]
  rw [if_neg (by omega), if_neg (by omega), if_neg (by omega)]
  congr 1
  · exact uint8_ofNat_congr (by omega)
  · congr 1
    · exact uint8_ofNat_congr (by omega)
    · congr 1
      · exact uint8_ofNat_congr (by omega)
      · congr 1
        exact uint8_ofNat_congr (by omega)

end

/-! ## Forms -/

/-- The length of a form, by its first byte. -/
def formLength (b : UInt8) : Option Nat :=
  if b.toNat < 0x80 then some 1
  else if b.toNat < 0xc0 then none
  else if b.toNat < 0xe0 then some 2
  else if b.toNat < 0xf0 then some 3
  else if b.toNat < 0xf8 then some 4
  else none

/-- The forms of a text that ends at a NUL.  A byte that no form begins with is the last. -/
def forms : List UInt8 → List (List UInt8)
  | [] => []
  | b :: bs =>
    if b = 0 then []
    else
      match formLength b with
      | none => [[b]]
      | some k => (b :: bs.take (k - 1)) :: forms (bs.drop (k - 1))
termination_by s => s.length
decreasing_by simp only [List.length_cons, List.length_drop]; omega

/-- A first byte, all bytes that belong to it, and the highest bit set in each of those. -/
def Complete (p : List UInt8) : Prop :=
  p.head?.bind formLength = some p.length ∧ ∀ b ∈ p.tail, 0x80 ≤ b.toNat

/-- The byte at a place of a form, as a number. -/
def byteAt (p : List UInt8) (i : Nat) : Nat := (p.getD i 0).toNat

/-- More bytes than the number needs. -/
def Overlong (p : List UInt8) : Prop :=
  byteAt p 0 = 0xc0 ∨ byteAt p 0 = 0xc1 ∨ byteAt p 0 = 0xe0 ∧ byteAt p 1 < 0xa0 ∨
    byteAt p 0 = 0xf0 ∧ byteAt p 1 < 0x90

/-- The number is that of a surrogate, or greater than that of any character. -/
def NoCharacter (p : List UInt8) : Prop :=
  byteAt p 0 = 0xed ∧ 0xa0 ≤ byteAt p 1 ∨ byteAt p 0 = 0xf4 ∧ 0x90 ≤ byteAt p 1 ∨
    0xf5 ≤ byteAt p 0

/-- Not the form of a character, or with a byte in it that no form goes on with. -/
def Misformed (p : List UInt8) : Prop :=
  Overlong p ∨ NoCharacter p ∨ ∃ b ∈ p.tail, 0xc0 ≤ b.toNat

theorem complete_cons {b : UInt8} {bs : List UInt8} :
    Complete (b :: bs) ↔ formLength b = some (bs.length + 1) ∧ ∀ x ∈ bs, 0x80 ≤ x.toNat := Iff.rfl

/-- `%x80-BF`. -/
def IsTail (b : UInt8) : Prop := 0x80 ≤ b.toNat ∧ b.toNat < 0xc0

section

variable {a b c d : UInt8}

theorem formLength_eq_one : formLength b = some 1 ↔ b.toNat < 0x80 := by
  rw [formLength]
  grind

theorem formLength_eq_two : formLength b = some 2 ↔ 0xc0 ≤ b.toNat ∧ b.toNat < 0xe0 := by
  rw [formLength]
  grind

theorem formLength_eq_three : formLength b = some 3 ↔ 0xe0 ≤ b.toNat ∧ b.toNat < 0xf0 := by
  rw [formLength]
  grind

theorem formLength_eq_four : formLength b = some 4 ↔ 0xf0 ≤ b.toNat ∧ b.toNat < 0xf8 := by
  rw [formLength]
  grind

theorem formLength_le {k : Nat} (h : formLength b = some k) : 1 ≤ k ∧ k ≤ 4 := by
  rw [formLength] at h
  grind

theorem wellFormed_one : Complete [a] ∧ ¬Misformed [a] ↔ a.toNat < 0x80 := by
  rw [complete_cons, List.length_nil, formLength_eq_one]
  simp only [Misformed, Overlong, NoCharacter, byteAt, List.tail_cons, List.getD_cons_zero,
    List.not_mem_nil, false_and, exists_false, or_false]
  constructor
  · intro h
    exact h.1.1
  · intro h
    exact ⟨⟨h, fun _ hx ↦ hx.elim⟩, by omega⟩

theorem wellFormed_two :
    Complete [a, b] ∧ ¬Misformed [a, b] ↔ (0xc2 ≤ a.toNat ∧ a.toNat < 0xe0) ∧ IsTail b := by
  rw [complete_cons, List.length_singleton, formLength_eq_two]
  simp only [Misformed, Overlong, NoCharacter, IsTail, byteAt, List.tail_cons, List.getD_cons_zero,
    List.getD_cons_succ, List.mem_singleton, forall_eq, exists_eq_left]
  omega

theorem wellFormed_three :
    Complete [a, b, c] ∧ ¬Misformed [a, b, c] ↔ (0xe0 ≤ a.toNat ∧ a.toNat < 0xf0) ∧
      (IsTail b ∧ IsTail c) ∧ (a.toNat = 0xe0 → 0xa0 ≤ b.toNat) ∧
        (a.toNat = 0xed → b.toNat < 0xa0) := by
  rw [complete_cons, show [b, c].length + 1 = 3 from rfl, formLength_eq_three]
  simp only [Misformed, Overlong, NoCharacter, IsTail, byteAt, List.tail_cons, List.getD_cons_zero,
    List.getD_cons_succ, List.mem_cons, List.not_mem_nil, or_false, forall_eq_or_imp, forall_eq,
    exists_eq_or_imp, exists_eq_left]
  omega

theorem wellFormed_four :
    Complete [a, b, c, d] ∧ ¬Misformed [a, b, c, d] ↔ (0xf0 ≤ a.toNat ∧ a.toNat < 0xf5) ∧
      (IsTail b ∧ IsTail c ∧ IsTail d) ∧ (a.toNat = 0xf0 → 0x90 ≤ b.toNat) ∧
        (a.toNat = 0xf4 → b.toNat < 0x90) := by
  rw [complete_cons, show [b, c, d].length + 1 = 4 from rfl, formLength_eq_four]
  simp only [Misformed, Overlong, NoCharacter, IsTail, byteAt, List.tail_cons, List.getD_cons_zero,
    List.getD_cons_succ, List.mem_cons, List.not_mem_nil, or_false, forall_eq_or_imp, forall_eq,
    exists_eq_or_imp, exists_eq_left]
  omega

end

theorem isTail_ofNat {x : Nat} (h : x < 64) : IsTail (UInt8.ofNat (0x80 + x)) := by
  rw [IsTail, uint8_toNat_ofNat (by omega)]
  omega

/-- The encoding of a character is a form of it. -/
theorem wellFormed_utf8EncodeChar (c : Char) :
    Complete (String.utf8EncodeChar c) ∧ ¬Misformed (String.utf8EncodeChar c) := by
  have hr := char_range c
  generalize hv : c.toNat = v at hr
  by_cases h7 : v < 0x80
  · rw [utf8EncodeChar_one hv h7, wellFormed_one, uint8_toNat_ofNat (by omega)]
    exact h7
  by_cases h11 : v < 0x800
  · rw [utf8EncodeChar_two hv (by omega) h11, wellFormed_two, uint8_toNat_ofNat (by omega)]
    exact ⟨by omega, isTail_ofNat (by omega)⟩
  by_cases h16 : v < 0x10000
  · rw [utf8EncodeChar_three hv (by omega) h16, wellFormed_three, uint8_toNat_ofNat (by omega),
      uint8_toNat_ofNat (by omega)]
    exact ⟨by omega, ⟨isTail_ofNat (by omega), isTail_ofNat (by omega)⟩, by omega, by omega⟩
  · rw [utf8EncodeChar_four hv (by omega) (by omega), wellFormed_four, uint8_toNat_ofNat (by omega),
      uint8_toNat_ofNat (by omega)]
    exact ⟨by omega,
      ⟨isTail_ofNat (by omega), isTail_ofNat (by omega), isTail_ofNat (by omega)⟩,
      by omega, by omega⟩

theorem uint8_ofNat_eq {x : Nat} {b : UInt8} (h : x = b.toNat) : UInt8.ofNat x = b := by
  rw [h, UInt8.ofNat_toNat]

/-- Each form that is complete and not misformed is that of a character. -/
theorem exists_utf8EncodeChar {p : List UInt8} (h : Complete p) (hm : ¬Misformed p) :
    ∃ c, String.utf8EncodeChar c = p := by
  match p with
  | [] => exact absurd h.1 (Option.some_ne_none _).symm
  | [a] =>
    have hw := wellFormed_one.1 ⟨h, hm⟩
    obtain ⟨ch, hv⟩ := @exists_char a.toNat (by omega)
    exact ⟨ch, by rw [utf8EncodeChar_one hv hw, UInt8.ofNat_toNat]⟩
  | [a, b] =>
    have hw := wellFormed_two.1 ⟨h, hm⟩
    rw [IsTail] at hw
    obtain ⟨ch, hv⟩ := @exists_char ((a.toNat - 0xc0) * 64 + (b.toNat - 0x80)) (by omega)
    refine ⟨ch, ?_⟩
    rw [utf8EncodeChar_two hv (by omega) (by omega), uint8_ofNat_eq (b := a) (by omega),
      uint8_ofNat_eq (b := b) (by omega)]
  | [a, b, c] =>
    have hw := wellFormed_three.1 ⟨h, hm⟩
    rw [IsTail, IsTail] at hw
    obtain ⟨ch, hv⟩ := @exists_char
      ((a.toNat - 0xe0) * 4096 + (b.toNat - 0x80) * 64 + (c.toNat - 0x80)) (by omega)
    refine ⟨ch, ?_⟩
    rw [utf8EncodeChar_three hv (by omega) (by omega), uint8_ofNat_eq (b := a) (by omega),
      uint8_ofNat_eq (b := b) (by omega), uint8_ofNat_eq (b := c) (by omega)]
  | [a, b, c, d] =>
    have hw := wellFormed_four.1 ⟨h, hm⟩
    rw [IsTail, IsTail, IsTail] at hw
    obtain ⟨ch, hv⟩ := @exists_char ((a.toNat - 0xf0) * 262144 + (b.toNat - 0x80) * 4096 +
      (c.toNat - 0x80) * 64 + (d.toNat - 0x80)) (by omega)
    refine ⟨ch, ?_⟩
    rw [utf8EncodeChar_four hv (by omega) (by omega), uint8_ofNat_eq (b := a) (by omega),
      uint8_ofNat_eq (b := b) (by omega), uint8_ofNat_eq (b := c) (by omega),
      uint8_ofNat_eq (b := d) (by omega)]
  | a :: b :: c :: d :: e :: bs =>
    have hk := (formLength_le (complete_cons.1 h).1).2
    simp only [List.length_cons] at hk
    omega

/-! ## Texts -/

theorem forms_nil : forms [] = [] := by rw [forms]

/-- A complete form is taken as one. -/
theorem forms_append {p : List UInt8} (h : Complete p) (h0 : p.head? ≠ some 0) (s : List UInt8) :
    forms (p ++ s) = p :: forms s := by
  cases p with
  | nil => exact absurd h.1 (Option.some_ne_none _).symm
  | cons b bs =>
    rw [List.head?_cons, ne_eq, Option.some_inj] at h0
    rw [List.cons_append, forms, if_neg h0, (complete_cons.1 h).1]
    dsimp only
    rw [Nat.add_sub_cancel, List.take_left, List.drop_left]

/-- A complete form has no NUL, but that of the NUL. -/
theorem Complete.ne_zero {p : List UInt8} (h : Complete p) (h0 : p.head? ≠ some 0) :
    ∀ b ∈ p, b ≠ 0 := by
  cases p with
  | nil => exact List.forall_mem_nil _
  | cons b bs =>
    rw [List.head?_cons, ne_eq, Option.some_inj] at h0
    refine List.forall_mem_cons.2 ⟨h0, ?_⟩
    rintro x hx rfl
    exact absurd ((complete_cons.1 h).2 0 hx) (by decide)

theorem forms_encode {chars : List Char} (h0 : ∀ b ∈ chars.flatMap String.utf8EncodeChar, b ≠ 0)
    {rest : List UInt8} (hrest : forms rest = []) :
    forms (chars.flatMap String.utf8EncodeChar ++ rest) = chars.map String.utf8EncodeChar := by
  induction chars with
  | nil => exact hrest
  | cons c cs ih =>
    rw [List.flatMap_cons] at h0 ⊢
    have hhead : (String.utf8EncodeChar c).head? ≠ some 0 := fun h ↦
      h0 0 (List.mem_append_left _ (List.mem_of_mem_head? h)) rfl
    rw [List.append_assoc, forms_append (wellFormed_utf8EncodeChar c).1 hhead,
      ih fun b hb ↦ h0 b (List.mem_append_right _ hb), List.map_cons]

theorem forms_dropWhile (s : List UInt8) : forms (s.dropWhile (· ≠ 0)) = [] := by
  induction s with
  | nil => exact forms_nil
  | cons b bs ih =>
    by_cases hb : b = 0
    · rw [List.dropWhile_cons_of_neg (by simp [hb]), forms, if_pos hb]
    · rw [List.dropWhile_cons_of_pos (by simp [hb]), ih]

/-- What is in front of the NUL is the encoding of characters if each form is that of one. -/
theorem utf8_iff {s : List UInt8} :
    (∃ chars : List Char, s.takeWhile (· ≠ 0) = chars.flatMap String.utf8EncodeChar) ↔
      ∀ p ∈ forms s, Complete p ∧ ¬Misformed p := by
  constructor
  · rintro ⟨chars, hs⟩ p hp
    have h0 : ∀ b ∈ chars.flatMap String.utf8EncodeChar, b ≠ 0 := by
      intro b hb
      rw [← hs] at hb
      simpa using List.mem_takeWhile_imp hb
    rw [← @List.takeWhile_append_dropWhile _ (· ≠ 0) s, hs, forms_encode h0 (forms_dropWhile s),
      List.mem_map] at hp
    obtain ⟨c, -, rfl⟩ := hp
    exact wellFormed_utf8EncodeChar c
  · intro h
    fun_induction forms s with
    | case1 => exact ⟨[], rfl⟩
    | case2 bs => exact ⟨[], by rw [List.takeWhile_cons_of_neg (by simp), List.flatMap_nil]⟩
    | case3 b bs hb hlen =>
      have hp := (complete_cons.1 (h [b] (List.mem_singleton_self _)).1).1
      rw [hlen] at hp
      exact absurd hp (Option.some_ne_none _).symm
    | case4 b bs hb k hlen ih =>
      obtain ⟨hp, hrest⟩ := List.forall_mem_cons.1 h
      obtain ⟨chars, hchars⟩ := ih hrest
      obtain ⟨c, hc⟩ := exists_utf8EncodeChar hp.1 hp.2
      have hzero := hp.1.ne_zero (fun hhead ↦ hb (Option.some_inj.1 hhead))
      refine ⟨c :: chars, ?_⟩
      rw [List.flatMap_cons, hc, ← hchars, ← List.takeWhile_append_of_pos, List.cons_append,
        List.take_append_drop]
      intro x hx
      exact decide_eq_true (hzero x hx)

end Lib
