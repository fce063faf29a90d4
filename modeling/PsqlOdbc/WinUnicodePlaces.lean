import PsqlOdbc.WinUnicodeValid

/-!
# Parts of a UTF-8 text

A text is cut at a place by bytes.  A part of it that begins and ends at the boundaries of
characters is converted as text, and no other part is: `isText_or_isCut` tells the two apart, with
the characters that lie behind the part.
-/

namespace PsqlOdbc

open Lib Lib.CountingBuffer

/-! ## Characters and places -/

section

variable {c : Char} {before chars behind mid : List Char} {p : Nat}

theorem utf8Encode_append (before behind : List Char) :
    utf8Encode (before ++ behind) = utf8Encode before ++ utf8Encode behind :=
  List.flatMap_append

theorem utf8Encode_cons (c : Char) (chars : List Char) :
    utf8Encode (c :: chars) = String.utf8EncodeChar c ++ utf8Encode chars := List.flatMap_cons

theorem utf16Encode_append (before behind : List Char) :
    utf16Encode (before ++ behind) = utf16Encode before ++ utf16Encode behind :=
  List.flatMap_append

theorem utf16Encode_cons (c : Char) (chars : List Char) :
    utf16Encode (c :: chars) = utf16EncodeChar c ++ utf16Encode chars := List.flatMap_cons

theorem utf8Encode_nil : utf8Encode [] = [] := rfl

/-- A place in the UTF-8 form of a text at which a character begins, or the text ends. -/
def IsBoundary (chars : List Char) (p : Nat) : Prop :=
  ∃ before behind, chars = before ++ behind ∧ (utf8Encode before).length = p

/-- A place strictly within a character. -/
def IsInside (chars : List Char) (p : Nat) : Prop :=
  ∃ before c behind, chars = before ++ c :: behind ∧ (utf8Encode before).length < p ∧
    p < (utf8Encode before).length + (String.utf8EncodeChar c).length

/-- Each place is at the boundary of a character, or within one. -/
theorem isBoundary_or_isInside (h : p ≤ (utf8Encode chars).length) :
    IsBoundary chars p ∨ IsInside chars p := by
  induction chars generalizing p with
  | nil => exact Or.inl ⟨[], [], rfl, (Nat.le_zero.1 h).symm⟩
  | cons c chars ih =>
    rw [utf8Encode_cons, List.length_append] at h
    by_cases hzero : p = 0
    · exact Or.inl ⟨[], c :: chars, rfl, hzero.symm⟩
    by_cases hlt : p < (String.utf8EncodeChar c).length
    · exact Or.inr ⟨[], c, chars, rfl, Nat.pos_of_ne_zero hzero, by
        rwa [utf8Encode_nil, List.length_nil, Nat.zero_add]⟩
    have hcons : ∀ before, (utf8Encode (c :: before)).length =
        (String.utf8EncodeChar c).length + (utf8Encode before).length := by
      intro before
      rw [utf8Encode_cons, List.length_append]
    rcases @ih (p - (String.utf8EncodeChar c).length) (by omega) with
      ⟨before, behind, rfl, hlen⟩ | ⟨before, d, behind, rfl, hgt, hlt'⟩
    · refine Or.inl ⟨c :: before, behind, rfl, ?_⟩
      rw [hcons]
      omega
    · refine Or.inr ⟨c :: before, d, behind, rfl, ?_, ?_⟩
      · rw [hcons]
        omega
      · rw [hcons]
        omega

theorem IsInside.lt (h : IsInside chars p) : p < (utf8Encode chars).length := by
  obtain ⟨before, c, behind, rfl, -, hlt⟩ := h
  rw [utf8Encode_append, utf8Encode_cons, List.length_append, List.length_append]
  omega

/-- And not both. -/
theorem IsInside.not_isBoundary (h : IsInside chars p) : ¬IsBoundary chars p := by
  obtain ⟨before, c, behind, rfl, hgt, hlt⟩ := h
  rintro ⟨before', behind', heq, rfl⟩
  rcases List.append_eq_append_iff.1 heq with ⟨mid, rfl, hmid⟩ | ⟨mid, rfl, -⟩
  · rw [utf8Encode_append, List.length_append] at hgt hlt
    cases mid with
    | nil =>
      rw [utf8Encode_nil, List.length_nil] at hgt
      omega
    | cons d mid =>
      obtain rfl : c = d := (List.cons.inj hmid).1
      rw [utf8Encode_cons, List.length_append] at hlt
      omega
  · rw [utf8Encode_append, List.length_append] at hgt
    omega

/-- The first byte of a character tells its length, and the others are none to begin with. -/
theorem formLength_utf8EncodeChar (c : Char) :
    ∃ b tail, String.utf8EncodeChar c = b :: tail ∧ formLength b = some (tail.length + 1) ∧
      ∀ x ∈ tail, formLength x = none ∧ x ≠ 0 := by
  obtain ⟨hcomplete, hmisformed⟩ := wellFormed_utf8EncodeChar c
  cases he : String.utf8EncodeChar c with
  | nil =>
    rw [he] at hcomplete
    exact absurd hcomplete.1 (Option.some_ne_none _).symm
  | cons b tail =>
    rw [he] at hcomplete hmisformed
    refine ⟨b, tail, rfl, (complete_cons.1 hcomplete).1, ?_⟩
    intro x hx
    have hge := (complete_cons.1 hcomplete).2 x hx
    have hlt : x.toNat < 0xc0 := by
      by_contra hnot
      exact hmisformed (Or.inr (Or.inr ⟨x, hx, Nat.le_of_not_lt hnot⟩))
    constructor
    · rw [formLength, if_neg (by omega), if_pos hlt]
    · rintro rfl
      exact absurd hge (by decide)

/-- A character of more than one byte has a unit that is not ASCII. -/
theorem exists_unit_of_length_ne (h : (String.utf8EncodeChar c).length ≠ 1) :
    ∃ u ∈ utf16EncodeChar c, 0x80 ≤ u.toNat := by
  have hr := char_range c
  have h7 : 0x80 ≤ c.toNat := by
    by_contra hlt
    rw [utf8EncodeChar_one rfl (Nat.lt_of_not_le hlt)] at h
    exact h rfl
  by_cases hbmp : c.toNat < 0x10000
  · refine ⟨_, by rw [utf16EncodeChar_one rfl hbmp]; exact List.mem_singleton_self _, ?_⟩
    rwa [uint16_toNat_ofNat hbmp]
  · obtain ⟨u, hu⟩ : ∃ u, c.toNat = u + 0x10000 := ⟨c.toNat - 0x10000, by omega⟩
    refine ⟨_, by rw [utf16EncodeChar_two rfl hu]; exact List.mem_cons_self, ?_⟩
    rw [uint16_toNat_ofNat (by omega)]
    omega

theorem length_utf16EncodeChar_le (c : Char) :
    (utf16EncodeChar c).length ≤ (String.utf8EncodeChar c).length := by
  have hr := char_range c
  by_cases hbmp : c.toNat < 0x10000
  · obtain ⟨b, tail, he, -⟩ := formLength_utf8EncodeChar c
    rw [utf16EncodeChar_one rfl hbmp, he, List.length_singleton, List.length_cons]
    omega
  · rw [utf16EncodeChar_two (u := c.toNat - 0x10000) rfl (by omega),
      utf8EncodeChar_four rfl (by omega) (by omega)]
    exact (by decide : 2 ≤ 4)

/-- The UTF-16 form of a text has no more units than the other has bytes. -/
theorem length_utf16Encode_le (chars : List Char) :
    (utf16Encode chars).length ≤ (utf8Encode chars).length := by
  induction chars with
  | nil => exact le_rfl
  | cons c chars ih =>
    have hc := length_utf16EncodeChar_le c
    rw [utf16Encode_cons, utf8Encode_cons, List.length_append, List.length_append]
    omega

end

/-! ## Converting a record -/

section

variable {c : Char} {chars : List Char} {rest : List UInt8} {prev : Option UInt8} {n p m : Nat}

/-- What begins within a character is not converted. -/
theorem utf8Loop_of_isInside (h : IsInside chars p) (hm : m ≠ 0) (hn : n ≠ 0) :
    utf8Loop false true prev (((utf8Encode chars).drop p).take m ++ rest) n = none := by
  obtain ⟨before, c, behind, rfl, hgt, hlt⟩ := h
  obtain ⟨b, tail, he, -, htail⟩ := formLength_utf8EncodeChar c
  obtain ⟨i, rfl⟩ : ∃ i, p = (utf8Encode before).length + (i + 1) :=
    ⟨p - (utf8Encode before).length - 1, by omega⟩
  rw [he, List.length_cons] at hlt
  have hi : i < tail.length := by omega
  obtain ⟨hnone, hx⟩ := htail _ (List.getElem_mem hi)
  obtain ⟨k, rfl⟩ := Nat.exists_eq_succ_of_ne_zero hm
  rw [utf8Encode_append, List.drop_length_add_append, utf8Encode_cons, he, List.cons_append,
    List.drop_succ_cons, List.drop_append_of_le_length hi.le, List.drop_eq_getElem_cons hi,
    List.cons_append, List.take_succ_cons, List.cons_append, utf8Loop_cons,
    utf8Round_none hn hx hnone]

/-- A character that is cut off is not converted. -/
theorem utf8Loop_take (hc : c ≠ Char.ofNat 0) {j : Nat} (hj : 0 < j)
    (hlt : j < (String.utf8EncodeChar c).length) :
    utf8Loop false true prev ((String.utf8EncodeChar c).take j ++ rest) j = none := by
  obtain ⟨b, tail, he, hform, -⟩ := formLength_utf8EncodeChar c
  have hb : b ≠ 0 := by
    have hzero := @zero_notMem_utf8Encode [c] (by rwa [List.mem_singleton, eq_comm])
    rw [utf8Encode_cons, he, List.cons_append, List.mem_cons, not_or] at hzero
    exact Ne.symm hzero.1
  obtain ⟨i, rfl⟩ := Nat.exists_eq_succ_of_ne_zero hj.ne'
  rw [he, List.length_cons] at hlt
  obtain ⟨puts, hround, -⟩ := @utf8Round_form false true prev b (tail.take i ++ rest) (i + 1) _
    (Nat.succ_ne_zero i) hb hform
  rw [he, List.take_succ_cons, List.cons_append, utf8Loop_cons, hround, formRound_eq,
    if_pos ⟨rfl, Or.inl hlt⟩]

/-- The characters in front of it are. -/
theorem utf8Loop_chars (h0 : Char.ofNat 0 ∉ chars) (hn : (utf8Encode chars).length ≤ n) :
    ∃ prev', utf8Loop false true prev (utf8Encode chars ++ rest) n =
      (utf8Loop false true prev' rest (n - (utf8Encode chars).length)).map
        (utf16Encode chars ++ ·) := by
  induction chars generalizing prev n with
  | nil => exact ⟨prev, Option.map_id'.symm⟩
  | cons c cs ih =>
    rw [List.mem_cons, not_or] at h0
    rw [utf8Encode_cons, List.length_append] at hn ⊢
    obtain ⟨prev', hchar⟩ := utf8Loop_char true (Ne.symm h0.1) prev (utf8Encode cs ++ rest)
      (n := n) (by omega)
    obtain ⟨prev'', hrest⟩ : ∃ prev'', utf8Loop false true prev' (utf8Encode cs ++ rest)
        (n - (String.utf8EncodeChar c).length) =
        (utf8Loop false true prev'' rest
          (n - (String.utf8EncodeChar c).length - (utf8Encode cs).length)).map
          (utf16Encode cs ++ ·) := ih h0.2 (by omega)
    refine ⟨prev'', ?_⟩
    rw [List.append_assoc, hchar, hrest, Option.map_map, Nat.sub_sub, utf16Encode_cons]
    congr 1
    funext us
    exact (List.append_assoc _ _ _).symm

/-! ## The characters behind a place -/

/-- The characters that begin at a place or behind it. -/
def charsFrom : Nat → List Char → List Char
  | _, [] => []
  | p, c :: chars =>
    if p = 0 then c :: chars else charsFrom (p - (String.utf8EncodeChar c).length) chars

theorem charsFrom_zero (chars : List Char) : charsFrom 0 chars = chars := by
  cases chars with
  | nil => rfl
  | cons c chars => rw [charsFrom, if_pos rfl]

theorem charsFrom_append (before behind : List Char) (p : Nat) :
    charsFrom ((utf8Encode before).length + p) (before ++ behind) = charsFrom p behind := by
  induction before with
  | nil => rw [utf8Encode_nil, List.length_nil, Nat.zero_add, List.nil_append]
  | cons c before ih =>
    obtain ⟨b, tail, he, -⟩ := formLength_utf8EncodeChar c
    rw [utf8Encode_cons, List.length_append, List.cons_append, charsFrom, if_neg, Nat.add_assoc,
      Nat.add_sub_cancel_left, ih]
    rw [he, List.length_cons]
    omega

theorem charsFrom_suffix (chars : List Char) (p : Nat) : charsFrom p chars <:+ chars := by
  induction chars generalizing p with
  | nil => exact List.suffix_refl []
  | cons c chars ih =>
    by_cases hp : p = 0
    · exact ⟨[], by rw [hp, charsFrom_zero, List.nil_append]⟩
    · rw [charsFrom, if_neg hp]
      exact (ih _).trans (List.suffix_cons c chars)

theorem charsFrom_suffix_of_le {q : Nat} (h : p ≤ q) (chars : List Char) :
    charsFrom q chars <:+ charsFrom p chars := by
  induction chars generalizing p q with
  | nil => exact List.suffix_refl []
  | cons c chars ih =>
    by_cases hp : p = 0
    · rw [hp, charsFrom_zero]
      exact charsFrom_suffix _ _
    · rw [charsFrom, charsFrom, if_neg hp, if_neg (by omega)]
      exact ih (by omega)

theorem charsFrom_of_le (h : (utf8Encode chars).length ≤ p) : charsFrom p chars = [] := by
  have happend := charsFrom_append chars [] (p - (utf8Encode chars).length)
  rwa [List.append_nil, Nat.add_sub_cancel' h] at happend

/-! ## The records of a message -/

/-- A record that is text. -/
structure IsText (chars : List Char) (p m : Nat) (mid : List Char) : Prop where
  sublist : mid <:+: chars
  record : ((utf8Encode chars).drop p).take m = utf8Encode mid
  from_eq : charsFrom p chars = mid ++ charsFrom (p + m) chars
  boundary : p + m < (utf8Encode chars).length → IsBoundary chars (p + m)

/-- A record that begins or ends within a character. -/
structure IsCut (chars : List Char) (p m : Nat) : Prop where
  cut : IsInside chars p ∨ IsInside chars (p + m)
  notText : ∀ (rest : List UInt8) (prev : Option UInt8),
    utf8Loop false true prev (((utf8Encode chars).drop p).take m ++ rest)
      (((utf8Encode chars).drop p).take m).length = none
  /-- If it begins at a character, the one that it ends in is not behind it. -/
  lost : IsBoundary chars p → ∃ mid c, (String.utf8EncodeChar c).length ≠ 1 ∧
    charsFrom p chars = mid ++ c :: charsFrom (p + m) chars

theorem isText_or_isCut (h0 : Char.ofNat 0 ∉ chars) (hp : p < (utf8Encode chars).length)
    (hm : m ≠ 0) : (∃ mid, IsText chars p m mid) ∨ IsCut chars p m := by
  rcases isBoundary_or_isInside hp.le with hboundary | hinside
  · obtain ⟨before, behind, rfl, rfl⟩ := hboundary
    have hdrop : (utf8Encode (before ++ behind)).drop (utf8Encode before).length =
        utf8Encode behind := by rw [utf8Encode_append, List.drop_left]
    have hfrom : charsFrom (utf8Encode before).length (before ++ behind) = behind := by
      have happend := charsFrom_append before behind 0
      rwa [Nat.add_zero, charsFrom_zero] at happend
    have hnul : Char.ofNat 0 ∉ behind := fun h ↦ h0 (List.mem_append_right _ h)
    rw [utf8Encode_append, List.length_append] at hp
    rcases Nat.lt_or_ge m (utf8Encode behind).length with hlt | hge
    · rcases isBoundary_or_isInside hlt.le with ⟨mid, later, rfl, rfl⟩ |
        ⟨mid, c, later, rfl, hgt, hlt'⟩
      · refine Or.inl ⟨mid, ⟨before, later, List.append_assoc _ _ _⟩, ?_, ?_, fun _ ↦ ?_⟩
        · rw [hdrop, utf8Encode_append, List.take_left]
        · rw [hfrom, charsFrom_append]
          have happend := charsFrom_append mid later 0
          rw [Nat.add_zero, charsFrom_zero] at happend
          rw [happend]
        · exact ⟨before ++ mid, later, (List.append_assoc _ _ _).symm, by
            rw [utf8Encode_append, List.length_append]⟩
      · obtain ⟨j, rfl⟩ : ∃ j, m = (utf8Encode mid).length + j :=
          ⟨_, (Nat.add_sub_of_le hgt.le).symm⟩
        have hrecord : (utf8Encode (mid ++ c :: later)).take ((utf8Encode mid).length + j) =
            utf8Encode mid ++ (String.utf8EncodeChar c).take j := by
          rw [utf8Encode_append, List.take_length_add_append, utf8Encode_cons,
            List.take_append_of_le_length (by omega)]
        refine Or.inr ⟨Or.inr ⟨before ++ mid, c, later, ?_, ?_, ?_⟩, ?_, fun _ ↦ ⟨mid, c, ?_, ?_⟩⟩
        · rw [List.append_assoc]
        · rw [utf8Encode_append, List.length_append]
          omega
        · rw [utf8Encode_append, List.length_append]
          omega
        · intro rest prev
          rw [hdrop, hrecord, List.append_assoc, List.length_append, List.length_take,
            Nat.min_eq_left (by omega)]
          obtain ⟨prev', hchars⟩ := @utf8Loop_chars mid ((String.utf8EncodeChar c).take j ++ rest)
            prev ((utf8Encode mid).length + j) (fun h ↦ hnul (List.mem_append_left _ h))
            (Nat.le_add_right _ _)
          have hc : c ≠ Char.ofNat 0 := fun h ↦ hnul (by rw [h]; simp)
          rw [hchars, Nat.add_sub_cancel_left, utf8Loop_take hc (by omega) (by omega),
            Option.map_none]
        · omega
        · rw [hfrom, charsFrom_append, charsFrom_append, charsFrom, if_neg (by omega),
            Nat.sub_eq_zero_of_le (by omega), charsFrom_zero]
    · refine Or.inl ⟨behind, List.infix_append_right, ?_, ?_, fun h ↦ ?_⟩
      · rw [hdrop, List.take_of_length_le hge]
      · rw [hfrom, charsFrom_of_le, List.append_nil]
        rw [utf8Encode_append, List.length_append]
        omega
      · rw [utf8Encode_append, List.length_append] at h
        omega
  · refine Or.inr ⟨Or.inl hinside, fun rest prev ↦ ?_, fun hboundary ↦ ?_⟩
    · refine utf8Loop_of_isInside hinside hm ?_
      rw [List.length_take, List.length_drop]
      omega
    · exact (hinside.not_isBoundary hboundary).elim

end

/-! ## Converting in the memory of the application -/

section

variable {str : List UInt8} {ilen : Int} {lfconv errcheck : Bool} {mem : List UInt16} {max : Nat}
  {units : List UInt16}

/-- The conversion in the first cells of the memory. -/
theorem utf8ToUcs2LfBuffer_mem (hmax : max ≤ mem.length) :
    ∃ units ok, utf8Loop lfconv errcheck none str (utf8Length str ilen) =
        (if ok = true then some units else none) ∧
      utf8ToUcs2LfBuffer (some str) ilen lfconv (some mem) max errcheck =
        some (lengthAfter errcheck (units, ok),
          bufferAfter 0 (units, ok) (mem.take max) ++ mem.drop max) := by
  have hcall := @utf8ToWideLf_buffer _ ucs2Target lfconv errcheck 0 str ilen (mem.take max)
    (mem.drop max)
  rw [List.take_append_drop, List.length_take, Nat.min_eq_left hmax] at hcall
  exact ⟨_, _, utf8Units_ucs2 none str (utf8Length str ilen), hcall⟩

theorem utf8ToUcs2LfBuffer_of_some (hmax : max ≤ mem.length)
    (hloop : utf8Loop lfconv errcheck none str (utf8Length str ilen) = some units) :
    utf8ToUcs2LfBuffer (some str) ilen lfconv (some mem) max errcheck =
      some (units.length,
        overwrite mem (if units.length < max then units ++ [0] else units.take max)) := by
  obtain ⟨units', ok, hloop', hcall⟩ :=
    @utf8ToUcs2LfBuffer_mem str ilen lfconv errcheck mem max hmax
  have hlen : (mem.take max).length = max := List.length_take_of_le hmax
  cases ok with
  | false =>
    rw [hloop] at hloop'
    cases hloop'
  | true =>
    rw [hloop] at hloop'
    obtain rfl : units = units' := Option.some.inj hloop'
    rw [hcall, lengthAfter, bufferAfter, if_pos rfl, if_pos rfl, hlen, ← overwrite_append,
      List.take_append_drop]
    rw [hlen]
    split_ifs
    · rw [List.length_append, List.length_singleton]
      omega
    · exact List.length_take_le _ _

theorem utf8ToUcs2LfBuffer_of_none (hmax : max ≤ mem.length)
    (hloop : utf8Loop lfconv true none str (utf8Length str ilen) = none) :
    ∃ mem', utf8ToUcs2LfBuffer (some str) ilen lfconv (some mem) max true =
      some (sqlulenMinusOne, mem') ∧ mem'.length = mem.length := by
  obtain ⟨units', ok, hloop', hcall⟩ := @utf8ToUcs2LfBuffer_mem str ilen lfconv true mem max hmax
  have hlen : (mem.take max).length = max := List.length_take_of_le hmax
  cases ok with
  | true =>
    rw [hloop] at hloop'
    cases hloop'
  | false =>
    refine ⟨_, hcall, ?_⟩
    rw [bufferAfter, if_neg Bool.false_ne_true, List.length_append, List.length_set,
      length_overwrite (List.length_take_le _ _), hlen, List.length_drop, Nat.add_sub_of_le hmax]

/-- Without the checks, there is always a result. -/
theorem utf8ToUcs2LfBuffer_isSome (hmax : max ≤ mem.length) :
    ∃ n mem', utf8ToUcs2LfBuffer (some str) ilen lfconv (some mem) max errcheck =
      some (n, mem') := by
  obtain ⟨units', ok, -, hcall⟩ := @utf8ToUcs2LfBuffer_mem str ilen lfconv errcheck mem max hmax
  exact ⟨_, _, hcall⟩

/-- What stands in front of the terminator. -/
theorem overwrite_inj {mem' units' : List UInt16} (h0 : 0 ∉ units) (h0' : 0 ∉ units')
    (h : overwrite mem (units ++ [0]) = overwrite mem' (units' ++ [0])) : units = units' := by
  have htake : ∀ {us : List UInt16} (rest : List UInt16), 0 ∉ us →
      (us ++ 0 :: rest).takeWhile (· ≠ 0) = us := by
    intro us rest hus
    rw [List.takeWhile_append_of_pos]
    · exact List.append_nil us
    · intro x hx
      exact decide_eq_true fun hzero ↦ hus (hzero ▸ hx)
  rw [overwrite, overwrite, List.append_assoc, List.append_assoc] at h
  rw [← htake _ h0, ← htake _ h0']
  exact congrArg _ h

/-- A unit of an ASCII character. -/
def IsAscii (units : List UInt16) : Prop := ∀ u ∈ units, u.toNat < 0x80

/-- Bytes of ASCII characters are converted one by one. -/
theorem utf8Loop_ascii (hascii : ∀ b ∈ str, 0 < b.toNat ∧ b.toNat < 0x80) (prev : Option UInt8)
    (rest : List UInt8) :
    utf8Loop false errcheck prev (str ++ rest) str.length =
      some (str.map fun b ↦ UInt16.ofNat b.toNat) := by
  induction str generalizing prev with
  | nil =>
    cases rest with
    | nil => rw [List.append_nil, utf8Loop]; rfl
    | cons b rest =>
      rw [List.nil_append, utf8Loop]
      exact if_pos (Or.inl rfl)
  | cons b str ih =>
    obtain ⟨hpos, hlt⟩ := hascii b List.mem_cons_self
    have hb : b ≠ 0 := by
      rintro rfl
      exact absurd hpos (by decide)
    rw [List.cons_append, utf8Loop, if_neg (not_or.2 ⟨List.length_cons ▸ Nat.succ_ne_zero _, hb⟩)]
    dsimp only
    rw [if_pos (by rw [and_80]; omega), List.length_cons, Nat.succ_sub_one,
      ih fun x hx ↦ hascii x (List.mem_cons_of_mem b hx)]
    rfl

end

end PsqlOdbc
