import PsqlOdbc.Convert.Linefeeds
import PsqlOdbc.WinUnicodeC16

/-!
# Line feeds on the ways to UTF-16

A text may be converted line feeds first, or while it goes to UTF-16 from UTF-8, from UTF-32 or by
the C library.  Each way looks for the carriage return in front in a way of its own: at the byte,
at the lowest byte of the word, and at the byte where the library is.
-/

namespace PsqlOdbc

open Lib

/-! ## One character after another -/

/-- Each character goes with the one in front of it. -/
def EachAfter (R : Option Char → Char → Prop) : Option Char → List Char → Prop
  | _, [] => True
  | prev, c :: cs => R prev c ∧ EachAfter R (some c) cs

/-- The character in front of a line feed has one UTF-16 unit; there is one. -/
def OneUnitInFront (prev : Option Char) (c : Char) : Prop :=
  c = '\n' → ∃ p ∈ prev, p.toNat < 0x10000

/-- A unit with the lowest byte of LF is one or has a unit with that of CR in front, and in front of
a line feed there is no other unit with that byte than CR. -/
def LowByteTells (prev : Option Char) (c : Char) : Prop :=
  (c.toNat < 0x10000 → c.toNat % 256 = 0x0a → c ≠ '\n' → ∃ p ∈ prev, p.toNat % 256 = 0x0d) ∧
    (c = '\n' → ∀ p ∈ prev, p.toNat % 256 = 0x0d → p = '\r')

instance (R : Option Char → Char → Prop) [∀ prev c, Decidable (R prev c)] :
    ∀ prev chars, Decidable (EachAfter R prev chars)
  | _, [] => .isTrue trivial
  | _, c :: cs =>
    have := instDecidableEachAfter R (some c) cs
    inferInstanceAs (Decidable (_ ∧ _))

instance (prev : Option Char) (c : Char) : Decidable (OneUnitInFront prev c) :=
  decidable_of_iff (c = '\n' → prev.any (·.toNat < 0x10000) = true)
    (by cases prev <;> simp [OneUnitInFront])

instance (prev : Option Char) (c : Char) : Decidable (LowByteTells prev c) :=
  match prev with
  | none => decidable_of_iff (¬(c.toNat < 0x10000 ∧ c.toNat % 256 = 0x0a ∧ c ≠ '\n'))
      (by simp [LowByteTells])
  | some p => decidable_of_iff
      ((c.toNat < 0x10000 → c.toNat % 256 = 0x0a → c ≠ '\n' → p.toNat % 256 = 0x0d) ∧
        (c = '\n' → p.toNat % 256 = 0x0d → p = '\r'))
      (by simp [LowByteTells])

/-- The text with its line feeds converted. -/
def crlfText (chars : List Char) : List Char := crlf '\r' '\n' none chars

section

variable {prev : Option Char} {c : Char} {chars : List Char}

theorem toNat_eq_lf : c.toNat = 0x0a ↔ c = '\n' := by
  constructor
  · intro h
    rw [← Char.ofNat_toNat c, h]
  · rintro rfl
    rfl

/-- The first unit of a character is that of CR for CR only. -/
theorem utf16EncodeChar_head (c : Char) : ∃ u us, utf16EncodeChar c = u :: us ∧
    (u = 0x0d ↔ c = '\r') ∧ (us ≠ [] ↔ 0x10000 ≤ c.toNat) := by
  have hr := char_range c
  rcases Nat.lt_or_ge c.toNat 0x10000 with hbmp | hsup
  · refine ⟨_, _, utf16EncodeChar_one rfl hbmp, ?_, iff_of_false (fun h ↦ h rfl) (by omega)⟩
    constructor
    · intro h
      have hnat := congrArg UInt16.toNat h
      rw [uint16_toNat_ofNat hbmp, show (0x0d : UInt16).toNat = 0x0d from rfl] at hnat
      rw [← Char.ofNat_toNat c, hnat]
    · rintro rfl
      rfl
  · obtain ⟨u, hu⟩ : ∃ u, c.toNat = u + 0x10000 := ⟨c.toNat - 0x10000, by omega⟩
    refine ⟨_, _, utf16EncodeChar_two rfl hu, iff_of_false ?_ ?_,
      iff_of_true (List.cons_ne_nil _ _) hsup⟩
    · intro h
      have hnat := congrArg UInt16.toNat h
      rw [uint16_toNat_ofNat (by omega), show (0x0d : UInt16).toNat = 0x0d from rfl] at hnat
      omega
    · rintro rfl
      exact absurd hsup (by decide)

/-- The UTF-16 form of a converted text, character by character. -/
theorem utf16Encode_crlf_cons (prev : Option Char) (c : Char) (cs : List Char) :
    utf16Encode (crlf '\r' '\n' prev (c :: cs)) =
      (if c = '\n' ∧ prev ≠ some '\r' then [0x0d] else []) ++
        (utf16EncodeChar c ++ utf16Encode (crlf '\r' '\n' (some c) cs)) := by
  rw [crlf]
  split
  · rfl
  · rfl

theorem crPart_or (c : Char) (prev : Option Char) :
    (if c = '\n' ∧ prev ≠ some '\r' then [(0x0d : UInt16)] else []) = [] ∨
      (if c = '\n' ∧ prev ≠ some '\r' then [(0x0d : UInt16)] else []) = [0x0d] ∧ c ≠ '\r' := by
  split
  · next h => exact Or.inr ⟨rfl, by rw [h.1]; decide⟩
  · exact Or.inl rfl

/-- Where the same units follow, a carriage return that is put in is told from them. -/
theorem crPart_cancel {x y s t : List UInt16} (hx : x = [] ∨ x = [0x0d] ∧ c ≠ '\r')
    (hy : y = [] ∨ y = [0x0d] ∧ c ≠ '\r')
    (h : x ++ (utf16EncodeChar c ++ s) = y ++ (utf16EncodeChar c ++ t)) : x = y ∧ s = t := by
  obtain ⟨u, us, he, hu, -⟩ := utf16EncodeChar_head c
  have hcancel : ∀ z : List UInt16, z ++ (utf16EncodeChar c ++ s) = z ++ (utf16EncodeChar c ++ t) →
      s = t := fun z hz ↦ List.append_cancel_left (List.append_cancel_left hz)
  rcases hx with rfl | ⟨rfl, hc⟩
  · rcases hy with rfl | ⟨rfl, hc⟩
    · exact ⟨rfl, hcancel [] h⟩
    · rw [he] at h
      exact absurd (hu.1 (List.cons.inj h).1) hc
  · rcases hy with rfl | ⟨rfl, -⟩
    · rw [he] at h
      exact absurd (hu.1 (List.cons.inj h).1.symm) hc
    · exact ⟨rfl, hcancel [0x0d] h⟩

end

/-! ## Line feeds first, and from UTF-8 -/

section

variable {chars : List Char} (h0 : Char.ofNat 0 ∉ chars)

/-- All bytes are converted if there is room for them. -/
theorem linefeedsLoop_all {max : Nat} {prev : Option UInt8} {out : Nat} {si : List UInt8}
    (hsi : 0 ∉ si) (hroom : out + (linefeedsConverted true prev si).length < max) :
    (linefeedsLoop max true prev out si).1 = linefeedsConverted true prev si := by
  induction si generalizing prev out with
  | nil => rfl
  | cons c si ih =>
    rw [List.mem_cons, not_or] at hsi
    rw [linefeedsConverted_cons] at hroom ⊢
    rw [linefeedsLoop_cons (Ne.symm hsi.1)]
    split at hroom
    · next h =>
      simp only [List.length_cons] at hroom
      rw [if_neg (by omega), if_pos h, if_pos h, ← @ih (some c) (out + 2) hsi.2 (by omega)]
    · next h =>
      simp only [List.length_cons] at hroom
      rw [if_neg (by omega), if_neg h, if_neg h, ← @ih (some c) (out + 1) hsi.2 (by omega)]

theorem lf_notMem_utf8EncodeChar {c : Char} (hc : c ≠ '\n') : 0x0a ∉ String.utf8EncodeChar c := by
  obtain ⟨b, tail, he, hb⟩ := utf8EncodeChar_cons c
  have hform := (wellFormed_utf8EncodeChar c).1
  rw [he, complete_cons] at hform
  rw [he, List.mem_cons, not_or]
  refine ⟨fun h ↦ hc (hb.1 h.symm), ?_⟩
  intro hmem
  exact absurd (hform.2 _ hmem) (by decide)

/-- The bytes are converted as the characters are. -/
theorem linefeedsConverted_text (chars : List Char) :
    linefeedsConverted true none (utf8Encode chars) = utf8Encode (crlfText chars) := by
  rw [linefeedsConverted, if_pos rfl]
  refine @crlf_flatMap Char UInt8 _ _ '\r' '\n' pgCarriageReturn pgLinefeed String.utf8EncodeChar
    rfl rfl (by decide) (fun c hc ↦ lf_notMem_utf8EncodeChar hc) ?_ none chars
  intro c hc
  refine ⟨fun h ↦ hc ((getLast?_utf8EncodeChar c).1 h), ?_⟩
  obtain ⟨b, tail, he, -⟩ := utf8EncodeChar_cons c
  rw [he]
  exact List.cons_ne_nil _ _

include h0

theorem zero_notMem_crlfText : Char.ofNat 0 ∉ crlfText chars := by
  intro h
  rcases mem_crlf h with h | h
  · exact absurd h (by decide)
  · exact h0 h

theorem convertLinefeeds_text {max : Nat} (hmax : (utf8Encode (crlfText chars)).length < max) :
    (convertLinefeeds (utf8Encode chars) true max true).2.2 = utf8Encode (crlfText chars) ++ [0] := by
  rw [convertLinefeeds, if_neg (by omega), if_pos rfl, linefeedsLoop_all
    (zero_notMem_utf8Encode h0) (by rw [linefeedsConverted_text, Nat.zero_add]; exact hmax),
    linefeedsConverted_text]

/-- A terminated text, converted by `utf8_to_ucs2_lf`. -/
theorem utf8ToUcs2LfBuffer_text (lfconv errcheck : Bool) (buf : List UInt16) :
    utf8ToUcs2LfBuffer (some (utf8Encode chars ++ [0])) (-3) lfconv (some buf) buf.length errcheck =
      some ((utf16Encode (if lfconv then crlfText chars else chars)).length,
        filled (utf16Encode (if lfconv then crlfText chars else chars)) buf) := by
  have hlength : utf8Length (utf8Encode chars ++ [0]) (-3) = (utf8Encode chars).length := by
    rw [utf8Length, if_pos (by decide), takeWhile_ne_zero (zero_notMem_utf8Encode h0) rfl]
  have hunits := utf8Units_text ucs2Target lfconv errcheck h0 none [0] rfl
  rw [Option.bind_none, funext charUnits_ucs2] at hunits
  have hbuf := @utf8ToWideLf_buffer _ ucs2Target lfconv errcheck 0 (utf8Encode chars ++ [0]) (-3)
    buf []
  rw [List.append_nil, List.append_nil, hlength, hunits] at hbuf
  exact hbuf

end

/-! ## From UTF-32 -/

/-- The carriage return in front of a word, by lowest bytes. -/
def crWord (prev : Option Char) (c : Char) : List UInt16 :=
  if c.toNat < 0x10000 ∧ c.toNat % 256 = 0x0a ∧ prev.map (·.toNat % 256) ≠ some 0x0d then [0x0d]
  else []

/-- The units for a text. -/
def ucs4Units : Option Char → List Char → List UInt16
  | _, [] => []
  | prev, c :: cs => crWord prev c ++ (utf16EncodeChar c ++ ucs4Units (some c) cs)

theorem ucs4ToUcs2Round_lf (prev : Option Char) (c : Char) :
    ucs4ToUcs2Round true (prev.map fun p ↦ UInt32.ofNat p.toNat) (UInt32.ofNat c.toNat) =
      crWord prev c ++ utf16EncodeChar c := by
  have hr := char_range c
  have hprev : (prev.map fun p ↦ UInt32.ofNat p.toNat).map (·.toNat % 256) =
      prev.map (·.toNat % 256) := by
    cases prev with
    | none => rfl
    | some p =>
      have hp := char_range p
      rw [Option.map_some, Option.map_some, Option.map_some, uint32_toNat_ofNat (by omega)]
  rcases Nat.lt_or_ge c.toNat 0x10000 with hbmp | hsup
  · rw [utf16EncodeChar_one rfl hbmp, ucs4ToUcs2Round, uint32_toNat_ofNat (by omega), hprev, crWord]
    dsimp only
    rw [if_pos (show c.toNat / 0x10000 = 0 by omega), Nat.mod_eq_of_lt hbmp]
    by_cases hlf : c.toNat % 256 = 0x0a ∧ prev.map (·.toNat % 256) ≠ some 0x0d
    · rw [if_pos ⟨rfl, hlf⟩, if_pos ⟨hbmp, hlf⟩]
      rfl
    · rw [if_neg fun h ↦ hlf h.2, if_neg fun h ↦ hlf h.2]
  · have hhigh : ¬c.toNat / 0x10000 = 0 := by omega
    have hnone : crWord prev c = [] := if_neg fun h ↦ absurd h.1 (Nat.not_lt.2 hsup)
    rw [← ucs4ToUcs2Round_char rfl (prev.map fun p ↦ UInt32.ofNat p.toNat), ucs4ToUcs2Round,
      ucs4ToUcs2Round, uint32_toNat_ofNat (by omega), hnone, List.nil_append]
    dsimp only
    rw [if_neg hhigh, if_neg hhigh]

theorem ucs4ToUcs2Loop_lf {chars : List Char} (h0 : Char.ofNat 0 ∉ chars) {bufcount : Nat}
    {mem xs : List UInt16} (h : bufcount ≤ mem.length) (prev : Option Char) (rest : List UInt32)
    {n : Nat} (hn : (utf32Encode chars).length = n) :
    ucs4ToUcs2Loop bufcount true (prev.map fun p ↦ UInt32.ofNat p.toNat)
        (utf32Encode chars ++ rest) n (.holding bufcount mem xs) =
      some (.holding bufcount mem (xs ++ ucs4Units prev chars)) := by
  induction chars generalizing xs prev n with
  | nil =>
    obtain rfl : 0 = n := hn
    rw [utf32Encode, List.map_nil, List.nil_append, ucs4Units, List.append_nil]
    cases rest with
    | nil => rw [ucs4ToUcs2Loop]
    | cons w ws => rw [ucs4ToUcs2Loop, if_pos (Or.inl rfl)]
  | cons c cs ih =>
    rw [List.mem_cons, not_or] at h0
    have hpos : c.toNat ≠ 0 := fun hc ↦ h0.1 (by rw [← Char.ofNat_toNat c, hc])
    have hr := char_range c
    rw [utf32Encode, List.map_cons, ← utf32Encode, List.length_cons] at hn
    have hih := @ih h0.2 (xs ++ (crWord prev c ++ utf16EncodeChar c)) (some c) (n - 1) (by omega)
    rw [Option.map_some, List.append_assoc, List.append_assoc] at hih
    rw [utf32Encode, List.map_cons, ← utf32Encode, List.cons_append, ucs4ToUcs2Loop, if_neg,
      ucs4ToUcs2Round_lf, CountingBuffer.putAll_holding h, Option.bind_some, hih, ucs4Units]
    exact not_or.2 ⟨by omega, uint32_ofNat_ne_zero (by omega) hpos⟩

/-- A carriage return is put in front of the same characters if the lowest bytes tell them. -/
theorem lowByteTells_iff {prev : Option Char} {c : Char} :
    LowByteTells prev c ↔
      crWord prev c = if c = '\n' ∧ prev ≠ some '\r' then [0x0d] else [] := by
  have hword : crWord prev c = (if c = '\n' ∧ prev ≠ some '\r' then [0x0d] else []) ↔
      (c.toNat < 0x10000 ∧ c.toNat % 256 = 0x0a ∧ prev.map (·.toNat % 256) ≠ some 0x0d ↔
        c = '\n' ∧ prev ≠ some '\r') := by
    rw [crWord]
    split
    · next h =>
      split
      · next h' => exact iff_of_true rfl (iff_of_true h h')
      · next h' => exact iff_of_false (List.cons_ne_nil _ _) fun hiff ↦ h' (hiff.1 h)
    · next h =>
      split
      · next h' => exact iff_of_false (List.cons_ne_nil _ _).symm fun hiff ↦ h (hiff.2 h')
      · next h' => exact iff_of_true rfl (iff_of_false h h')
  have hlow : prev.map (·.toNat % 256) = some 0x0d ↔ ∃ p ∈ prev, p.toNat % 256 = 0x0d := by
    rw [Option.map_eq_some_iff]
    rfl
  have hcr : prev = some '\r' → ∃ p ∈ prev, p.toNat % 256 = 0x0d := by
    rintro rfl
    exact ⟨'\r', rfl, by decide⟩
  rw [hword, LowByteTells]
  simp only [ne_eq, hlow]
  constructor
  · rintro ⟨hlf, hback⟩
    constructor
    · rintro ⟨hbmp, hc, hp⟩
      have hceq : c = '\n' := by
        by_contra hne
        exact hp (hlf hbmp hc hne)
      exact ⟨hceq, fun h ↦ hp (hcr h)⟩
    · rintro ⟨rfl, hp⟩
      refine ⟨by decide, by decide, ?_⟩
      rintro ⟨p, hmem, hp'⟩
      exact hp (by rw [hmem, hback rfl p hmem hp'])
  · intro hiff
    constructor
    · intro hbmp hc hne
      by_contra hp
      exact hne (hiff.1 ⟨hbmp, hc, hp⟩).1
    · rintro rfl p hmem hp
      by_contra hne
      have hprev : ¬prev = some '\r' := by
        intro h
        rw [h] at hmem
        exact hne (Option.some_inj.1 hmem).symm
      exact (hiff.2 ⟨rfl, hprev⟩).2.2 ⟨p, hmem, hp⟩

theorem ucs4Units_eq_iff (prev : Option Char) (chars : List Char) :
    ucs4Units prev chars = utf16Encode (crlf '\r' '\n' prev chars) ↔
      EachAfter LowByteTells prev chars := by
  induction chars generalizing prev with
  | nil => exact iff_of_true rfl trivial
  | cons c cs ih =>
    rw [ucs4Units, utf16Encode_crlf_cons, EachAfter, ← ih, lowByteTells_iff]
    constructor
    · refine crPart_cancel ?_ ?_
      · rw [crWord]
        split
        · next h => exact Or.inr ⟨rfl, by rintro rfl; exact absurd h.2.1 (by decide)⟩
        · exact Or.inl rfl
      · exact crPart_or c prev
    · rintro ⟨hcr, hcs⟩
      rw [hcr, hcs]

theorem ucs4ToUcs2Lf_text {chars : List Char} (h0 : Char.ofNat 0 ∉ chars) (buf : List UInt16) :
    ucs4ToUcs2Lf (utf32Encode chars ++ [0]) (-3) buf buf.length true =
      some ((ucs4Units none chars).length, filled (ucs4Units none chars) buf) := by
  have hlength : (if (-3 : Int) < 0 then ucs4strlen (utf32Encode chars ++ [0])
      else (-3 : Int).toNat) = (utf32Encode chars).length := by
    rw [if_pos (by decide), ucs4strlen, takeWhile_ne_zero (zero_notMem_utf32Encode h0) rfl]
  have hloop := @ucs4ToUcs2Loop_lf chars h0 buf.length buf [] (Nat.le_refl _) none [0] _ rfl
  have hend := terminate_filled (ucs4Units none chars) buf []
  rw [List.append_nil, List.append_nil] at hend
  rw [CountingBuffer.holding_nil, List.nil_append, Option.map_none] at hloop
  rw [ucs4ToUcs2Lf, hlength, hloop, Option.bind_some, hend]
  rfl

/-! ## By the library -/

section

variable {prev : Option Char} {c : Char} {chars : List Char}

theorem crUnit_eq (h : OneUnitInFront prev c) :
    crUnit true prev (some c) = if c = '\n' ∧ prev ≠ some '\r' then [0x0d] else [] := by
  rw [crUnit]
  by_cases hlf : c = '\n' ∧ prev ≠ some '\r'
  · obtain ⟨p, hp, -⟩ := h hlf.1
    rw [if_pos hlf, if_pos ⟨rfl, by rw [hlf.1], by rw [hp]; rfl, hlf.2⟩]
  · rw [if_neg hlf, if_neg fun h ↦ hlf ⟨Option.some_inj.1 h.2.1, h.2.2.2⟩]

/-- The two units of a character take a carriage return between them if a line feed follows. -/
theorem crUnit_trail (hc : 0x10000 ≤ c.toNat) (next : Option Char) :
    crUnit true (some c) next = if next = some '\n' then [0x0d] else [] := by
  have hcr : (some c : Option Char) ≠ some '\r' := by
    intro h
    rw [Option.some_inj.1 h] at hc
    exact absurd hc (by decide)
  rw [crUnit]
  by_cases hlf : next = some '\n'
  · rw [if_pos hlf, if_pos ⟨rfl, hlf, rfl, hcr⟩]
  · rw [if_neg hlf, if_neg fun h ↦ hlf h.2.1]

/-- The units are those of the converted text if each line feed has a character of one unit in
front; of the first it is taken for granted. -/
theorem c16Rounds_eq_iff (h : ∀ c ∈ chars.head?, OneUnitInFront prev c) :
    (c16Rounds true prev chars).flatten = utf16Encode (crlf '\r' '\n' prev chars) ↔
      EachAfter OneUnitInFront prev chars := by
  induction chars generalizing prev with
  | nil => exact iff_of_true rfl trivial
  | cons c cs ih =>
    have hc : OneUnitInFront prev c := h c rfl
    have hcr := crUnit_eq hc
    rw [c16Rounds, List.flatten_cons, List.flatten_append, hcr, utf16Encode_crlf_cons, EachAfter,
      and_iff_right hc]
    rcases Nat.lt_or_ge c.toNat 0x10000 with hbmp | hsup
    · rw [← @ih (some c) fun d _ _ ↦ ⟨c, rfl, hbmp⟩, utf16EncodeChar_one rfl hbmp,
        List.append_assoc]
      constructor
      · intro heq
        exact (List.cons.inj (List.append_cancel_left heq)).2
      · intro heq
        rw [← heq]
        rfl
    · obtain ⟨u, hu⟩ : ∃ u, c.toNat = u + 0x10000 := ⟨c.toNat - 0x10000, by omega⟩
      have hr := char_range c
      rw [crUnit_trail hsup, utf16EncodeChar_two rfl hu, List.append_assoc]
      by_cases hlf : cs.head? = some '\n'
      · rw [if_pos hlf]
        refine iff_of_false ?_ ?_
        · intro heq
          have htrail := (List.cons.inj (List.cons.inj (List.append_cancel_left heq)).2).1
          have hnat := congrArg UInt16.toNat htrail
          rw [uint16_toNat_ofNat (by omega), show (0x0d : UInt16).toNat = 0x0d from rfl] at hnat
          omega
        · intro hcs
          cases cs with
          | nil => cases hlf
          | cons d ds =>
            obtain ⟨p, hp, hlt⟩ := hcs.1 (Option.some_inj.1 hlf)
            rw [Option.mem_some_iff.1 hp] at hsup
            omega
      · rw [if_neg hlf, ← @ih (some c) fun d hd hd' ↦ absurd (by rw [← hd']; exact hd) hlf]
        constructor
        · intro heq
          exact (List.cons.inj (List.cons.inj (List.append_cancel_left heq)).2).2
        · intro heq
          rw [← heq]
          rfl

/-- The same for a text from its beginning. -/
theorem c16Rounds_text_iff (chars : List Char) :
    (c16Rounds true none chars).flatten = utf16Encode (crlfText chars) ↔
      EachAfter OneUnitInFront none chars := by
  cases chars with
  | nil => exact iff_of_true rfl trivial
  | cons c cs =>
    by_cases hlf : c = '\n'
    · subst hlf
      refine iff_of_false ?_ ?_
      · intro h
        exact absurd (List.cons.inj h).1 (by decide)
      · rintro ⟨h, -⟩
        obtain ⟨p, hp, -⟩ := h rfl
        cases hp
    · exact c16Rounds_eq_iff fun d hd hd' ↦ absurd ((Option.mem_some_iff.1 hd).trans hd') hlf

theorem uint16_ofNat_eq {x y : Nat} (hx : x < 0x10000) (hy : y < 0x10000) :
    UInt16.ofNat x = UInt16.ofNat y ↔ x = y := by
  constructor
  · intro h
    rw [← uint16_toNat_ofNat hx, h, uint16_toNat_ofNat hy]
  · rintro rfl
    rfl

/-- The unit in front tells whether the character in front is a CR. -/
theorem getLast?_utf16EncodeChar (c : Char) :
    (utf16EncodeChar c).getLast? = some 0x0d ↔ c = '\r' := by
  have hr := char_range c
  rcases Nat.lt_or_ge c.toNat 0x10000 with hbmp | hsup
  · rw [utf16EncodeChar_one rfl hbmp, List.getLast?_singleton, Option.some_inj,
      show (0x0d : UInt16) = UInt16.ofNat 0x0d from rfl, uint16_ofNat_eq hbmp (by decide)]
    constructor
    · intro h
      rw [← Char.ofNat_toNat c, h]
    · rintro rfl
      rfl
  · obtain ⟨u, hu⟩ : ∃ u, c.toNat = u + 0x10000 := ⟨c.toNat - 0x10000, by omega⟩
    rw [utf16EncodeChar_two rfl hu]
    refine iff_of_false ?_ ?_
    · intro h
      have heq := (@uint16_ofNat_eq _ 0x0d (by omega) (by decide)).1 (Option.some_inj.1 h)
      omega
    · rintro rfl
      exact absurd hsup (by decide)

/-- The places of the carriage returns, character by character. -/
theorem crPlaces_char (prev : Option Char) (i : Nat) (c : Char) (s : List UInt16) :
    crPlaces 0x0d 0x0a (prev.bind fun c ↦ (utf16EncodeChar c).getLast?) i (utf16EncodeChar c ++ s) =
      if c = '\n' ∧ prev ≠ some '\r' then
        i :: crPlaces 0x0d 0x0a (utf16EncodeChar c).getLast? (i + 2) s
      else crPlaces 0x0d 0x0a (utf16EncodeChar c).getLast? (i + (utf16EncodeChar c).length) s := by
  have hr := char_range c
  have hprev : (prev.bind fun c ↦ (utf16EncodeChar c).getLast?) = some 0x0d ↔ prev = some '\r' := by
    cases prev with
    | none => exact ⟨fun h ↦ (nomatch h), fun h ↦ (nomatch h)⟩
    | some p => rw [Option.bind_some, getLast?_utf16EncodeChar, Option.some_inj]
  rcases Nat.lt_or_ge c.toNat 0x10000 with hbmp | hsup
  · have hlf : UInt16.ofNat c.toNat = 0x0a ↔ c = '\n' := by
      rw [show (0x0a : UInt16) = UInt16.ofNat 0x0a from rfl, uint16_ofNat_eq hbmp (by decide),
        toNat_eq_lf]
    rw [utf16EncodeChar_one rfl hbmp, List.singleton_append, crPlaces]
    simp only [ne_eq, hlf, hprev]
    rfl
  · obtain ⟨u, hu⟩ : ∃ u, c.toNat = u + 0x10000 := ⟨c.toNat - 0x10000, by omega⟩
    have hlf : ∀ {x : Nat}, x < 0x10000 → 0xd800 ≤ x → ¬UInt16.ofNat x = 0x0a := by
      intro x hx hx' h
      have heq := (uint16_ofNat_eq hx (y := 0x0a) (by decide)).1 h
      omega
    have hc : ¬(c = '\n' ∧ prev ≠ some '\r') := by
      rintro ⟨rfl, -⟩
      exact absurd hsup (by decide)
    rw [utf16EncodeChar_two rfl hu, List.cons_append, List.singleton_append, crPlaces,
      if_neg fun h ↦ hlf (by omega) (by omega) h.1, crPlaces,
      if_neg fun h ↦ hlf (by omega) (by omega) h.1, if_neg hc]
    rfl

/-- The rounds fit if no carriage return is put in at the last place. -/
theorem roundsFit_iff {n : Nat} (i : Nat) (h : EachAfter OneUnitInFront prev chars) :
    RoundsFit n i (c16Rounds true prev chars) ↔
      ∀ p ∈ crPlaces 0x0d 0x0a (prev.bind fun c ↦ (utf16EncodeChar c).getLast?) i
        (utf16Encode chars), p + 1 ≠ n := by
  induction chars generalizing prev i with
  | nil => exact iff_of_true trivial (List.forall_mem_nil _)
  | cons c cs ih =>
    obtain ⟨hc, hcs⟩ := h
    have hih := fun i ↦ ih i hcs
    rw [Option.bind_some] at hih
    rw [utf16Encode, List.flatMap_cons, ← utf16Encode, crPlaces_char, c16Rounds, crUnit_eq hc]
    rcases Nat.lt_or_ge c.toNat 0x10000 with hbmp | hsup
    · rw [utf16EncodeChar_one rfl hbmp] at hih ⊢
      have hnone : ([UInt16.ofNat c.toNat] : List UInt16)[1]? = none := rfl
      rw [hnone, Option.toList_none, List.map_nil, List.nil_append, RoundsFit, hih]
      by_cases hlf : c = '\n' ∧ prev ≠ some '\r'
      · rw [if_pos hlf, if_pos hlf, List.forall_mem_cons]
        refine and_congr ?_ Iff.rfl
        change (i < n → i + 2 ≤ n) ↔ _
        omega
      · rw [if_neg hlf, if_neg hlf]
        exact and_iff_right fun hlt ↦ hlt
    · obtain ⟨u, hu⟩ : ∃ u, c.toNat = u + 0x10000 := ⟨c.toNat - 0x10000, by omega⟩
      have hc : ¬(c = '\n' ∧ prev ≠ some '\r') := by
        rintro ⟨rfl, -⟩
        exact absurd hsup (by decide)
      have hnext : ¬cs.head? = some '\n' := by
        cases cs with
        | nil => rintro ⟨⟩
        | cons d ds =>
          intro hd
          obtain ⟨p, hp, hlt⟩ := hcs.1 (Option.some_inj.1 hd)
          rw [← Option.some_inj.1 hp] at hlt
          omega
      rw [crUnit_trail hsup, if_neg hnext, if_neg hc, if_neg hc]
      rw [utf16EncodeChar_two rfl hu] at hih ⊢
      exact (and_iff_right fun hlt ↦ hlt).trans ((and_iff_right fun hlt ↦ hlt).trans (hih (i + 2)))

end

/-! ## All ways -/

/-- Every way gives the UTF-16 form of the text with its line feeds converted, and by the library
nothing is stored outside of a buffer of `n` units. -/
structure LinefeedsAgree (chars : List Char) (n : Nat) : Prop where
  linefeeds : ∀ max errcheck (buf : List UInt16), (utf8Encode (crlfText chars)).length < max →
    utf8ToUcs2LfBuffer (some (convertLinefeeds (utf8Encode chars) true max true).2.2) (-3) false
        (some buf) buf.length errcheck =
      some ((utf16Encode (crlfText chars)).length, filled (utf16Encode (crlfText chars)) buf)
  utf8 : ∀ errcheck (buf : List UInt16),
    utf8ToUcs2LfBuffer (some (utf8Encode chars ++ [0])) (-3) true (some buf) buf.length errcheck =
      some ((utf16Encode (crlfText chars)).length, filled (utf16Encode (crlfText chars)) buf)
  ucs4 : ∀ buf : List UInt16,
    ucs4ToUcs2Lf (utf32Encode chars ++ [0]) (-3) buf buf.length true =
      some ((utf16Encode (crlfText chars)).length, filled (utf16Encode (crlfText chars)) buf)
  mbs : ∀ buf : List UInt16, (utf16Encode (crlfText chars)).length < buf.length →
    mbstoc16Lf (some buf) (utf8Encode chars ++ [0]) buf.length true =
      some (((utf16Encode (crlfText chars)).length : Int),
        some (filled (utf16Encode (crlfText chars)) buf))
  counts : mbstoc16Lf none (utf8Encode chars ++ [0]) n true =
    some (((utf16Encode (crlfText chars)).length : Int), none)
  room : ∀ buf : List UInt16, buf.length = n →
    (mbstoc16Lf (some buf) (utf8Encode chars ++ [0]) buf.length true).isSome

/-- What fills a buffer with room for all of it is told from the buffer. -/
theorem filled_inj {xs ys buf : List UInt16} (hx : xs.length < buf.length)
    (hlen : xs.length = ys.length) (h : filled xs buf = filled ys buf) : xs = ys := by
  rw [filled, filled, if_pos hx, if_pos (by omega), CountingBuffer.overwrite,
    CountingBuffer.overwrite, List.append_assoc, List.append_assoc] at h
  exact (List.append_inj h hlen).1

/-- The ways agree if the lowest bytes tell line feeds and carriage returns, each line feed has a
character of one unit in front of it, and no carriage return is put in at the last place of the
buffer. -/
theorem linefeedsAgree_iff {chars : List Char} (h0 : Char.ofNat 0 ∉ chars) (n : Nat) :
    LinefeedsAgree chars n ↔
      EachAfter LowByteTells none chars ∧ EachAfter OneUnitInFront none chars ∧ n ≠ 0 ∧
        ∀ p ∈ crPlaces 0x0d 0x0a none 0 (utf16Encode chars), p + 1 ≠ n := by
  have hrounds := c16Rounds_text_iff chars
  have hcount := @mbstoc16Lf_none true chars h0 [] n
  constructor
  · intro h
    have hlow : ucs4Units none chars = utf16Encode (crlfText chars) := by
      have hbuf := h.ucs4 (List.replicate ((ucs4Units none chars).length + 1) 0)
      rw [ucs4ToUcs2Lf_text h0, Option.some_inj, Prod.mk.injEq] at hbuf
      exact filled_inj (by rw [List.length_replicate]; omega) hbuf.1 hbuf.2
    have hflat : (c16Rounds true none chars).flatten = utf16Encode (crlfText chars) := by
      have hlen : (c16Rounds true none chars).flatten.length =
          (utf16Encode (crlfText chars)).length := by
        have heq := hcount.symm.trans h.counts
        rw [Option.some_inj, Prod.mk.injEq] at heq
        exact Int.ofNat_inj.1 heq.1
      have hroom : (c16Rounds true none chars).flatten.length <
          (List.replicate ((c16Rounds true none chars).flatten.length + 1)
            (0 : UInt16)).length := by
        rw [List.length_replicate]
        omega
      have hbuf := (mbstoc16Lf_some h0 [] hroom).symm.trans (h.mbs _ (by rw [← hlen]; exact hroom))
      rw [Option.some_inj, Prod.mk.injEq, Option.some_inj] at hbuf
      exact filled_inj hroom hlen hbuf.2
    have hone := hrounds.1 hflat
    have hfit := (mbstoc16Lf_isSome h0 [] (List.replicate n 0)).1
      (h.room _ List.length_replicate)
    rw [List.length_replicate, roundsFit_iff 0 hone] at hfit
    exact ⟨(ucs4Units_eq_iff none chars).1 hlow, hone, hfit⟩
  · rintro ⟨hlow, hone, hn, hplaces⟩
    have hflat := hrounds.2 hone
    refine ⟨?_, ?_, ?_, ?_, ?_, ?_⟩
    · intro max errcheck buf hmax
      rw [convertLinefeeds_text h0 hmax]
      exact utf8ToUcs2LfBuffer_text (zero_notMem_crlfText h0) false errcheck buf
    · intro errcheck buf
      exact utf8ToUcs2LfBuffer_text h0 true errcheck buf
    · intro buf
      rw [ucs4ToUcs2Lf_text h0, (ucs4Units_eq_iff none chars).2 hlow]
      rfl
    · intro buf hroom
      rw [← hflat] at hroom ⊢
      exact mbstoc16Lf_some h0 [] hroom
    · rw [hcount, hflat]
    · rintro buf rfl
      exact (mbstoc16Lf_isSome h0 [] buf).2 ⟨hn, (roundsFit_iff 0 hone).2 hplaces⟩

theorem linefeedsAgree_iff_lines : LinefeedsAgree ['a', '\r', '\n'] 3 :=
  (linefeedsAgree_iff (by decide) 3).2 ⟨by decide, by decide, by decide, by decide⟩

/-- A line feed at the beginning. -/
theorem not_linefeedsAgree : ¬LinefeedsAgree ['\n'] 4 := by
  intro h
  have heq := h.counts
  rw [show mbstoc16Lf none (utf8Encode ['\n'] ++ [0]) 4 true = some (1, none) by
    exact @mbstoc16Lf_none true ['\n'] (by decide) [] 4] at heq
  exact absurd (congrArg (·.map Prod.fst) heq) (by decide)

end PsqlOdbc
