import PsqlOdbc.Convert.QueryBuild
import PsqlOdbc.Lib.LineEnds

/-!
# Line feeds (`convert.c`, `convert_linefeeds`)

A value goes to the application with CR LF for each LF.  The room in the buffer is looked at once
for each byte of the value, and a line feed may take two bytes of it.
-/

namespace PsqlOdbc

open Lib

/-- The loop of `convert_linefeeds`, with the byte in front and the bytes that are out: what it
puts out, and `*changed`. -/
def linefeedsLoop (max : Nat) (convlf : Bool) : Option UInt8 → Nat → List UInt8 → List UInt8 × Bool
  | _, _, [] => ([], false)
  | prev, out, c :: si =>
    if c = 0 ∨ ¬out < max - 1 then ([], false)
    else if convlf ∧ c = pgLinefeed then
      -- Only add the carriage return if needed.
      if prev = some pgCarriageReturn then
        let r := linefeedsLoop max convlf (some c) (out + 1) si
        (c :: r.1, r.2)
      else
        let r := linefeedsLoop max convlf (some c) (out + 2) si
        (pgCarriageReturn :: pgLinefeed :: r.1, true)
    else
      let r := linefeedsLoop max convlf (some c) (out + 1) si
      (c :: r.1, r.2)

/-- `convert_linefeeds`: the return value, `*changed`, and the bytes that are written from the
beginning of the buffer on if there is one. -/
def convertLinefeeds (si : List UInt8) (dst : Bool) (max : Nat) (convlf : Bool) :
    Nat × Bool × List UInt8 :=
  let r := linefeedsLoop (if max = 0 then 0xffffffff else max) convlf none 0 si
  (r.1.length, r.2, if dst then r.1 ++ [0] else [])

/-- The complete conversion. -/
def linefeedsConverted (convlf : Bool) (prev : Option UInt8) (si : List UInt8) : List UInt8 :=
  if convlf then crlf pgCarriageReturn pgLinefeed prev si else si

/-- The places of the complete conversion where a carriage return is put in. -/
def linefeedPlaces (convlf : Bool) (prev : Option UInt8) (out : Nat) (si : List UInt8) : List Nat :=
  if convlf then crPlaces pgCarriageReturn pgLinefeed prev out si else []

/-- The buffer is not overrun, what is in it is a terminated beginning of the conversion, without
a buffer the length of the whole is returned, and `*changed` tells whether there is something to
convert. -/
structure KeepsBuffer (si : List UInt8) (max : Nat) (convlf : Bool) : Prop where
  room : (convertLinefeeds si true max convlf).2.2.length ≤ max
  begins : ∃ bs, (convertLinefeeds si true max convlf).2.2 = bs ++ [0] ∧
    bs.length = (convertLinefeeds si true max convlf).1 ∧ bs <+: linefeedsConverted convlf none si
  counts : (convertLinefeeds si false 0 convlf).1 = (linefeedsConverted convlf none si).length
  changed : (convertLinefeeds si true max convlf).2.1 = true ↔
    linefeedsConverted convlf none si ≠ si
  again : linefeedsConverted convlf none (linefeedsConverted convlf none si) =
    linefeedsConverted convlf none si

section

variable {max : Nat} {convlf : Bool} {prev : Option UInt8} {out : Nat} {c : UInt8}
  {si : List UInt8}

theorem pgCarriageReturn_ne_pgLinefeed : pgCarriageReturn ≠ pgLinefeed := by decide

theorem linefeedsConverted_cons : linefeedsConverted convlf prev (c :: si) =
    if convlf ∧ c = pgLinefeed ∧ prev ≠ some pgCarriageReturn then
      pgCarriageReturn :: c :: linefeedsConverted convlf (some c) si
    else c :: linefeedsConverted convlf (some c) si := by
  cases convlf with
  | false => rfl
  | true =>
    rw [linefeedsConverted, if_pos rfl, crlf]
    simp only [linefeedsConverted, if_true, true_and]

theorem linefeedPlaces_cons : linefeedPlaces convlf prev out (c :: si) =
    if convlf ∧ c = pgLinefeed ∧ prev ≠ some pgCarriageReturn then
      out :: linefeedPlaces convlf (some c) (out + 2) si
    else linefeedPlaces convlf (some c) (out + 1) si := by
  cases convlf with
  | false => rfl
  | true =>
    rw [linefeedPlaces, if_pos rfl, crPlaces]
    simp only [linefeedPlaces, if_true, true_and]

/-- One round. -/
theorem linefeedsLoop_cons (hc : c ≠ 0) : linefeedsLoop max convlf prev out (c :: si) =
    if ¬out < max - 1 then ([], false)
    else if convlf ∧ c = pgLinefeed ∧ prev ≠ some pgCarriageReturn then
      let r := linefeedsLoop max convlf (some c) (out + 2) si
      (pgCarriageReturn :: c :: r.1, true)
    else
      let r := linefeedsLoop max convlf (some c) (out + 1) si
      (c :: r.1, r.2) := by
  rw [linefeedsLoop]
  by_cases hout : out < max - 1
  · rw [if_neg (not_or.2 ⟨hc, not_not.2 hout⟩), if_neg (not_not.2 hout)]
    by_cases hlf : convlf ∧ c = pgLinefeed
    · obtain ⟨hconv, rfl⟩ := hlf
      rw [if_pos ⟨hconv, rfl⟩]
      by_cases hprev : prev = some pgCarriageReturn
      · rw [if_pos hprev, if_neg fun h ↦ h.2.2 hprev]
      · rw [if_neg hprev, if_pos ⟨hconv, rfl, hprev⟩]
    · rw [if_neg hlf, if_neg fun h ↦ hlf ⟨h.1, h.2.1⟩]
  · rw [if_pos (Or.inr hout), if_pos hout]

theorem linefeedsLoop_isPrefix (h0 : 0 ∉ si) :
    (linefeedsLoop max convlf prev out si).1 <+: linefeedsConverted convlf prev si := by
  induction si generalizing prev out with
  | nil => exact List.nil_prefix
  | cons c si ih =>
    rw [List.mem_cons, not_or] at h0
    rw [linefeedsLoop_cons (Ne.symm h0.1), linefeedsConverted_cons]
    split
    · exact List.nil_prefix
    split
    · exact List.prefix_cons_inj _ |>.2 (List.prefix_cons_inj _ |>.2 (ih h0.2))
    · exact List.prefix_cons_inj _ |>.2 (ih h0.2)

theorem le_of_mem_linefeedPlaces {p : Nat} (h : p ∈ linefeedPlaces convlf prev out si) :
    out ≤ p := by
  cases convlf with
  | false => cases h
  | true => exact le_of_mem_crPlaces h

/-- The bytes and the terminator fit, unless a line feed takes the last two places. -/
theorem linefeedsLoop_room (h0 : 0 ∉ si) (hout : out < max) :
    out + (linefeedsLoop max convlf prev out si).1.length < max ↔
      ∀ p ∈ linefeedPlaces convlf prev out si, p + 2 ≠ max := by
  induction si generalizing prev out with
  | nil =>
    refine iff_of_true hout ?_
    cases convlf <;> exact List.forall_mem_nil _
  | cons c si ih =>
    rw [List.mem_cons, not_or] at h0
    rw [linefeedsLoop_cons (Ne.symm h0.1), linefeedPlaces_cons]
    by_cases hroom : out < max - 1
    · rw [if_neg (not_not.2 hroom)]
      split
      · rw [List.forall_mem_cons]
        by_cases hlast : out + 2 = max
        · refine iff_of_false ?_ fun h ↦ h.1 hlast
          simp only [List.length_cons]
          omega
        · rw [← ih h0.2 (by omega)]
          simp only [List.length_cons]
          omega
      · rw [← ih h0.2 (by omega)]
        simp only [List.length_cons]
        omega
    · -- No byte is put out any more, and no place behind is the last but one.
      rw [if_pos hroom, ← linefeedPlaces_cons]
      refine iff_of_true hout fun p hp ↦ ?_
      have hle := le_of_mem_linefeedPlaces hp
      omega

theorem linefeedsLoop_changed (h0 : 0 ∉ si) :
    (linefeedsLoop max convlf prev out si).2 = true ↔
      ∃ p ∈ linefeedPlaces convlf prev out si, p + 1 < max := by
  induction si generalizing prev out with
  | nil =>
    refine iff_of_false Bool.false_ne_true ?_
    rintro ⟨p, hp, -⟩
    cases convlf <;> cases hp
  | cons c si ih =>
    rw [List.mem_cons, not_or] at h0
    rw [linefeedsLoop_cons (Ne.symm h0.1)]
    by_cases hroom : out < max - 1
    · rw [if_neg (not_not.2 hroom), linefeedPlaces_cons]
      split
      · exact iff_of_true rfl ⟨out, List.mem_cons_self, by omega⟩
      · exact ih h0.2
    · rw [if_pos hroom]
      refine iff_of_false Bool.false_ne_true ?_
      rintro ⟨p, hp, hlt⟩
      have hle := le_of_mem_linefeedPlaces hp
      omega

/-- All bytes are put out if there is room when the last one is looked at. -/
theorem linefeedsLoop_eq_iff (h0 : 0 ∉ si) :
    (linefeedsLoop max convlf prev out si).1.length = (linefeedsConverted convlf prev si).length ↔
      si = [] ∨ out + (linefeedsConverted convlf prev si.dropLast).length < max - 1 := by
  induction si generalizing prev out with
  | nil =>
    refine iff_of_true ?_ (Or.inl rfl)
    cases convlf <;> rfl
  | cons c si ih =>
    rw [List.mem_cons, not_or] at h0
    rw [linefeedsLoop_cons (Ne.symm h0.1), linefeedsConverted_cons]
    by_cases hroom : out < max - 1
    · rw [if_neg (not_not.2 hroom)]
      have hnil : (linefeedsConverted convlf prev []).length = 0 := by cases convlf <;> rfl
      split
      · next hlf =>
        simp only [List.length_cons, Nat.add_right_cancel_iff, ih h0.2]
        cases si with
        | nil =>
          refine iff_of_true (Or.inl rfl) (Or.inr ?_)
          rw [List.dropLast_singleton, hnil]
          exact hroom
        | cons d si =>
          rw [List.dropLast_cons_cons, linefeedsConverted_cons, if_pos hlf]
          simp only [reduceCtorEq, false_or, List.length_cons]
          omega
      · next hlf =>
        simp only [List.length_cons, Nat.add_right_cancel_iff, ih h0.2]
        cases si with
        | nil =>
          refine iff_of_true (Or.inl rfl) (Or.inr ?_)
          rw [List.dropLast_singleton, hnil]
          exact hroom
        | cons d si =>
          rw [List.dropLast_cons_cons, linefeedsConverted_cons, if_neg hlf]
          simp only [reduceCtorEq, false_or, List.length_cons]
          omega
    · rw [if_pos hroom]
      refine iff_of_false ?_ ?_
      · split
        · exact fun h ↦ (nomatch h)
        · exact fun h ↦ (nomatch h)
      · rintro (h | h)
        · cases h
        · omega

theorem linefeedsConverted_ne_iff :
    linefeedsConverted convlf prev si ≠ si ↔ linefeedPlaces convlf prev out si ≠ [] := by
  cases convlf with
  | false => exact iff_of_false (fun h ↦ h rfl) fun h ↦ h rfl
  | true => exact not_congr (crlf_eq_self_iff prev out si)

end

/-- The contract is kept unless a line feed takes the last two places of the buffer, all carriage
returns that are put in are behind the buffer, or the text does not go below the bound that
stands for no buffer. -/
theorem convertLinefeeds_keeps_iff {si : List UInt8} (h0 : 0 ∉ si) {max : Nat} (hmax : 1 ≤ max)
    (convlf : Bool) :
    KeepsBuffer si max convlf ↔
      (∀ p ∈ linefeedPlaces convlf none 0 si, p + 2 ≠ max) ∧
        (linefeedPlaces convlf none 0 si ≠ [] → ∃ p ∈ linefeedPlaces convlf none 0 si, p + 1 < max) ∧
        (si = [] ∨ (linefeedsConverted convlf none si.dropLast).length < 0xfffffffe) := by
  have hbuffer : convertLinefeeds si true max convlf =
      ((linefeedsLoop max convlf none 0 si).1.length, (linefeedsLoop max convlf none 0 si).2,
        (linefeedsLoop max convlf none 0 si).1 ++ [0]) := by
    rw [convertLinefeeds, if_neg (Nat.one_le_iff_ne_zero.1 hmax)]
    rfl
  have hroom := @linefeedsLoop_room max convlf none 0 si h0 hmax
  have hchanged := @linefeedsLoop_changed max convlf none 0 si h0
  have hcounts := @linefeedsLoop_eq_iff 0xffffffff convlf none 0 si h0
  rw [Nat.zero_add] at hroom hcounts
  constructor
  · intro h
    refine ⟨hroom.1 ?_, fun hne ↦ hchanged.1 ?_, hcounts.1 h.counts⟩
    · have hle := h.room
      rw [hbuffer] at hle
      simp only [List.length_append, List.length_singleton] at hle
      exact hle
    · have hiff := h.changed
      rw [hbuffer] at hiff
      exact hiff.2 (linefeedsConverted_ne_iff.2 hne)
  · rintro ⟨hplaces, hsome, hlast⟩
    refine ⟨?_, ?_, hcounts.2 hlast, ?_, ?_⟩
    · rw [hbuffer]
      simp only [List.length_append, List.length_singleton]
      exact hroom.2 hplaces
    · rw [hbuffer]
      exact ⟨_, rfl, rfl, linefeedsLoop_isPrefix h0⟩
    · rw [hbuffer, linefeedsConverted_ne_iff]
      refine hchanged.trans ⟨?_, hsome⟩
      rintro ⟨p, hp, -⟩
      exact List.ne_nil_of_mem hp
    · cases convlf with
      | false => rfl
      | true => exact crlf_crlf pgCarriageReturn_ne_pgLinefeed none si

/-- A text of two lines in a buffer that it fits into. -/
theorem convertLinefeeds_keeps_twoLines :
    0 ∉ [0x61, pgLinefeed, 0x62] ∧ 1 ≤ 5 ∧
      (KeepsBuffer [0x61, pgLinefeed, 0x62] 5 true ↔
        (∀ p ∈ linefeedPlaces true none 0 [0x61, pgLinefeed, 0x62], p + 2 ≠ 5) ∧
          (linefeedPlaces true none 0 [0x61, pgLinefeed, 0x62] ≠ [] →
            ∃ p ∈ linefeedPlaces true none 0 [0x61, pgLinefeed, 0x62], p + 1 < 5) ∧
          ([0x61, pgLinefeed, 0x62] = [] ∨
            (linefeedsConverted true none [0x61, pgLinefeed, 0x62].dropLast).length < 0xfffffffe)) :=
  ⟨by decide, by decide, @convertLinefeeds_keeps_iff [0x61, pgLinefeed, 0x62] (by decide) 5
    (by decide) true⟩

/-- In a buffer of three bytes the line feed takes the last two, and the terminator is behind them. -/
theorem convertLinefeeds_not_keeps :
    convertLinefeeds [0x61, pgLinefeed, 0x62] true 3 true =
      (3, true, [0x61, pgCarriageReturn, pgLinefeed, 0]) ∧
      ¬KeepsBuffer [0x61, pgLinefeed, 0x62] 3 true := by
  have hout : convertLinefeeds [0x61, pgLinefeed, 0x62] true 3 true =
      (3, true, [0x61, pgCarriageReturn, pgLinefeed, 0]) := by decide
  refine ⟨hout, fun h ↦ ?_⟩
  have hroom := h.room
  rw [hout] at hroom
  exact absurd hroom (by decide)

end PsqlOdbc
