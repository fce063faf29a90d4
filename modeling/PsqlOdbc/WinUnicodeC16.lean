import PsqlOdbc.WinUnicodeUcs4

/-!
# `mbstoc16_lf` (`win_unicode.c`)

Where the locale is converted by the C library, a line feed is looked for in front of each call of
`mbrtoc16`.  A call may leave a surrogate for the next one, and then the byte that is looked at is
not the one the unit comes from.  What a round stores is one unit or two, and whether there is room
is looked at once a round.
-/

namespace PsqlOdbc

open Lib

/-! ## The code -/

/-- What a call of `mbrtoc16` returns and stores: -1 or -2, the unit that was left with -3, or the
number of bytes with a unit and what is left. -/
inductive Mbrtoc16
  | error
  | pending (c16 : UInt16)
  | char (brtn : Nat) (c16 : UInt16) (mbst : Option UInt16)

/-- `mbrtoc16`, for UTF-8; the state is the surrogate that is left. -/
def mbrtoc16 (s : List UInt8) (n : Nat) : Option UInt16 → Mbrtoc16
  | some c16 => .pending c16
  | none =>
    match (s.take n).toByteArray.utf8DecodeChar? 0 with
    | none => .error
    | some c =>
      .char (if c = Char.ofNat 0 then 0 else (String.utf8EncodeChar c).length)
        ((utf16EncodeChar c).headD 0) (utf16EncodeChar c)[1]?

/-- A store to `c16dt`, if there is a buffer. -/
def c16Store (c16dt : Option (List UInt16)) (i : Nat) (x : UInt16) :
    Option (Option (List UInt16)) :=
  match c16dt with
  | none => some none
  | some cells => (CountingBuffer.store cells i x).map some

/-- The loop of `mbstoc16_lf` at the byte `cdt`, with `prev` the byte before: the value of `i` it
ends with, or none where -1 is returned.  No result if it stores outside of the buffer, or reads
behind the memory. -/
def mbstoc16Loop (lfConv : Bool) (n : Nat) (prev : Option UInt8) (cdt : List UInt8)
    (mbst : Option UInt16) (i : Nat) (c16dt : Option (List UInt16)) :
    Option (Option Nat × Option (List UInt16)) :=
  if ¬i < n ∧ c16dt.isSome then some (some i, c16dt)
  else
    match cdt with
    | [] => none
    | b :: bs =>
      let cr := lfConv && b == 0x0a && decide (0 < i) && prev != some 0x0d
      (if cr then c16Store c16dt i 0x0d else some c16dt).bind fun c16dt ↦
        let i := if cr then i + 1 else i
        match mbst, mbrtoc16 (b :: bs) 4 mbst with
        | _, .error => some (none, c16dt)
        | none, .pending _ => none
        | some _, .pending c16 =>
          (c16Store c16dt i c16).bind fun c16dt ↦
            mbstoc16Loop lfConv n prev (b :: bs) none (i + 1) c16dt
        | _, .char brtn c16 mbst =>
          (c16Store c16dt i c16).bind fun c16dt ↦
            if brtn = 0 then some (some i, c16dt)
            else
              mbstoc16Loop lfConv n ((b :: bs)[brtn - 1]?) (bs.drop (brtn - 1)) mbst (i + 1) c16dt
termination_by 2 * cdt.length + if mbst.isSome then 1 else 0
decreasing_by
  · simp
  · simp only [List.length_cons, List.length_drop]
    split <;> omega

/-- `mbstoc16_lf`: the return value, and the buffer if there is one. -/
def mbstoc16Lf (c16dt : Option (List UInt16)) (c8dt : List UInt8) (n : Nat) (lfConv : Bool) :
    Option (Int × Option (List UInt16)) :=
  (mbstoc16Loop lfConv n none c8dt none 0 c16dt).bind fun (i, c16dt) ↦
    match i with
    | none => some (-1, c16dt)
    | some i =>
      if c16dt.isSome ∧ n ≤ i then
        -- `c16dt[n - 1]`; for 0 that is in front of the buffer.
        if n = 0 then none else (c16Store c16dt (n - 1) 0).map fun c16dt ↦ ((i : Int), c16dt)
      else some (i, c16dt)

/-! ## Rounds -/

theorem mbrtoc16_char (c : Char) (rest : List UInt8) :
    mbrtoc16 (String.utf8EncodeChar c ++ rest) 4 none =
      .char (if c = Char.ofNat 0 then 0 else (String.utf8EncodeChar c).length)
        ((utf16EncodeChar c).headD 0) (utf16EncodeChar c)[1]? := by
  have hle : (String.utf8EncodeChar c).length ≤ 4 := by
    rw [String.length_utf8EncodeChar]
    exact c.utf8Size_le_four
  rw [mbrtoc16, List.take_append, List.take_of_length_le hle, List.toByteArray_append,
    ByteArray.utf8DecodeChar?_utf8EncodeChar_append]

/-- Store units one after the other. -/
def c16StoreAll : Option (List UInt16) → Nat → List UInt16 → Option (Option (List UInt16))
  | c16dt, _, [] => some c16dt
  | c16dt, i, x :: xs => (c16Store c16dt i x).bind fun c16dt ↦ c16StoreAll c16dt (i + 1) xs

/-- The carriage return of a round at the byte `b`. -/
def crRound (lfConv : Bool) (prev : Option UInt8) (i : Nat) (b : UInt8) : List UInt16 :=
  if lfConv ∧ b = 0x0a ∧ 0 < i ∧ prev ≠ some 0x0d then [0x0d] else []

section

variable {lfConv : Bool} {n : Nat} {prev : Option UInt8} {i : Nat} {c16dt : Option (List UInt16)}

theorem crRound_eq {b : UInt8} :
    (lfConv && b == 0x0a && decide (0 < i) && prev != some 0x0d) = true ↔
      lfConv = true ∧ b = 0x0a ∧ 0 < i ∧ prev ≠ some 0x0d := by
  simp [and_assoc]

/-- A round that takes a character. -/
theorem mbstoc16Loop_char {c : Char} (hc : c ≠ Char.ofNat 0) (s : List UInt8) :
    mbstoc16Loop lfConv n prev (String.utf8EncodeChar c ++ s) none i c16dt =
      if ¬i < n ∧ c16dt.isSome then some (some i, c16dt)
      else
        (c16StoreAll c16dt i (crRound lfConv prev i ((String.utf8EncodeChar c).headD 0) ++
          [(utf16EncodeChar c).headD 0])).bind fun c16dt ↦
            mbstoc16Loop lfConv n (String.utf8EncodeChar c).getLast? s (utf16EncodeChar c)[1]?
              (i + (crRound lfConv prev i ((String.utf8EncodeChar c).headD 0) ++
                [(utf16EncodeChar c).headD 0]).length) c16dt := by
  have hmbr := mbrtoc16_char c s
  rw [if_neg hc] at hmbr
  obtain ⟨b, tail, he⟩ : ∃ b tail, String.utf8EncodeChar c = b :: tail := by
    cases he : String.utf8EncodeChar c with
    | nil =>
      have hpos := c.utf8Size_pos
      rw [← String.length_utf8EncodeChar, he] at hpos
      cases hpos
    | cons b tail => exact ⟨b, tail, rfl⟩
  rw [he, List.cons_append] at hmbr ⊢
  have hlast : (b :: (tail ++ s))[(b :: tail).length - 1]? = (b :: tail).getLast? := by
    rw [← List.cons_append, List.getElem?_append_left (by rw [List.length_cons]; omega),
      List.getLast?_eq_getElem?]
  have hdrop : (tail ++ s).drop ((b :: tail).length - 1) = s := by
    rw [List.length_cons, Nat.add_sub_cancel, List.drop_left]
  rw [mbstoc16Loop.eq_def]
  by_cases htop : ¬i < n ∧ c16dt.isSome = true
  · rw [if_pos htop, if_pos htop]
  rw [if_neg htop, if_neg htop]
  dsimp only
  rw [hmbr, crRound, List.headD_cons]
  dsimp only
  rw [hlast, hdrop]
  have hlen : ¬(b :: tail).length = 0 := by simp
  by_cases hcr : lfConv = true ∧ b = 0x0a ∧ 0 < i ∧ prev ≠ some 0x0d
  · rw [if_pos (crRound_eq.2 hcr), if_pos (crRound_eq.2 hcr), if_pos hcr]
    simp only [if_neg hlen, c16StoreAll, List.cons_append, List.nil_append, Option.bind_assoc,
      Option.bind_some]
    rfl
  · rw [if_neg (mt crRound_eq.1 hcr), if_neg (mt crRound_eq.1 hcr), if_neg hcr]
    simp only [if_neg hlen, c16StoreAll, List.nil_append, Option.bind_assoc, Option.bind_some]
    rfl

/-- A round that stores what the one before has left. -/
theorem mbstoc16Loop_pending (c16 : UInt16) (b : UInt8) (bs : List UInt8) :
    mbstoc16Loop lfConv n prev (b :: bs) (some c16) i c16dt =
      if ¬i < n ∧ c16dt.isSome then some (some i, c16dt)
      else
        (c16StoreAll c16dt i (crRound lfConv prev i b ++ [c16])).bind fun c16dt ↦
          mbstoc16Loop lfConv n prev (b :: bs) none
            (i + (crRound lfConv prev i b ++ [c16]).length) c16dt := by
  rw [mbstoc16Loop.eq_def]
  by_cases htop : ¬i < n ∧ c16dt.isSome = true
  · rw [if_pos htop, if_pos htop]
  rw [if_neg htop, if_neg htop]
  dsimp only [mbrtoc16]
  rw [crRound]
  by_cases hcr : lfConv = true ∧ b = 0x0a ∧ 0 < i ∧ prev ≠ some 0x0d
  · rw [if_pos (crRound_eq.2 hcr), if_pos (crRound_eq.2 hcr), if_pos hcr]
    simp only [c16StoreAll, List.cons_append, List.nil_append, Option.bind_assoc, Option.bind_some]
    rfl
  · rw [if_neg (mt crRound_eq.1 hcr), if_neg (mt crRound_eq.1 hcr), if_neg hcr]
    simp only [c16StoreAll, List.nil_append, Option.bind_assoc, Option.bind_some]
    rfl

/-- The round at the terminator. -/
theorem mbstoc16Loop_zero (rest : List UInt8) :
    mbstoc16Loop lfConv n prev (0 :: rest) none i c16dt =
      if ¬i < n ∧ c16dt.isSome then some (some i, c16dt)
      else (c16Store c16dt i 0).map fun c16dt ↦ (some i, c16dt) := by
  have hmbr : mbrtoc16 (0 :: rest) 4 none = .char 0 0 none := mbrtoc16_char (Char.ofNat 0) rest
  rw [mbstoc16Loop.eq_def]
  by_cases htop : ¬i < n ∧ c16dt.isSome = true
  · rw [if_pos htop, if_pos htop]
  rw [if_neg htop, if_neg htop]
  dsimp only
  rw [hmbr, if_neg (by simp), if_neg (by simp), Option.bind_some]
  dsimp only
  cases c16Store c16dt i 0 <;> rfl

end

/-! ## The rounds of a text -/

/-- The carriage return in front of what is stored when `next` is the character that is looked at,
with `prev` before it. -/
def crUnit (lfConv : Bool) (prev next : Option Char) : List UInt16 :=
  if lfConv ∧ next = some '\n' ∧ prev.isSome ∧ prev ≠ some '\r' then [0x0d] else []

/-- What is stored for a text, round by round. -/
def c16Rounds (lfConv : Bool) : Option Char → List Char → List (List UInt16)
  | _, [] => []
  | prev, c :: cs =>
    (crUnit lfConv prev (some c) ++ [(utf16EncodeChar c).headD 0]) ::
      ((utf16EncodeChar c)[1]?.toList.map (fun c16 ↦ crUnit lfConv (some c) cs.head? ++ [c16]) ++
        c16Rounds lfConv (some c) cs)

/-- Store round by round, as long as there is room for the beginning of one. -/
def c16StoreRounds (n : Nat) : Nat → Option (List UInt16) → List (List UInt16) →
    Option (Nat × Option (List UInt16))
  | i, c16dt, [] => some (i, c16dt)
  | i, c16dt, r :: rs =>
    if ¬i < n ∧ c16dt.isSome then some (i, c16dt)
    else (c16StoreAll c16dt i r).bind fun c16dt ↦ c16StoreRounds n (i + r.length) c16dt rs

section

variable {lfConv : Bool} {n : Nat}

theorem utf8EncodeChar_cons (c : Char) :
    ∃ b tail, String.utf8EncodeChar c = b :: tail ∧ (b = 0x0a ↔ c = '\n') := by
  have hr := char_range c
  have hne : ∀ {x : Nat}, 0x80 ≤ c.toNat → x < 0x40 →
      (UInt8.ofNat (0xc0 + x) = 0x0a ↔ c = '\n') := by
    intro x hc hx
    refine iff_of_false ?_ ?_
    · intro h
      have hnat := congrArg UInt8.toNat h
      rw [uint8_toNat_ofNat (by omega), show (0x0a : UInt8).toNat = 0x0a from rfl] at hnat
      omega
    · rintro rfl
      exact absurd hc (by decide)
  by_cases h7 : c.toNat < 0x80
  · refine ⟨_, _, utf8EncodeChar_one rfl h7, ?_⟩
    constructor
    · intro h
      have hnat := congrArg UInt8.toNat h
      rw [uint8_toNat_ofNat (by omega), show (0x0a : UInt8).toNat = 0x0a from rfl] at hnat
      rw [← Char.ofNat_toNat c, hnat]
    · rintro rfl
      rfl
  by_cases h11 : c.toNat < 0x800
  · exact ⟨_, _, utf8EncodeChar_two rfl (by omega) h11, hne (by omega) (by omega)⟩
  rcases Nat.lt_or_ge c.toNat 0x10000 with hbmp | hsup
  · refine ⟨_, _, utf8EncodeChar_three rfl (by omega) hbmp, ?_⟩
    rw [show 0xe0 + c.toNat / 4096 = 0xc0 + (0x20 + c.toNat / 4096) by omega]
    exact hne (by omega) (by omega)
  · refine ⟨_, _, utf8EncodeChar_four rfl hsup (by omega), ?_⟩
    rw [show 0xf0 + c.toNat / 262144 = 0xc0 + (0x30 + c.toNat / 262144) by omega]
    exact hne (by omega) (by omega)

/-- The byte that is looked at tells the character. -/
theorem crRound_crUnit {b : UInt8} {prev next : Option Char} {i : Nat}
    (hb : b = 0x0a ↔ next = some '\n') (hi : 0 < i ↔ prev.isSome) :
    crRound lfConv (prev.bind fun c ↦ (String.utf8EncodeChar c).getLast?) i b =
      crUnit lfConv prev next := by
  simp only [crRound, crUnit, hb, hi, ne_eq, prev_cr]

theorem head_text_lf {chars : List Char} (rest : List UInt8) : ∃ b bs,
    utf8Encode chars ++ 0 :: rest = b :: bs ∧ (b = 0x0a ↔ chars.head? = some '\n') := by
  cases chars with
  | nil => exact ⟨0, rest, rfl, iff_of_false (by decide) fun h ↦ (nomatch h)⟩
  | cons c cs =>
    obtain ⟨b, tail, he, hb⟩ := utf8EncodeChar_cons c
    refine ⟨b, tail ++ (utf8Encode cs ++ 0 :: rest), ?_, ?_⟩
    · rw [utf8Encode, List.flatMap_cons, he, List.append_assoc]
      rfl
    · rw [hb, List.head?_cons, Option.some_inj]

/-- The loop stores the rounds of a text, and a terminator if there is room. -/
theorem mbstoc16Loop_text {chars : List Char} (h0 : Char.ofNat 0 ∉ chars) (prev : Option Char)
    (rest : List UInt8) (i : Nat) (hi : 0 < i ↔ prev.isSome) (c16dt : Option (List UInt16)) :
    mbstoc16Loop lfConv n (prev.bind fun c ↦ (String.utf8EncodeChar c).getLast?)
        (utf8Encode chars ++ 0 :: rest) none i c16dt =
      (c16StoreRounds n i c16dt (c16Rounds lfConv prev chars)).bind fun (i, c16dt) ↦
        if ¬i < n ∧ c16dt.isSome then some (some i, c16dt)
        else (c16Store c16dt i 0).map fun c16dt ↦ (some i, c16dt) := by
  induction chars generalizing prev i c16dt with
  | nil => exact mbstoc16Loop_zero rest
  | cons c cs ih =>
    rw [List.mem_cons, not_or] at h0
    obtain ⟨b, tail, he, hb⟩ := utf8EncodeChar_cons c
    have hhead : (String.utf8EncodeChar c).headD 0 = b := by rw [he]; rfl
    rw [utf8Encode, List.flatMap_cons, ← utf8Encode, List.append_assoc,
      mbstoc16Loop_char (Ne.symm h0.1), hhead, crRound_crUnit (hb.trans Option.some_inj.symm) hi,
      c16Rounds, c16StoreRounds]
    by_cases htop : ¬i < n ∧ c16dt.isSome = true
    · rw [if_pos htop, if_pos htop, Option.bind_some]
      exact (if_pos htop).symm
    rw [if_neg htop, if_neg htop, Option.bind_assoc]
    congr 1
    funext c16dt
    have hpos : 0 < i + (crUnit lfConv prev (some c) ++ [(utf16EncodeChar c).headD 0]).length := by
      rw [List.length_append, List.length_singleton]
      omega
    generalize i + (crUnit lfConv prev (some c) ++ [(utf16EncodeChar c).headD 0]).length = i at hpos
    have hstep := fun i hi ↦ ih h0.2 (some c) i hi
    rw [Option.bind_some] at hstep
    cases (utf16EncodeChar c)[1]? with
    | none => exact hstep i (iff_of_true hpos rfl) c16dt
    | some c16 =>
      obtain ⟨b', bs, htext, hb'⟩ := @head_text_lf cs rest
      rw [htext] at hstep ⊢
      have hcr := @crRound_crUnit lfConv b' (some c) cs.head? i hb' (iff_of_true hpos rfl)
      rw [Option.bind_some] at hcr
      rw [mbstoc16Loop_pending, hcr]
      rw [Option.toList_some, List.map_cons, List.map_nil, List.singleton_append, c16StoreRounds]
      by_cases htop' : ¬i < n ∧ c16dt.isSome = true
      · rw [if_pos htop', if_pos htop', Option.bind_some]
        exact (if_pos htop').symm
      · rw [if_neg htop', if_neg htop', Option.bind_assoc]
        congr 1
        funext c16dt
        refine hstep _ (iff_of_true ?_ rfl) c16dt
        omega

end

/-! ## What is stored -/

/-- No round of two units begins at the last place. -/
def RoundsFit (n : Nat) : Nat → List (List UInt16) → Prop
  | _, [] => True
  | i, r :: rs => (i < n → i + r.length ≤ n) ∧ RoundsFit n (i + r.length) rs

section

variable {n i : Nat} {cells mem out : List UInt16}

theorem roundsFit_of_le (h : n ≤ i) (rs : List (List UInt16)) : RoundsFit n i rs := by
  induction rs generalizing i with
  | nil => trivial
  | cons r rs ih => exact ⟨fun hlt ↦ absurd h (Nat.not_le.2 hlt), ih (by omega)⟩

theorem roundsFit_of_room {rs : List (List UInt16)} (h : i + rs.flatten.length ≤ n) :
    RoundsFit n i rs := by
  induction rs generalizing i with
  | nil => trivial
  | cons r rs ih =>
    rw [List.flatten_cons, List.length_append] at h
    exact ⟨fun _ ↦ by omega, ih (by omega)⟩

theorem c16StoreAll_none (i : Nat) (xs : List UInt16) : c16StoreAll none i xs = some none := by
  induction xs generalizing i with
  | nil => rfl
  | cons x xs ih => exact ih (i + 1)

theorem c16StoreRounds_none (rs : List (List UInt16)) :
    c16StoreRounds n i none rs = some (i + rs.flatten.length, none) := by
  induction rs generalizing i with
  | nil => rfl
  | cons r rs ih =>
    rw [c16StoreRounds, if_neg fun h ↦ Bool.false_ne_true h.2, c16StoreAll_none, Option.bind_some,
      ih, List.flatten_cons, List.length_append, Nat.add_assoc]

theorem c16StoreAll_some {xs : List UInt16} (h : out.length + xs.length ≤ mem.length) :
    c16StoreAll (some (CountingBuffer.overwrite mem out)) out.length xs =
      some (some (CountingBuffer.overwrite mem (out ++ xs))) := by
  induction xs generalizing out with
  | nil => rw [List.append_nil]; rfl
  | cons x xs ih =>
    rw [List.length_cons] at h
    have hih := @ih (out ++ [x]) (by rw [List.length_append, List.length_singleton]; omega)
    rw [List.length_append, List.length_singleton, List.append_assoc, List.singleton_append] at hih
    rw [c16StoreAll, c16Store, CountingBuffer.store_overwrite (by omega), Option.map_some,
      Option.bind_some, hih]

theorem c16StoreAll_eq_none {xs : List UInt16} (h : out.length ≤ mem.length)
    (h' : mem.length < out.length + xs.length) :
    c16StoreAll (some (CountingBuffer.overwrite mem out)) out.length xs = none := by
  induction xs generalizing out with
  | nil => exact absurd h' (Nat.not_lt.2 h)
  | cons x xs ih =>
    rw [List.length_cons] at h'
    rw [c16StoreAll, c16Store]
    by_cases hroom : out.length < mem.length
    · have hih := @ih (out ++ [x]) (by rw [List.length_append, List.length_singleton]; omega)
        (by rw [List.length_append, List.length_singleton]; omega)
      rw [List.length_append, List.length_singleton] at hih
      rw [CountingBuffer.store_overwrite hroom, Option.map_some, Option.bind_some, hih]
    · rw [CountingBuffer.store, CountingBuffer.length_overwrite h, if_neg hroom]
      rfl

/-- Rounds that fit are stored, all of them if there is room. -/
theorem c16StoreRounds_some {rs : List (List UInt16)} (h : out.length ≤ mem.length)
    (hfit : RoundsFit mem.length out.length rs) : ∃ out',
      c16StoreRounds mem.length out.length (some (CountingBuffer.overwrite mem out)) rs =
          some (out'.length, some (CountingBuffer.overwrite mem out')) ∧
        out'.length ≤ mem.length ∧
        (out.length + rs.flatten.length ≤ mem.length → out' = out ++ rs.flatten) := by
  induction rs generalizing out with
  | nil => exact ⟨out, rfl, h, fun _ ↦ (List.append_nil out).symm⟩
  | cons r rs ih =>
    obtain ⟨hr, hrs⟩ := hfit
    rw [c16StoreRounds]
    by_cases hroom : out.length < mem.length
    · rw [if_neg fun hnot ↦ hnot.1 hroom, c16StoreAll_some (hr hroom), Option.bind_some,
        ← List.length_append]
      rw [← List.length_append] at hrs
      obtain ⟨out', hrun, hle, hall⟩ := @ih (out ++ r)
        (by rw [List.length_append]; exact hr hroom) hrs
      refine ⟨out', hrun, hle, ?_⟩
      intro htotal
      rw [List.flatten_cons, List.length_append] at htotal
      rw [hall (by rw [List.length_append]; omega), List.flatten_cons, List.append_assoc]
    · rw [if_pos ⟨hroom, rfl⟩]
      refine ⟨out, rfl, h, ?_⟩
      intro htotal
      have hnil : (r :: rs).flatten = [] := List.length_eq_zero_iff.1 (by omega)
      rw [hnil, List.append_nil]

/-- Where a round does not fit, something is stored behind the buffer. -/
theorem c16StoreRounds_eq_none {rs : List (List UInt16)} (h : out.length ≤ mem.length)
    (hfit : ¬RoundsFit mem.length out.length rs) :
    c16StoreRounds mem.length out.length (some (CountingBuffer.overwrite mem out)) rs = none := by
  induction rs generalizing out with
  | nil => exact absurd trivial hfit
  | cons r rs ih =>
    rw [c16StoreRounds]
    by_cases hroom : out.length < mem.length
    · rw [if_neg fun hnot ↦ hnot.1 hroom]
      by_cases hr : out.length + r.length ≤ mem.length
      · rw [c16StoreAll_some hr, Option.bind_some, ← List.length_append,
          @ih (out ++ r) (by rw [List.length_append]; exact hr)]
        rw [List.length_append]
        exact fun hrs ↦ hfit ⟨fun _ ↦ hr, hrs⟩
      · rw [c16StoreAll_eq_none h (Nat.not_le.1 hr), Option.bind_none]
    · exact absurd (roundsFit_of_le (Nat.not_lt.1 hroom) (r :: rs)) hfit

end

/-! ## The conversion -/

section

variable {lfConv : Bool} {chars : List Char} (h0 : Char.ofNat 0 ∉ chars) (rest : List UInt8)
include h0

/-- Without a buffer the units are counted. -/
theorem mbstoc16Lf_none (n : Nat) :
    mbstoc16Lf none (utf8Encode chars ++ 0 :: rest) n lfConv =
      some (((c16Rounds lfConv none chars).flatten.length : Int), none) := by
  have hloop := @mbstoc16Loop_text lfConv n chars h0 none rest 0 (by simp) none
  rw [c16StoreRounds_none, Option.bind_some, Option.bind_none, Nat.zero_add] at hloop
  dsimp only at hloop
  rw [if_neg fun h ↦ Bool.false_ne_true h.2, c16Store, Option.map_some] at hloop
  rw [mbstoc16Lf, hloop, Option.bind_some]
  exact if_neg fun h ↦ Bool.false_ne_true h.1

/-- The loop with a buffer. -/
theorem mbstoc16Loop_buffer (buf : List UInt16)
    (hfit : RoundsFit buf.length 0 (c16Rounds lfConv none chars)) : ∃ out,
      mbstoc16Loop lfConv buf.length none (utf8Encode chars ++ 0 :: rest) none 0 (some buf) =
          some (some out.length, some (if out.length < buf.length then
            CountingBuffer.overwrite buf (out ++ [0]) else CountingBuffer.overwrite buf out)) ∧
        out.length ≤ buf.length ∧
        ((c16Rounds lfConv none chars).flatten.length ≤ buf.length →
          out = (c16Rounds lfConv none chars).flatten) := by
  have hloop := @mbstoc16Loop_text lfConv buf.length chars h0 none rest 0 (by simp) (some buf)
  obtain ⟨out, hrun, hle, hall⟩ :=
    @c16StoreRounds_some buf [] (c16Rounds lfConv none chars) (Nat.zero_le _) hfit
  rw [CountingBuffer.overwrite_nil, List.length_nil] at hrun
  rw [List.length_nil, Nat.zero_add, List.nil_append] at hall
  rw [hrun, Option.bind_some, Option.bind_none] at hloop
  dsimp only at hloop
  refine ⟨out, ?_, hle, hall⟩
  rw [hloop]
  by_cases hroom : out.length < buf.length
  · rw [if_neg fun h ↦ h.1 hroom, if_pos hroom, c16Store, CountingBuffer.store_overwrite hroom]
    rfl
  · rw [if_pos ⟨hroom, rfl⟩, if_neg hroom]

/-- Nothing is stored outside of the buffer if there is one and all rounds fit. -/
theorem mbstoc16Lf_isSome (buf : List UInt16) :
    (mbstoc16Lf (some buf) (utf8Encode chars ++ 0 :: rest) buf.length lfConv).isSome ↔
      buf.length ≠ 0 ∧ RoundsFit buf.length 0 (c16Rounds lfConv none chars) := by
  by_cases hfit : RoundsFit buf.length 0 (c16Rounds lfConv none chars)
  · obtain ⟨out, hloop, hle, -⟩ := mbstoc16Loop_buffer h0 rest buf hfit
    rw [mbstoc16Lf, hloop, Option.bind_some, and_iff_left hfit]
    dsimp only
    by_cases hroom : out.length < buf.length
    · rw [if_pos hroom, if_neg fun h ↦ absurd h.2 (Nat.not_le.2 hroom)]
      exact iff_of_true rfl (by omega)
    · rw [if_neg hroom, if_pos ⟨rfl, Nat.not_lt.1 hroom⟩]
      by_cases hzero : buf.length = 0
      · rw [if_pos hzero]
        exact iff_of_false Bool.false_ne_true fun h ↦ h hzero
      · have hstore : buf.length - 1 < (CountingBuffer.overwrite buf out).length := by
          rw [CountingBuffer.length_overwrite hle]
          omega
        rw [if_neg hzero, c16Store, CountingBuffer.store, if_pos hstore]
        exact iff_of_true rfl hzero
  · have hloop := @mbstoc16Loop_text lfConv buf.length chars h0 none rest 0 (by simp) (some buf)
    have hnone := @c16StoreRounds_eq_none buf [] (c16Rounds lfConv none chars) (Nat.zero_le _) hfit
    rw [CountingBuffer.overwrite_nil, List.length_nil] at hnone
    rw [hnone, Option.bind_none, Option.bind_none] at hloop
    rw [mbstoc16Lf, hloop]
    exact iff_of_false Bool.false_ne_true fun h ↦ hfit h.2

/-- All units are stored if there is room for them and the terminator. -/
theorem mbstoc16Lf_some {buf : List UInt16}
    (hroom : (c16Rounds lfConv none chars).flatten.length < buf.length) :
    mbstoc16Lf (some buf) (utf8Encode chars ++ 0 :: rest) buf.length lfConv =
      some (((c16Rounds lfConv none chars).flatten.length : Int),
        some (filled (c16Rounds lfConv none chars).flatten buf)) := by
  obtain ⟨out, hloop, -, hall⟩ := @mbstoc16Loop_buffer lfConv chars h0 rest buf
    (roundsFit_of_room (by omega))
  obtain rfl := hall (by omega)
  rw [mbstoc16Lf, hloop, Option.bind_some, if_pos hroom, filled, if_pos hroom]
  exact if_neg fun h ↦ absurd h.2 (Nat.not_le.2 hroom)

end

end PsqlOdbc
