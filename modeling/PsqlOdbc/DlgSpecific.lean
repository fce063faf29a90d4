import PsqlOdbc.DrvconnItems
import PsqlOdbc.Convert.Identifiers
import PsqlOdbc.Lib.HexText
import PsqlOdbc.Lib.Stores

/-!
# Texts of a connection string (`dlg_specific.c`)

Passwords stand in a connection string with `encode` applied to them, and are read with `decode`;
settings stand between braces.  `encode` writes into an array of the caller, and keeps the offset by
hand: it is behind the array if the three characters of an escape end with it.  What it writes is the
beginning of `encodedText` (`encodeLoop_written`), and what `decode` makes of that is the text with
the bytes that have been lost replaced (`decode_encodedText`).
-/

namespace PsqlOdbc

open Lib

abbrev percent : UInt8 := 0x25

/-! ## The functions of the driver -/

/-- `%%%02x` of a `char`, which is signed. -/
def percentHex (inc : UInt8) : List UInt8 :=
  percent :: (hexadecimals 2 (if inc < 0x80 then inc.toNat else 0xffffff00 + inc.toNat)).map toLower

/-- The loop of `encode`, with `o` characters written, and the terminator behind it.  An `outlen` of
zero is greater than any offset when one is subtracted from it. -/
def encodeLoop (outlen : Nat) : List UInt8 → Nat → List UInt8 → Option (List UInt8)
  | [], o, out => storeAll out o [0]
  | inc :: ins, o, out =>
    if outlen ≠ 0 ∧ outlen - 1 ≤ o then storeAll out o [0]
    else if inc = plusSign then
      if outlen ≤ o + 2 then storeAll out o [0]
      else (snprintfAt out o (outlen - o) [percent, 0x32, 0x42]).bind (encodeLoop outlen ins (o + 3))
    else if isSpace inc then (storeAll out o [plusSign]).bind (encodeLoop outlen ins (o + 1))
    else if isAlnum inc = false then
      if outlen ≤ o + 2 then storeAll out o [0]
      else (snprintfAt out o (outlen - o) (percentHex inc)).bind (encodeLoop outlen ins (o + 3))
    else (storeAll out o [inc]).bind (encodeLoop outlen ins (o + 1))

/-- `encode`, into an array of `out.length` characters: the array, unless it is left. -/
def encode (name : PgName) (out : List UInt8) : Option (List UInt8) :=
  match name with
  | none => storeAll out 0 [0]
  | some ins => encodeLoop out.length ins 0 out

/-- A digit of `conv_from_hex`, which takes any character for one. -/
def hexVal (c : UInt8) : UInt8 :=
  if 0x61 ≤ c ∧ c ≤ 0x66 then c - 0x61 + 10
  else if 0x41 ≤ c ∧ c ≤ 0x46 then c - 0x41 + 10
  else c - 0x30

/-- `conv_from_hex`, as the `%c` that prints it takes it. -/
def convFromHex (hi lo : UInt8) : UInt8 := hexVal hi <<< 4 + hexVal lo

/-- The loop of `decode`, which passes over `skip` characters first.  The second character behind a
percent sign at the end of the text is behind the terminator, and there is no result. -/
def decodeLoop : Nat → List UInt8 → Option (List UInt8)
  | _, [] => some []
  | skip + 1, _ :: ins => decodeLoop skip ins
  | 0, inc :: ins =>
    if inc = plusSign then (decodeLoop 0 ins).map (0x20 :: ·)
    else if inc = percent then
      match ins.head? with
      | none => none
      | some hi => (decodeLoop 2 ins).map (convFromHex hi (ins.tail.headD 0) :: ·)
    else (decodeLoop 0 ins).map (inc :: ·)

/-- `decode`; the name ends where a NUL has been decoded. -/
def decode (ins : List UInt8) : Option PgName :=
  if ins = [] then some none
  else (decodeLoop 0 ins).map fun outs ↦ some (outs.takeWhile (· ≠ 0))

/-- The loop of `decode_or_remove_braces`, up to the last character. -/
def removeBracesLoop : List UInt8 → List UInt8
  | c :: d :: istr =>
    if c = closingBracket ∧ d = closingBracket then d :: removeBracesLoop istr
    else c :: removeBracesLoop (d :: istr)
  | _ => []

/-- `decode_or_remove_braces`. -/
def decodeOrRemoveBraces (ins : List UInt8) : Option PgName :=
  match ins with
  | c :: istr =>
    if c = openingBracket ∧ ins.getLastD 0 = closingBracket then some (some (removeBracesLoop istr))
    else decode ins
  | [] => decode ins

/-- The options whose values stand in braces. -/
inductive BracketOption
  | connSettings
  | pqopt
  | abbrConnSettings
  | abbrPqopt
  deriving DecidableEq, Repr

/-- `INI_CONNSETTINGS`, `INI_PQOPT`, `ABBR_CONNSETTINGS` and `ABBR_PQOPT`. -/
def BracketOption.optname : BracketOption → List UInt8
  | connSettings => ascii "ConnSettings"
  | pqopt => ascii "pqopt"
  | abbrConnSettings => ascii "A6"
  | abbrPqopt => ascii "D5"

/-- `makeBracketConnectString`: the text in the array it has allocated, if it has room for it. -/
def makeBracketConnectString (inStr : Bool) (item : PgName) (option : BracketOption) :
    Option (List UInt8) :=
  if !inStr then some []
  else
    let istr := item.getD []
    let len := (doubleBrackets istr).length + 30
    let text := (option.optname ++ [equalsSign, openingBracket]).take (len - 1) ++
      doubleBrackets istr ++ [closingBracket, attributeDelimiter]
    if text.length < len then some text else none

/-! ## What is written -/

/-- A character whose encoding has three characters. -/
def Escaped (c : UInt8) : Prop := c = plusSign ∨ isSpace c = false ∧ isAlnum c = false

instance (c : UInt8) : Decidable (Escaped c) := inferInstanceAs (Decidable (_ ∨ _ ∧ _))

/-- The encoding of a character: what is left of it when the next one has been written. -/
def encodedChar (c : UInt8) : List UInt8 :=
  if c = plusSign then [percent, 0x32, 0x42]
  else if isSpace c then [plusSign]
  else if isAlnum c = false then (percentHex c).take 3
  else [c]

/-- The whole encoding of a text. -/
def encodedText (name : List UInt8) : List UInt8 := name.flatMap encodedChar

/-- What the loop writes of it into an array with room for `room` characters. -/
def written : Nat → List UInt8 → List UInt8
  | _, [] => []
  | room, c :: name =>
    if room ≤ 1 ∨ Escaped c ∧ room ≤ 2 then []
    else encodedChar c ++ written (room - (encodedChar c).length) name

/-- What `decode` makes of the encoding of a character. -/
def readBackChar (c : UInt8) : UInt8 :=
  if isSpace c then 0x20 else if 0x80 ≤ c then 0xff else c

section

variable {c : UInt8} {name : List UInt8} {room : Nat}

theorem hexadecimals_two {n : Nat} (h : n < 256) :
    hexadecimals 2 n = [hexByte (n / 16), hexByte (n % 16)] := by
  rw [hexadecimals_succ, hexadecimals_succ, Nat.div_eq_of_lt (by omega : n / 16 < 16),
    hexadecimals_zero, Nat.mod_eq_of_lt (by omega : n / 16 < 16)]
  rfl

/-- A negative character has six digits in front. -/
theorem hexadecimals_negative {n : Nat} (h : n < 256) : ∃ ds, hexadecimals 2 (0xffffff00 + n) =
    [0x46, 0x46, 0x46, 0x46, 0x46, 0x46] ++ ds ∧ ds.length = 2 := by
  have hdiv : (0xffffff00 + n) / 16 / 16 = 0xffffff := by omega
  have hsix : hexadecimals 0 0xffffff = [0x46, 0x46, 0x46, 0x46, 0x46, 0x46] := by
    simp [hexadecimals, hexByte]
  refine ⟨[hexByte ((0xffffff00 + n) / 16 % 16), hexByte ((0xffffff00 + n) % 16)], ?_, rfl⟩
  rw [hexadecimals_succ, hexadecimals_succ, hdiv, hsix, List.append_assoc]
  rfl

theorem percentHex_ascii (h : c < 0x80) : percentHex c =
    [percent, toLower (hexByte (c.toNat / 16)), toLower (hexByte (c.toNat % 16))] := by
  rw [percentHex, if_pos h, hexadecimals_two c.toNat_lt]
  rfl

theorem percentHex_high (h : 0x80 ≤ c) :
    ∃ ds, percentHex c = [percent, 0x66, 0x66] ++ ds ∧ ds.length = 6 := by
  obtain ⟨ds, hds, hlen⟩ := hexadecimals_negative c.toNat_lt
  refine ⟨[0x66, 0x66, 0x66, 0x66] ++ ds.map toLower, ?_, ?_⟩
  · rw [percentHex, if_neg (UInt8.not_lt.2 h), hds, List.map_append]
    rfl
  · rw [List.length_append, List.length_map, hlen]
    rfl

theorem three_le_percentHex (c : UInt8) : 3 ≤ (percentHex c).length := by
  by_cases h : c < 0x80
  · rw [percentHex_ascii h]
    exact Nat.le_refl _
  · obtain ⟨ds, hds, -⟩ := percentHex_high (UInt8.not_lt.1 h)
    rw [hds, List.length_append]
    exact Nat.le_add_right _ _

theorem length_encodedChar (c : UInt8) :
    (encodedChar c).length = if Escaped c then 3 else 1 := by
  rw [encodedChar]
  split
  · next h => rw [if_pos (show Escaped c from Or.inl h)]; rfl
  · next h =>
    split
    · next hs => rw [if_neg (show ¬Escaped c by simp [Escaped, h, hs])]; rfl
    · next hs =>
      split
      · next ha =>
        rw [if_pos (show Escaped c from Or.inr ⟨Bool.eq_false_iff.2 hs, ha⟩), List.length_take]
        exact Nat.min_eq_left (three_le_percentHex c)
      · next ha => rw [if_neg (show ¬Escaped c by simp [Escaped, h, ha])]; rfl

theorem encodedText_cons (c : UInt8) (name : List UInt8) :
    encodedText (c :: name) = encodedChar c ++ encodedText name := rfl

end

/-! ## The loop of `encode` -/

section

variable {c : UInt8} {name done cells text : List UInt8}

/-- Three characters of a longer text stay, if there is one more character of room. -/
theorem snprintfAt_three (hroom : 3 ≤ cells.length) (htext : 3 ≤ text.length) :
    ∃ cells', cells'.length = cells.length ∧ (cells.length ≠ 3 → cells'.take 3 = text.take 3) ∧
      snprintfAt (done ++ cells) done.length (done.length + cells.length - done.length) text =
        some (done ++ cells') := by
  have hlen : (text.take (cells.length - 1) ++ [0]).length ≤ cells.length := by
    rw [List.length_append, List.length_take, List.length_singleton]
    omega
  refine ⟨_, CountingBuffer.length_overwrite hlen, ?_, ?_⟩
  · intro hne
    have hle : 3 ≤ (text.take (cells.length - 1)).length := by
      rw [List.length_take]
      omega
    rw [overwrite_eq_append, List.append_assoc, List.take_append_of_le_length hle, List.take_take,
      Nat.min_eq_left (by omega)]
  · rw [snprintfAt, if_neg (by omega), Nat.add_sub_cancel_left, storeAll_append hlen]

/-- One character is stored. -/
theorem storeAll_one (hroom : 1 ≤ cells.length) (c : UInt8) :
    ∃ cells', cells'.length = cells.length ∧ cells'.take 1 = [c] ∧
      storeAll (done ++ cells) done.length [c] = some (done ++ cells') :=
  have hlen : [c].length ≤ cells.length := hroom
  ⟨_, CountingBuffer.length_overwrite hlen, rfl, storeAll_append hlen⟩

/-- A character that has no room for its encoding ends the loop. -/
theorem encodeLoop_stop (h : cells.length ≤ 1 ∨ Escaped c ∧ cells.length ≤ 2) :
    encodeLoop (done.length + cells.length) (c :: name) done.length (done ++ cells) =
      storeAll (done ++ cells) done.length [0] := by
  rw [encodeLoop]
  by_cases hend : done.length + cells.length ≠ 0 ∧ done.length + cells.length - 1 ≤ done.length
  · rw [if_pos hend]
  · rw [if_neg hend]
    by_cases hzero : done.length + cells.length = 0
    · have hnone : ∀ x, storeAll (done ++ cells) done.length [x] = none := by
        intro x
        apply storeAll_full
        rw [List.length_singleton]
        omega
      simp only [hnone, Option.bind_none, hzero, Nat.zero_le, if_true, ite_self]
    · have hesc : Escaped c ∧ cells.length ≤ 2 := by
        refine h.resolve_left ?_
        intro hone
        omega
      have htwo : done.length + cells.length ≤ done.length + 2 := Nat.add_le_add_left hesc.2 _
      rcases hesc.1 with hplus | ⟨hspace, halnum⟩
      · rw [if_pos hplus, if_pos htwo]
      · rw [hspace, halnum, if_neg Bool.false_ne_true, if_pos rfl, if_pos htwo]
        split <;> rfl

/-- A character that has room for its encoding is replaced by it; the last of three characters is a
terminator if nothing is behind them. -/
theorem encodeLoop_go (h : ¬(cells.length ≤ 1 ∨ Escaped c ∧ cells.length ≤ 2)) :
    ∃ xs rest, xs.length = (encodedChar c).length ∧ xs.length + rest.length = cells.length ∧
      (rest ≠ [] → xs = encodedChar c) ∧
      encodeLoop (done.length + cells.length) (c :: name) done.length (done ++ cells) =
        encodeLoop ((done ++ xs).length + rest.length) name (done ++ xs).length
          (done ++ xs ++ rest) := by
  have hone : 1 < cells.length := Nat.lt_of_not_le fun hle ↦ h (Or.inl hle)
  have hthree : Escaped c → 3 ≤ cells.length :=
    fun hesc ↦ Nat.lt_of_not_le fun hle ↦ h (Or.inr ⟨hesc, hle⟩)
  -- What the first step leaves, and where the next one begins.
  obtain ⟨cells', hlen', htake, hstep⟩ : ∃ cells', cells'.length = cells.length ∧
      (cells.length ≠ (encodedChar c).length →
        cells'.take (encodedChar c).length = encodedChar c) ∧
      encodeLoop (done.length + cells.length) (c :: name) done.length (done ++ cells) =
        encodeLoop (done.length + cells.length) name (done.length + (encodedChar c).length)
          (done ++ cells') := by
    rw [encodeLoop, if_neg (by omega)]
    by_cases hplus : c = plusSign
    · have hesc : Escaped c := Or.inl hplus
      obtain ⟨cells', hlen', htake, hstore⟩ := @snprintfAt_three done cells [percent, 0x32, 0x42]
        (hthree hesc) (Nat.le_refl 3)
      have henc : encodedChar c = [percent, 0x32, 0x42] := if_pos hplus
      refine ⟨cells', hlen', by rw [henc]; exact htake, ?_⟩
      rw [if_pos hplus, if_neg (by have := hthree hesc; omega), hstore, henc]
      rfl
    · rw [if_neg hplus]
      by_cases hspace : isSpace c = true
      · obtain ⟨cells', hlen', htake, hstore⟩ :=
          @storeAll_one done cells (Nat.le_of_lt hone) plusSign
        have henc : encodedChar c = [plusSign] := by rw [encodedChar, if_neg hplus, if_pos hspace]
        refine ⟨cells', hlen', by rw [henc]; exact fun _ ↦ htake, ?_⟩
        rw [if_pos hspace, hstore, henc]
        rfl
      · rw [if_neg hspace]
        by_cases halnum : isAlnum c = false
        · have hesc : Escaped c := Or.inr ⟨Bool.eq_false_iff.2 hspace, halnum⟩
          obtain ⟨cells', hlen', htake, hstore⟩ := @snprintfAt_three done cells (percentHex c)
            (hthree hesc) (three_le_percentHex c)
          have henc : encodedChar c = (percentHex c).take 3 := by
            rw [encodedChar, if_neg hplus, if_neg hspace, if_pos halnum]
          have hthree' : (encodedChar c).length = 3 := by
            rw [length_encodedChar, if_pos hesc]
          refine ⟨cells', hlen', by rw [hthree', henc]; exact htake, ?_⟩
          rw [if_pos halnum, if_neg (by have := hthree hesc; omega), hstore, hthree']
          rfl
        · obtain ⟨cells', hlen', htake, hstore⟩ := @storeAll_one done cells (Nat.le_of_lt hone) c
          have henc : encodedChar c = [c] := by
            rw [encodedChar, if_neg hplus, if_neg hspace, if_neg halnum]
          refine ⟨cells', hlen', by rw [henc]; exact fun _ ↦ htake, ?_⟩
          rw [if_neg halnum, hstore, henc]
          rfl
  have hle : (encodedChar c).length ≤ cells'.length := by
    rw [hlen', length_encodedChar]
    split
    · next hesc => exact hthree hesc
    · exact Nat.le_of_lt hone
  have hxs : (cells'.take (encodedChar c).length).length = (encodedChar c).length := by
    rw [List.length_take, Nat.min_eq_left hle]
  refine ⟨cells'.take (encodedChar c).length, cells'.drop (encodedChar c).length, hxs, ?_, ?_, ?_⟩
  · rw [hxs, List.length_drop, Nat.add_sub_cancel' hle, hlen']
  · intro hrest
    apply htake
    intro heq
    exact hrest (List.drop_eq_nil_of_le (Nat.le_of_eq (hlen'.trans heq)))
  · rw [hstep, List.append_assoc, List.take_append_drop, List.length_append, hxs, Nat.add_assoc,
      List.length_drop, Nat.add_sub_cancel' hle, hlen']

/-- The array holds what has room, if there is room for the terminator behind it. -/
theorem encodeLoop_written (h : (written cells.length name).length < cells.length) :
    ∃ rest, encodeLoop (done.length + cells.length) name done.length (done ++ cells) =
      some (done ++ (written cells.length name ++ 0 :: rest)) := by
  induction name generalizing done cells with
  | nil =>
    have hroom : [(0 : UInt8)].length ≤ cells.length := h
    exact ⟨cells.drop 1, storeAll_append hroom⟩
  | cons c name ih =>
    rw [written] at h ⊢
    by_cases hstop : cells.length ≤ 1 ∨ Escaped c ∧ cells.length ≤ 2
    · rw [if_pos hstop] at h ⊢
      have hroom : [(0 : UInt8)].length ≤ cells.length := h
      exact ⟨cells.drop 1, by rw [encodeLoop_stop hstop, storeAll_append hroom]; rfl⟩
    · rw [if_neg hstop] at h ⊢
      obtain ⟨xs, rest, hlen, hsum, hxs, hstep⟩ := @encodeLoop_go c name done cells hstop
      have hroom : cells.length - (encodedChar c).length = rest.length := by omega
      rw [hroom, List.length_append] at h
      have hrest : rest ≠ [] := by
        rintro rfl
        rw [List.length_nil] at hsum h
        omega
      obtain ⟨rest', hrest'⟩ := @ih (done ++ xs) rest (by omega)
      refine ⟨rest', ?_⟩
      rw [hstep, hrest', hroom, hxs hrest, List.append_assoc, List.append_assoc]

/-- If what is written fills the array, the terminator is stored behind it. -/
theorem encodeLoop_full (h : cells.length ≤ (written cells.length name).length) :
    encodeLoop (done.length + cells.length) name done.length (done ++ cells) = none := by
  induction name generalizing done cells with
  | nil => exact storeAll_full (Nat.lt_succ_of_le h)
  | cons c name ih =>
    rw [written] at h
    by_cases hstop : cells.length ≤ 1 ∨ Escaped c ∧ cells.length ≤ 2
    · rw [if_pos hstop] at h
      rw [encodeLoop_stop hstop]
      exact storeAll_full (Nat.lt_succ_of_le h)
    · rw [if_neg hstop, List.length_append] at h
      obtain ⟨xs, rest, hlen, hsum, -, hstep⟩ := @encodeLoop_go c name done cells hstop
      have hroom : cells.length - (encodedChar c).length = rest.length := by omega
      rw [hroom] at h
      rw [hstep]
      exact ih (by omega)

end

/-! ## When the terminator has room -/

section

variable {c : UInt8} {name : List UInt8} {room : Nat}

/-- The encoding of no escaped character ends where the array ends. -/
def NoneEndsAt (room : Nat) (name : List UInt8) : Prop :=
  ∀ pre c post, name = pre ++ c :: post → Escaped c → (encodedText (pre ++ [c])).length ≠ room

theorem encodedText_append (name name' : List UInt8) :
    encodedText (name ++ name') = encodedText name ++ encodedText name' :=
  List.flatMap_append

theorem three_le_encodedText (pre : List UInt8) (h : Escaped c) :
    3 ≤ (encodedText (pre ++ [c])).length := by
  rw [encodedText_append, encodedText_cons, List.length_append, List.length_append,
    length_encodedChar, if_pos h]
  omega

theorem noneEndsAt_cons : NoneEndsAt room (c :: name) ↔
    (Escaped c → (encodedChar c).length ≠ room) ∧
      ∀ left, (encodedChar c).length + left = room → NoneEndsAt left name := by
  constructor
  · intro h
    refine ⟨?_, ?_⟩
    · intro hesc heq
      refine h [] c name rfl hesc ?_
      rwa [List.nil_append, encodedText_cons, encodedText, List.flatMap_nil, List.append_nil]
    · rintro left hleft pre d post rfl hesc heq
      refine h (c :: pre) d post rfl hesc ?_
      rw [List.cons_append, encodedText_cons, List.length_append, heq, hleft]
  · rintro ⟨hfirst, hrest⟩ pre d post heq hesc hend
    cases pre with
    | nil =>
      cases heq
      refine hfirst hesc ?_
      rwa [List.nil_append, encodedText_cons, encodedText, List.flatMap_nil, List.append_nil] at hend
    | cons e pre =>
      cases heq
      rw [List.cons_append, encodedText_cons, List.length_append] at hend
      exact hrest _ hend pre d post rfl hesc rfl

/-- The characters written leave room for the terminator. -/
theorem length_written_lt_iff :
    (written room name).length < room ↔ 0 < room ∧ NoneEndsAt room name := by
  induction name generalizing room with
  | nil =>
    rw [written, List.length_nil, and_iff_left]
    intro pre d post heq
    exact absurd heq (by simp)
  | cons c name ih =>
    rw [written]
    by_cases hstop : room ≤ 1 ∨ Escaped c ∧ room ≤ 2
    · rw [if_pos hstop, List.length_nil, and_iff_left]
      intro pre d post _ hesc heq
      have hthree := three_le_encodedText pre hesc
      omega
    · obtain ⟨left, hleft⟩ : ∃ left, (encodedChar c).length + left = room := by
        apply Nat.le.dest
        rw [length_encodedChar]
        split
        · next hesc => exact Nat.lt_of_not_le fun hle ↦ hstop (Or.inr ⟨hesc, hle⟩)
        · omega
      have hsub : room - (encodedChar c).length = left := by omega
      have hpos : (Escaped c → (encodedChar c).length ≠ room) ↔ 0 < left := by
        rw [length_encodedChar] at hleft ⊢
        split at hleft
        · next hesc =>
          rw [if_pos hesc]
          constructor
          · intro hne
            have := hne hesc
            omega
          · intro hlt _
            omega
        · next hesc =>
          rw [eq_true (fun h ↦ absurd h hesc : Escaped c → _), true_iff]
          omega
      have hall : (∀ left, (encodedChar c).length + left = room → NoneEndsAt left name) ↔
          NoneEndsAt left name := by
        constructor
        · intro h
          exact h left hleft
        · intro h left' hleft'
          rwa [Nat.add_left_cancel (hleft'.trans hleft.symm)]
      rw [if_neg hstop, List.length_append, hsub, noneEndsAt_cons, hall, hpos, ← ih,
        and_iff_right (by omega), iff_and_self.2 (Nat.zero_lt_of_lt)]
      omega

/-- The terminator has room if the whole encoding has. -/
theorem noneEndsAt_of_lt (h : (encodedText name).length < room) : NoneEndsAt room name := by
  rintro pre d post rfl _ heq
  rw [List.append_cons, encodedText_append, List.length_append, heq] at h
  exact absurd h (Nat.not_lt.2 (Nat.le_add_right _ _))

/-- The whole encoding is written if it has room with the terminator. -/
theorem written_eq (h : (encodedText name).length < room) : written room name = encodedText name := by
  induction name generalizing room with
  | nil => rfl
  | cons c name ih =>
    rw [encodedText_cons, List.length_append] at h
    have hgo : ¬(room ≤ 1 ∨ Escaped c ∧ room ≤ 2) := by
      rintro (hle | ⟨hesc, hle⟩)
      · rw [length_encodedChar] at h
        split at h <;> omega
      · rw [length_encodedChar, if_pos hesc] at h
        omega
    rw [written, if_neg hgo, ih (by omega), encodedText_cons]

end

/-! ## Decoding -/

section

variable {c hi lo : UInt8} {name ins pre rest : List UInt8}

theorem decodeLoop_plus (ins : List UInt8) :
    decodeLoop 0 (plusSign :: ins) = (decodeLoop 0 ins).map (0x20 :: ·) := by
  rw [decodeLoop, if_pos rfl]

theorem decodeLoop_percent (hi lo : UInt8) (ins : List UInt8) :
    decodeLoop 0 (percent :: hi :: lo :: ins) =
      (decodeLoop 0 ins).map (convFromHex hi lo :: ·) := by
  rw [decodeLoop, if_neg (by decide), if_pos rfl]
  rfl

theorem decodeLoop_other (hplus : c ≠ plusSign) (hpercent : c ≠ percent) (ins : List UInt8) :
    decodeLoop 0 (c :: ins) = (decodeLoop 0 ins).map (c :: ·) := by
  rw [decodeLoop, if_neg hplus, if_neg hpercent]

theorem hexVal_hexByte {d : Nat} (h : d < 16) : hexVal (toLower (hexByte d)) = UInt8.ofNat d := by
  revert d
  decide

theorem hexByte_ne_zero {d : Nat} (h : d < 16) : toLower (hexByte d) ≠ 0 := by
  revert d
  decide

theorem ofNat_digits (c : UInt8) :
    UInt8.ofNat (c.toNat / 16) <<< 4 + UInt8.ofNat (c.toNat % 16) = c := by
  have hc := c.toNat_lt
  apply UInt8.toNat_inj.1
  rw [UInt8.toNat_add, UInt8.toNat_shiftLeft, UInt8.toNat_ofNat', UInt8.toNat_ofNat',
    Nat.shiftLeft_eq]
  simp
  omega

theorem convFromHex_digits (c : UInt8) :
    convFromHex (toLower (hexByte (c.toNat / 16))) (toLower (hexByte (c.toNat % 16))) = c := by
  have hdiv : c.toNat / 16 < 16 := Nat.div_lt_of_lt_mul c.toNat_lt
  have hmod : c.toNat % 16 < 16 := Nat.mod_lt _ (by decide)
  rw [convFromHex, hexVal_hexByte hdiv, hexVal_hexByte hmod, ofNat_digits]

/-- White space and letters are no high characters. -/
theorem ascii_of_isSpace (h : isSpace c = true) : c < 0x80 := by
  simp only [isSpace, Bool.or_eq_true, Bool.and_eq_true, decide_eq_true_eq, UInt8.le_iff_toNat_le]
    at h
  rw [UInt8.lt_iff_toNat_lt]
  rcases h with rfl | h
  · decide
  · exact Nat.lt_of_le_of_lt h.2 (by decide)

theorem plain_of_isAlnum (h : isAlnum c = true) : c < 0x80 ∧ c ≠ percent := by
  constructor
  · simp only [isAlnum, Bool.or_eq_true, Bool.and_eq_true, decide_eq_true_eq] at h
    rcases h with (h | h) | h <;> exact UInt8.lt_of_le_of_lt h.2 (by decide)
  · rintro rfl
    exact absurd h (by decide)

/-- The encoding of one character. -/
theorem decodeLoop_encodedChar (c : UInt8) (ins : List UInt8) :
    decodeLoop 0 (encodedChar c ++ ins) = (decodeLoop 0 ins).map (readBackChar c :: ·) := by
  rw [encodedChar]
  by_cases hplus : c = plusSign
  · subst hplus
    exact decodeLoop_percent 0x32 0x42 ins
  · rw [if_neg hplus]
    by_cases hspace : isSpace c = true
    · rw [if_pos hspace, readBackChar, if_pos hspace]
      exact decodeLoop_plus ins
    · rw [if_neg hspace, readBackChar, if_neg hspace]
      by_cases halnum : isAlnum c = false
      · rw [if_pos halnum]
        by_cases hhigh : 0x80 ≤ c
        · obtain ⟨ds, hds, -⟩ := percentHex_high hhigh
          rw [if_pos hhigh, hds, List.take_append_of_le_length (Nat.le_refl 3)]
          exact decodeLoop_percent 0x66 0x66 ins
        · rw [if_neg hhigh, percentHex_ascii (UInt8.not_le.1 hhigh)]
          have h := decodeLoop_percent (toLower (hexByte (c.toNat / 16)))
            (toLower (hexByte (c.toNat % 16))) ins
          rwa [convFromHex_digits] at h
      · obtain ⟨hlow, hpercent⟩ := plain_of_isAlnum (Bool.of_not_eq_false halnum)
        rw [if_neg halnum, if_neg (UInt8.not_le.2 hlow)]
        exact decodeLoop_other hplus hpercent ins

theorem decodeLoop_encodedText (name : List UInt8) :
    decodeLoop 0 (encodedText name) = some (name.map readBackChar) := by
  induction name with
  | nil => rfl
  | cons c name ih => rw [encodedText_cons, decodeLoop_encodedChar, ih, Option.map_some, List.map_cons]

theorem readBackChar_ne_zero (h : c ≠ 0) : readBackChar c ≠ 0 := by
  rw [readBackChar]
  split
  · decide
  · split
    · decide
    · exact h

theorem zero_notMem_encodedChar (h : c ≠ 0) : 0 ∉ encodedChar c := by
  have hdiv : c.toNat / 16 < 16 := Nat.div_lt_of_lt_mul c.toNat_lt
  have hmod : c.toNat % 16 < 16 := Nat.mod_lt _ (by decide)
  rw [encodedChar]
  split
  · decide
  · split
    · decide
    · split
      · by_cases hhigh : 0x80 ≤ c
        · obtain ⟨ds, hds, -⟩ := percentHex_high hhigh
          rw [hds, List.take_append_of_le_length (Nat.le_refl 3)]
          decide
        · rw [percentHex_ascii (UInt8.not_le.1 hhigh)]
          intro hmem
          simp only [List.take_succ_cons, List.take_zero, List.mem_cons, List.not_mem_nil,
            or_false] at hmem
          rcases hmem with h | h | h
          · exact absurd h (by decide)
          · exact hexByte_ne_zero hdiv h.symm
          · exact hexByte_ne_zero hmod h.symm
      · intro hmem
        exact h (List.mem_singleton.1 hmem).symm

theorem zero_notMem_encodedText (h0 : 0 ∉ name) : 0 ∉ encodedText name := by
  intro hmem
  obtain ⟨c, hc, hzero⟩ := List.mem_flatMap.1 hmem
  refine zero_notMem_encodedChar ?_ hzero
  rintro rfl
  exact h0 hc

/-- The text read back, with the bytes that have been lost replaced. -/
theorem decode_encodedText (h0 : 0 ∉ name) :
    (decode (encodedText name)).map (·.getD []) = some (name.map readBackChar) := by
  rw [decode, decodeLoop_encodedText]
  split
  · next hnil =>
    cases name with
    | nil => rfl
    | cons c name =>
      rw [encodedText_cons, List.append_eq_nil_iff] at hnil
      have hlen := congrArg List.length hnil.1
      rw [length_encodedChar] at hlen
      split at hlen <;> exact absurd hlen (by decide)
  · rw [Option.map_some, Option.map_some, Option.getD_some, List.takeWhile_eq_self_iff.2]
    intro x hx
    obtain ⟨c, hc, rfl⟩ := List.mem_map.1 hx
    refine decide_eq_true (readBackChar_ne_zero ?_)
    rintro rfl
    exact h0 hc

/-- Text in which two characters follow each percent sign that begins an escape. -/
inductive Complete : List UInt8 → Prop
  | nil : Complete []
  | byte {c s} : c ≠ percent → Complete s → Complete (c :: s)
  | escape {hi lo s} : Complete s → Complete (percent :: hi :: lo :: s)

theorem Complete.decodeLoop_eq_none (h : Complete pre) : decodeLoop 0 (pre ++ [percent]) = none := by
  induction h with
  | nil => rfl
  | @byte c s hc _ ih =>
    rw [List.cons_append]
    by_cases hplus : c = plusSign
    · rw [hplus, decodeLoop_plus, ih, Option.map_none]
    · rw [decodeLoop_other hplus hc, ih, Option.map_none]
  | @escape hi lo s _ ih =>
    rw [List.cons_append, List.cons_append, List.cons_append, decodeLoop_percent, ih,
      Option.map_none]

/-- The text is left exactly where a percent sign is behind the last escape. -/
theorem decodeLoop_eq_none_iff :
    decodeLoop 0 ins = none ↔ ∃ pre, ins = pre ++ [percent] ∧ Complete pre := by
  constructor
  · intro h
    -- Two characters are taken at once: the induction is on the length.
    induction hn : ins.length using Nat.strong_induction_on generalizing ins with
    | _ n ih =>
      subst hn
      cases ins with
      | nil => cases h
      | cons c ins =>
        by_cases hplus : c = plusSign
        · subst hplus
          rw [decodeLoop_plus, Option.map_eq_none_iff] at h
          obtain ⟨pre, rfl, hpre⟩ := ih _ (Nat.lt_succ_self _) h rfl
          exact ⟨plusSign :: pre, rfl, .byte (by decide) hpre⟩
        · by_cases hpercent : c = percent
          · subst hpercent
            match ins with
            | [] => exact ⟨[], rfl, .nil⟩
            | [hi] => cases h
            | hi :: lo :: ins =>
              rw [decodeLoop_percent, Option.map_eq_none_iff] at h
              obtain ⟨pre, rfl, hpre⟩ := ih _ (Nat.lt_succ_of_le (Nat.le_add_right _ 2)) h rfl
              exact ⟨percent :: hi :: lo :: pre, rfl, .escape hpre⟩
          · rw [decodeLoop_other hplus hpercent, Option.map_eq_none_iff] at h
            obtain ⟨pre, rfl, hpre⟩ := ih _ (Nat.lt_succ_self _) h rfl
            exact ⟨c :: pre, rfl, .byte hpercent hpre⟩
  · rintro ⟨pre, rfl, hpre⟩
    exact hpre.decodeLoop_eq_none

theorem isSome_decode_iff :
    (decode ins).isSome ↔ ¬∃ pre, ins = pre ++ [percent] ∧ Complete pre := by
  rw [← decodeLoop_eq_none_iff, decode]
  split
  · next h => rw [h, decodeLoop]; simp
  · rw [Option.isSome_map, Option.isSome_iff_ne_none]

end

/-! ## Braces -/

theorem removeBracesLoop_doubleBrackets (text : List UInt8) :
    removeBracesLoop (doubleBrackets text ++ [closingBracket]) = text := by
  induction text with
  | nil => rfl
  | cons c text ih =>
    rw [doubleBrackets_cons]
    by_cases hc : c = closingBracket
    · rw [if_pos hc, List.append_assoc, List.cons_append, List.singleton_append, removeBracesLoop,
        if_pos ⟨hc, hc⟩, ih]
    · obtain ⟨d, rest, hrest⟩ := List.exists_cons_of_ne_nil
        (List.append_ne_nil_of_right_ne_nil (doubleBrackets text) (List.cons_ne_nil closingBracket []))
      rw [if_neg hc, List.append_assoc, List.singleton_append, hrest, removeBracesLoop,
        if_neg fun h ↦ hc h.1, ← hrest, ih]

theorem decodeOrRemoveBraces_bracesOf (text : List UInt8) :
    decodeOrRemoveBraces (bracesOf text) = some (some text) := by
  have hlast : (bracesOf text).getLastD 0 = closingBracket := by
    rw [bracesOf, ← List.cons_append, List.getLastD_concat]
  rw [bracesOf] at hlast ⊢
  rw [decodeOrRemoveBraces, if_pos ⟨rfl, hlast⟩, removeBracesLoop_doubleBrackets]

theorem makeBracketConnectString_eq (text : List UInt8) (option : BracketOption) :
    makeBracketConnectString true (some text) option =
      some (option.optname ++ equalsSign :: bracesOf text ++ [attributeDelimiter]) := by
  have hname : option.optname.length ≤ 12 := by cases option <;> decide
  have htake : (option.optname ++ [equalsSign, openingBracket]).take
      ((doubleBrackets text).length + 30 - 1) = option.optname ++ [equalsSign, openingBracket] := by
    apply List.take_of_length_le
    simp only [List.length_append, List.length_cons, List.length_nil]
    omega
  rw [makeBracketConnectString, Bool.not_true, if_neg Bool.false_ne_true]
  dsimp only [Option.getD_some]
  rw [htake, if_pos]
  · simp [bracesOf]
  · simp only [List.length_append, List.length_cons, List.length_nil]
    omega

/-! ## Passwords and settings are kept -/

/-- What is expected of the functions, for a password, the size of the array it is encoded into, a
text to decode, and a setting. -/
structure TextsKept (name : List UInt8) (outlen : Nat) (ins text : List UInt8) : Prop where
  inside : ∀ out : List UInt8, out.length = outlen → ∃ out', encode (some name) out = some out' ∧
    0 ∈ out'
  readBack : (encodedText name).length < outlen → ∀ out out', out.length = outlen →
    encode (some name) out = some out' →
      ((Lib.cstr out' 0).bind decode).map (·.getD []) = some name
  decodes : (decode ins).isSome
  braces : ∀ option, ∃ value,
    makeBracketConnectString true (some text) option =
      some (option.optname ++ equalsSign :: value ++ [attributeDelimiter]) ∧
    decodeOrRemoveBraces value = some (some text)

/-- The bytes that are read back. -/
def ReadBackByte (c : UInt8) : Prop := (isSpace c = true → c = 0x20) ∧ (0x80 ≤ c → c = 0xff)

theorem readBackChar_eq_iff {c : UInt8} : readBackChar c = c ↔ ReadBackByte c := by
  rw [readBackChar, ReadBackByte]
  split
  · next hspace =>
    rw [forall_prop_of_true hspace, eq_comm]
    refine (and_iff_left ?_).symm
    intro hhigh
    exact absurd (ascii_of_isSpace hspace) (UInt8.not_lt.2 hhigh)
  · next hspace =>
    rw [and_iff_right fun h ↦ absurd h hspace]
    split
    · next hhigh => rw [forall_prop_of_true hhigh, eq_comm]
    · next hhigh => exact iff_of_true rfl fun h ↦ absurd h hhigh

theorem map_readBackChar_eq_iff {name : List UInt8} :
    name.map readBackChar = name ↔ ∀ c ∈ name, ReadBackByte c := by
  conv_lhs => rhs; rw [← List.map_id name]
  rw [List.map_inj_left]
  exact forall₂_congr fun c _ ↦ readBackChar_eq_iff

theorem encode_isSome_iff {name out : List UInt8} :
    (∃ out', encode (some name) out = some out' ∧ 0 ∈ out') ↔
      0 < out.length ∧ NoneEndsAt out.length name := by
  have hloop : encode (some name) out =
      encodeLoop (([] : List UInt8).length + out.length) name ([] : List UInt8).length ([] ++ out) := by
    rw [List.length_nil, Nat.zero_add]
    rfl
  rw [← length_written_lt_iff, hloop]
  constructor
  · rintro ⟨out', h, -⟩
    refine Nat.lt_of_not_le ?_
    intro hle
    rw [encodeLoop_full hle] at h
    cases h
  · intro hlt
    obtain ⟨rest, hrest⟩ := @encodeLoop_written name [] out hlt
    exact ⟨_, hrest, by simp⟩

/-- What is read back of an encoding that has room. -/
theorem decode_encode {name out out' : List UInt8} (h0 : 0 ∉ name)
    (hroom : (encodedText name).length < out.length) (h : encode (some name) out = some out') :
    ((Lib.cstr out' 0).bind decode).map (·.getD []) = some (name.map readBackChar) := by
  have hlt : (written out.length name).length < out.length := by rwa [written_eq hroom]
  obtain ⟨rest, hrest⟩ := @encodeLoop_written name [] out hlt
  rw [List.length_nil, Nat.zero_add] at hrest
  have heq : out' = [] ++ (encodedText name ++ 0 :: rest) := by
    rw [written_eq hroom] at hrest
    exact Option.some_inj.1 (h.symm.trans hrest)
  have hcstr : Lib.cstr out' 0 = some (encodedText name) := by
    rw [heq]
    exact cstr_eq (zero_notMem_encodedText h0)
  rw [hcstr, Option.bind_some, decode_encodedText h0]

/-- Passwords are kept if the terminator has room, and no byte is replaced where all of the encoding
has; a text is decoded unless a percent sign is all that is left of it. -/
theorem textsKept_iff {name ins text : List UInt8} (h0 : 0 ∉ name) (outlen : Nat) :
    TextsKept name outlen ins text ↔
      0 < outlen ∧ NoneEndsAt outlen name ∧
        ((encodedText name).length < outlen → ∀ c ∈ name, ReadBackByte c) ∧
        ¬∃ pre, ins = pre ++ [percent] ∧ Complete pre := by
  constructor
  · rintro ⟨hinside, hread, hdecodes, -⟩
    obtain ⟨hpos, hends⟩ := encode_isSome_iff.1
      (hinside (List.replicate outlen 0) List.length_replicate)
    rw [List.length_replicate] at hpos hends
    refine ⟨hpos, hends, ?_, isSome_decode_iff.1 hdecodes⟩
    intro hroom
    obtain ⟨out', hout', -⟩ := hinside (List.replicate outlen 0) List.length_replicate
    have heq := hread hroom _ _ List.length_replicate hout'
    rw [decode_encode h0 (by rwa [List.length_replicate]) hout'] at heq
    exact map_readBackChar_eq_iff.1 (Option.some_inj.1 heq)
  · rintro ⟨hpos, hends, hkept, hopen⟩
    refine ⟨?_, ?_, isSome_decode_iff.2 hopen, ?_⟩
    · rintro out rfl
      exact encode_isSome_iff.2 ⟨hpos, hends⟩
    · rintro hroom out out' rfl hout'
      rw [decode_encode h0 hroom hout', map_readBackChar_eq_iff.2 (hkept hroom)]
    · intro option
      exact ⟨bracesOf text, makeBracketConnectString_eq text option,
        decodeOrRemoveBraces_bracesOf text⟩

theorem textsKept_iff_plus : TextsKept (ascii "p +1") 8 (ascii "a%2") (ascii "a\x7db") := by
  refine (textsKept_iff (by decide) 8).2 ⟨by decide, noneEndsAt_of_lt (by decide), ?_, ?_⟩
  · intro _ c hc
    have hall : ∀ c ∈ ascii "p +1", readBackChar c = c := List.map_inj_left.1 (by decide)
    exact readBackChar_eq_iff.1 (hall c hc)
  · rw [← isSome_decode_iff]
    decide

/-- The bytes of a character above ASCII are all encoded as the same byte. -/
theorem not_textsKept_utf8 : ¬TextsKept [0xc3, 0xa9] 32 [] [] := by
  intro h
  have hroom : (encodedText [0xc3, 0xa9]).length < 32 := by
    rw [encodedText_cons, encodedText_cons, List.length_append, List.length_append,
      length_encodedChar, length_encodedChar, if_pos (by decide), if_pos (by decide)]
    decide
  obtain ⟨out', hout', -⟩ := h.inside (List.replicate 32 0) List.length_replicate
  have hread := h.readBack hroom _ _ List.length_replicate hout'
  rw [decode_encode (by decide) (by rwa [List.length_replicate]) hout'] at hread
  exact absurd (Option.some_inj.1 hread) (by decide)

end PsqlOdbc
