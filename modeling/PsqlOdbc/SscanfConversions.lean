import PsqlOdbc.SscanfStored

/-!
# What a conversion consumes (`secure_sscanf.c`)

`behind` says where the item of a conversion ends, as `sscanf` does.  The code gets there from a copy
that ends with the width, by going over input and copy until a character is like the one behind the
item, and it goes on over blanks.  `meets_iff_exact` says for which inputs it ends behind the item,
and stops where there is none.
-/

namespace PsqlOdbc

open Lib

/-! ## Conversions -/

/-- The letters of the conversions. -/
inductive ScanKind
  | int (conv : IntConversion)
  | float
  | char
  | string
  deriving DecidableEq, Repr

def ScanKind.letter : ScanKind → UInt8
  | int conv => conv.letter
  | float => 0x66
  | char => 0x63
  | string => 0x73

/-- A conversion of a format: what stands behind the `%`. -/
structure Conversion where
  width : List UInt8
  modifier : LengthModifier
  kind : ScanKind
  digits : ∀ c ∈ width, isDecimal c = true

/-- Whether a number is refused for its size. -/
def IntConversion.refuses (conv : IntConversion) (modifier : LengthModifier) (base : Nat)
    (part : List UInt8) : Bool :=
  if conv.isSigned then (strtol base part).1 > 2 ^ (modifier.spType.bits - 1) - 1
  else modifier.spType ≠ .default ∧ (strtoul base part).1 > 2 ^ modifier.spType.bits - 1

namespace Conversion

variable (conv : Conversion)

def text : List UInt8 := conv.width ++ (conv.modifier.text ++ [conv.kind.letter])

/-- How many characters are converted at most; zero is no limit. -/
def limit : Nat := decimalValue conv.width

/-- The argument is the one that the conversion asks for. -/
def Takes (arg : SscanfArg) : Prop :=
  match conv.kind with
  | .int c => arg = .num (storedType c conv.modifier)
  | .float => arg = .num .float
  | .char => arg = .num .char
  | .string => ∃ cells, arg = .str cells

/-- What is left behind the item that is converted; none where the conversion fails. -/
def behind (input : List UInt8) (arg : SscanfArg) : Option (List UInt8) :=
  let part := widthPart conv.limit input
  if 0xffffffff < conv.limit then none
  else
    match conv.kind with
    | .int c =>
      if c.refuses conv.modifier (c.base input) part then none
      else (strtolScan (c.base input) part).map fun r ↦ input.drop (part.length - r.2.2.length)
    | .float =>
      (strtofScan part).bind fun r ↦
        if r.1.overflows then none else some (input.drop (part.length - r.2.length))
    | .char =>
      match input with
      | [] => none
      | _ :: rest => some rest
    | .string =>
      match arg with
      | .num _ => none
      | .str cells =>
        -- Blanks in front of a word belong to its item.
        let word := wordOf (skipSpaces input)
        if cells.length = 0 ∨ 4096 * 4 < cells.length ∨ word = [] then none
        else
          some ((skipSpaces input).drop
            (if conv.limit = 0 then word.length else min conv.limit word.length))

/-- The code converts what there is and goes on behind it, in the input and in the format, and it stops
where the conversion fails. -/
def Meets (input : List UInt8) (arg : SscanfArg) : Prop :=
  ∀ f, ∃ parsed, parseArg (conv.text ++ f) input (some arg) = some parsed ∧
    match conv.behind input arg with
    | some rest =>
      parsed.error = .success ∧ parsed.current = rest ∧
        ((conv.text ++ f).dropWhile isModifier).drop 1 = f
    | none => parsed.error ≠ .success ∨ parsed.current = input

/-- A text does not begin with a blank. -/
def NoBlankFirst (s : List UInt8) : Prop := ∀ c ∈ s.head?, isSpace c = false

/-- No blank comes behind an item, and the format is read past the conversion. -/
def EndsWell (input : List UInt8) (arg : SscanfArg) : Prop :=
  ∀ rest, conv.behind input arg = some rest → conv.modifier ≠ .i64 ∧ NoBlankFirst rest

/-- Behind a number that ends before its width there is no character that the number has. -/
def EndsUnlike (input : List UInt8) (arg : SscanfArg) : Prop :=
  ∀ rest, conv.behind input arg = some rest → ∀ c ∈ rest.head?,
    input.length - rest.length < conv.limit → c ∉ input.take (input.length - rest.length)

/-- What the code needs of the input for a kind of conversion. -/
def Suits (input : List UInt8) (arg : SscanfArg) : Prop :=
  match conv.kind with
  | .int c =>
    conv.EndsUnlike input arg ∧
      -- That there is no number is not found out with a width.
      (c.isSigned = true ∨ conv.limit = 0 ∨
        strtolScan (c.base input) (widthPart conv.limit input) ≠ none ∨ NoBlankFirst input)
  | .float => conv.EndsUnlike input arg
  | .char => ∀ c ∈ input.head?, isSpace c = true
  | .string =>
    match arg with
    | .num _ => True
    | .str cells =>
      4096 * 4 < cells.length ∨ NoBlankFirst input ∧
        (cells.length = 0 ∨ conv.limit ≤ cells.length ∧
          (conv.limit = 0 ∨ (wordOf input).length ≤ conv.limit ∨
            conv.limit + 1 < cells.length))

/-- What the code needs: a width that is an error or that its copy has room for, and an input that
suits. -/
def Exact (input : List UInt8) (arg : SscanfArg) : Prop :=
  0xffffffff < conv.limit ∨
    conv.limit < 4096 * 4 ∧ conv.EndsWell input arg ∧ conv.Suits input arg

end Conversion

/-! ## The format -/

theorem ScanKind.letter_spec (kind : ScanKind) :
    (Lib.isBlank kind.letter = false ∧ kind.letter ≠ 0x2d ∧ kind.letter ≠ 0x2b ∧
      isDecimal kind.letter = false) ∧
    kind.letter ≠ 0x68 ∧ kind.letter ≠ 0x49 ∧ kind.letter ≠ 0x6c := by
  cases kind with
  | int conv => exact conv.letter_spec
  | float => decide
  | char => decide
  | string => decide

namespace Conversion

variable (conv : Conversion) {input : List UInt8} {arg : SscanfArg}

theorem text_append (f : List UInt8) :
    conv.text ++ f = conv.width ++ (conv.modifier.text ++ conv.kind.letter :: f) := by
  rw [text, List.append_assoc, List.append_assoc]
  rfl

/-- The format is read past a conversion, unless it has an `I` in it. -/
theorem text_skipped : (∀ f, ((conv.text ++ f).dropWhile isModifier).drop 1 = f) ↔
    conv.modifier ≠ .i64 := by
  have hwidth : ∀ c ∈ conv.width, isModifier c = true := fun c hc ↦ by
    have hdigit := conv.digits c hc
    rw [isDecimal] at hdigit
    rw [isModifier, hdigit]
    rfl
  have hletter : isModifier conv.kind.letter = false := by
    obtain ⟨⟨-, -, -, hdecimal⟩, hh, -, hl⟩ := conv.kind.letter_spec
    rw [isDecimal] at hdecimal
    rw [isModifier, hdecimal, decide_eq_false hh, decide_eq_false hl]
    rfl
  have hskip : ∀ modifier : LengthModifier, modifier ≠ .i64 →
      ∀ c ∈ modifier.text, isModifier c = true := by
    intro modifier hmodifier
    cases modifier with
    | default => exact List.forall_mem_nil _
    | hh => exact List.forall_mem_cons.2 ⟨rfl, List.forall_mem_singleton.2 rfl⟩
    | h => exact List.forall_mem_singleton.2 rfl
    | l => exact List.forall_mem_singleton.2 rfl
    | ll => exact List.forall_mem_cons.2 ⟨rfl, List.forall_mem_singleton.2 rfl⟩
    | i64 => exact absurd rfl hmodifier
  constructor
  · intro h hmodifier
    have hnil := h []
    rw [text_append, List.dropWhile_append_of_pos hwidth, hmodifier] at hnil
    exact absurd hnil (List.cons_ne_nil _ _)
  · intro hmodifier f
    rw [text_append, List.dropWhile_append_of_pos hwidth,
      List.dropWhile_append_of_pos (hskip conv.modifier hmodifier),
      List.dropWhile_cons_of_neg (by rw [hletter]; exact Bool.false_ne_true)]
    rfl

/-- A width that the copy has no room for. -/
theorem parseArg_wide (hlimit : 4096 * 4 ≤ conv.limit) (f input : List UInt8) (arg : SscanfArg) :
    parseArg (conv.text ++ f) input (some arg) =
      if 0xffffffff < conv.limit then some ⟨.invalidFmt, input, none⟩ else none := by
  rw [limit] at hlimit ⊢
  rw [text_append, parseArg,
    strtol_modifier conv.digits conv.modifier conv.kind.letter_spec.1]
  generalize decimalValue conv.width = w at hlimit ⊢
  dsimp only
  by_cases hlarge : 0xffffffff < w
  · rw [if_pos hlarge, if_pos (by omega)]
  · rw [if_neg hlarge, if_neg (by omega), if_pos (by omega)]

/-- Which conversion `parse_arg` makes. -/
theorem parseArg_text (hlimit : conv.limit < 4096 * 4) (f input : List UInt8) (arg : SscanfArg) :
    parseArg (conv.text ++ f) input (some arg) =
      match conv.kind with
      | .int c =>
        some (if c.isSigned then
            parseSigned (c.base input) conv.modifier.spType conv.limit
              (widthPart conv.limit input) input arg
          else
            parseUnsigned (c.base input) conv.modifier.spType conv.limit
              (widthPart conv.limit input) input arg)
      | .float => some (parseFloat conv.limit (widthPart conv.limit input) input arg)
      | .char =>
        if arg.type ≠ .char then some ⟨.invalidType, input, none⟩
        else
          some ⟨.success, skipSpaces input,
            some (.num (((input.headD 0).toNat : Int).bmod (2 ^ 8)))⟩
      | .string => parseString conv.limit input arg := by
  rw [limit] at hlimit ⊢
  have hread := strtol_modifier conv.digits conv.modifier conv.kind.letter_spec.1 f
  have hletter := readModifier_text conv.modifier conv.kind.letter_spec.2 f
  rw [text_append]
  obtain ⟨width, modifier, kind, digits⟩ := conv
  dsimp only at hlimit hread hletter ⊢
  cases kind with
  | int c => exact parseArg_integer digits hlimit c modifier f input arg
  | float | char | string =>
    rw [parseArg, hread]
    generalize decimalValue width = w at hlimit ⊢
    have hmod : (min (2 ^ 63 - 1) (w : Int) % 2 ^ 32).toNat = w := by omega
    dsimp only
    rw [if_neg (by omega), hmod, if_neg (by omega), Option.bind_some, hletter]
    rfl

end Conversion

/-! ## Where a number ends -/

section

variable {s rest item q : List UInt8} {stop : UInt8} {uWidth : Nat}

theorem skipSpaces_eq_self : skipSpaces s = s ↔ ∀ c ∈ s.head?, isSpace c = false := by
  cases s with
  | nil => exact iff_of_true rfl fun _ h ↦ by cases h
  | cons c s =>
    constructor
    · rintro h _ ⟨⟩
      by_contra hc
      rw [Bool.not_eq_false] at hc
      have hlen := congrArg List.length h
      have hle := length_skipSpaces_le s
      rw [skipSpaces, List.dropWhile_cons_of_pos hc, ← skipSpaces, List.length_cons] at hlen
      omega
    · intro h
      exact List.dropWhile_cons_of_neg (Bool.eq_false_iff.1 (h c rfl))

/-- Blanks are not skipped beyond a character that is none. -/
theorem lt_length_skipSpaces {pre : List UInt8} {c : UInt8} (hc : isSpace c = false) :
    rest.length < (skipSpaces (pre ++ c :: rest)).length := by
  induction pre with
  | nil =>
    rw [List.nil_append, skipSpaces, List.dropWhile_cons_of_neg (Bool.eq_false_iff.1 hc)]
    exact Nat.lt_succ_self _
  | cons d pre ih =>
    rw [List.cons_append, skipSpaces, List.dropWhile_cons]
    split
    · exact ih
    · rw [List.length_cons, List.length_append, List.length_cons]
      omega

/-- The input is consumed up to the first character that is like the one behind the item. -/
theorem trimConsume_before (hstop : stop ∈ item) (hlen : item.length ≤ uWidth) :
    ∃ pre tail, item = pre ++ stop :: tail ∧
      trimConsume stop uWidth (item ++ q) (item ++ rest) = stop :: tail ++ rest := by
  induction item generalizing uWidth with
  | nil => cases hstop
  | cons c item ih =>
    obtain ⟨k, rfl⟩ : ∃ k, uWidth = k + 1 := ⟨uWidth - 1, by rw [List.length_cons] at hlen; omega⟩
    rw [List.cons_append, List.cons_append, trimConsume, List.headD_cons]
    by_cases hc : c = stop
    · rw [if_pos hc]
      exact ⟨[], item, congrArg (· :: item) hc, by rw [hc]; rfl⟩
    · rw [if_neg hc]
      obtain ⟨pre, tail, rfl, htrim⟩ :=
        ih ((List.mem_cons.1 hstop).resolve_left (Ne.symm hc)) (Nat.le_of_succ_le_succ hlen)
      exact ⟨c :: pre, tail, rfl, htrim⟩

/-- The code ends behind an item, that ends with no blank, exactly if no blank follows and, within the
width, no character of the item does. -/
theorem skipSpaces_numberEnd {pre : List UInt8} {last : UInt8} (hitem : item = pre ++ [last])
    (hlast : isSpace last = false) (h0 : 0 ∉ item) (hpart : widthPart uWidth (item ++ rest) = item ++ q) :
    skipSpaces (numberEnd uWidth (item ++ q) q (item ++ rest)) = rest ↔
      (∀ c ∈ rest.head?, isSpace c = false) ∧
        ∀ c ∈ rest.head?, item.length < uWidth → c ∉ item := by
  by_cases hwidth : uWidth = 0
  · -- Without a width the input itself is read.
    subst hwidth
    obtain rfl : rest = q := List.append_cancel_left hpart
    rw [numberEnd, if_neg (by decide), skipSpaces_eq_self]
    exact ⟨fun h ↦ ⟨h, fun _ _ hlt ↦ absurd hlt (Nat.not_lt_zero _)⟩, fun h ↦ h.1⟩
  · have hpos : uWidth > 0 := Nat.pos_of_ne_zero hwidth
    rw [widthPart, if_pos hpos] at hpart
    have hlen : item.length ≤ uWidth := by
      have h := congrArg List.length hpart
      rw [List.length_take, List.length_append, List.length_append] at h
      omega
    have hq : q = rest.take (uWidth - item.length) := by
      rw [List.take_append, List.take_of_length_le hlen] at hpart
      exact (List.append_cancel_left hpart).symm
    rw [numberEnd, if_pos hpos]
    by_cases hstop : q.headD 0 ∈ item
    · -- The loop ends inside the item.
      have hinside : rest.head? = some (q.headD 0) ∧ item.length < uWidth := by
        cases hk : uWidth - item.length with
        | zero =>
          rw [hk, List.take_zero] at hq
          rw [hq] at hstop
          exact absurd hstop h0
        | succ k =>
          cases rest with
          | nil =>
            rw [List.take_nil] at hq
            rw [hq] at hstop
            exact absurd hstop h0
          | cons c rest =>
            rw [hk, List.take_succ_cons] at hq
            rw [hq]
            exact ⟨rfl, by omega⟩
      obtain ⟨before, tail, hsplit, htrim⟩ := @trimConsume_before rest item q _ _ hstop hlen
      rw [htrim]
      constructor
      · intro h
        have hlong : rest.length < (skipSpaces (q.headD 0 :: tail ++ rest)).length := by
          obtain ⟨init, hinit⟩ : ∃ init, q.headD 0 :: tail = init ++ [last] := by
            have hends := hsplit.symm.trans hitem
            rcases List.eq_nil_or_concat (q.headD 0 :: tail) with hnil | ⟨init, c, hconcat⟩
            · cases hnil
            · rw [List.concat_eq_append] at hconcat
              rw [hconcat, ← List.append_assoc] at hends
              rw [hconcat, (List.append_inj' hends rfl).2]
              exact ⟨init, rfl⟩
          rw [hinit, List.append_assoc]
          exact lt_length_skipSpaces hlast
        rw [h] at hlong
        exact absurd hlong (Nat.lt_irrefl _)
      · rintro ⟨-, hunlike⟩
        exact absurd hstop (hunlike _ hinside.1 hinside.2)
    · rw [trimConsume_upTo hstop rfl hlen, skipSpaces_eq_self]
      refine ⟨fun h ↦ ⟨h, fun c hc hlt ↦ ?_⟩, fun h ↦ h.1⟩
      obtain ⟨k, hk⟩ : ∃ k, uWidth - item.length = k + 1 := ⟨uWidth - item.length - 1, by omega⟩
      cases rest with
      | nil => cases hc
      | cons d rest =>
        obtain rfl : d = c := Option.some.inj hc
        rw [hq, hk, List.take_succ_cons, List.headD_cons] at hstop
        exact hstop

end

/-! ## Numbers -/

theorem widthPart_prefix (uWidth : Nat) (input : List UInt8) :
    ∃ more, input = widthPart uWidth input ++ more := by
  rw [widthPart]
  split
  · exact ⟨input.drop uWidth, (List.take_append_drop uWidth input).symm⟩
  · exact ⟨[], (List.append_nil input).symm⟩

/-- The item of a number, in the input and in the part of it that the width leaves. -/
theorem number_split {p : UInt8 → Bool} {uWidth : Nat} {input q : List UInt8}
    (hp : ∀ c, p c = true → isSpace c = false)
    (hread : ReadBy p ((widthPart uWidth input).dropWhile Lib.isBlank) q)
    (hlt : q.length < ((widthPart uWidth input).dropWhile Lib.isBlank).length) :
    ∃ pre last rest, isSpace last = false ∧ input = pre ++ [last] ++ rest ∧
      widthPart uWidth input = pre ++ [last] ++ q ∧
      input.drop ((widthPart uWidth input).length - q.length) = rest := by
  obtain ⟨pre, last, hsolid, hlast⟩ := hread.last hlt
  obtain ⟨more, hmore⟩ := widthPart_prefix uWidth input
  have hpart : widthPart uWidth input =
      (widthPart uWidth input).takeWhile Lib.isBlank ++ pre ++ [last] ++ q := by
    rw [List.append_assoc, List.append_assoc, List.singleton_append, ← hsolid,
      List.takeWhile_append_dropWhile]
  generalize (widthPart uWidth input).takeWhile Lib.isBlank ++ pre = pre at hpart
  rw [hpart] at hmore ⊢
  refine ⟨pre, last, q ++ more, hp last hlast, ?_, rfl, ?_⟩
  · rw [← List.append_assoc]
    exact hmore
  · rw [List.length_append, Nat.add_sub_cancel, hmore, List.append_assoc, List.drop_left]

namespace Conversion

variable {conv : Conversion} {input rest : List UInt8} {arg : SscanfArg} {parsed : ParsedArg}

theorem meets_some (hparse : ∀ f, parseArg (conv.text ++ f) input (some arg) = some parsed)
    (hbehind : conv.behind input arg = some rest) :
    conv.Meets input arg ↔
      parsed.error = .success ∧ parsed.current = rest ∧ conv.modifier ≠ .i64 := by
  rw [Meets, hbehind, ← conv.text_skipped]
  constructor
  · intro h
    have hone : ∀ f, parsed.error = .success ∧ parsed.current = rest ∧
        ((conv.text ++ f).dropWhile isModifier).drop 1 = f := by
      intro f
      obtain ⟨parsed', hparse', hmeets⟩ := h f
      obtain rfl := Option.some.inj ((hparse f).symm.trans hparse')
      exact hmeets
    exact ⟨(hone []).1, (hone []).2.1, fun f ↦ (hone f).2.2⟩
  · rintro ⟨herror, hcurrent, hskip⟩ f
    exact ⟨parsed, hparse f, herror, hcurrent, hskip f⟩

theorem meets_none (hparse : ∀ f, parseArg (conv.text ++ f) input (some arg) = some parsed)
    (hbehind : conv.behind input arg = none) :
    conv.Meets input arg ↔ parsed.error ≠ .success ∨ parsed.current = input := by
  rw [Meets, hbehind]
  constructor
  · intro h
    obtain ⟨parsed', hparse', hmeets⟩ := h []
    obtain rfl := Option.some.inj ((hparse []).symm.trans hparse')
    exact hmeets
  · exact fun h f ↦ ⟨parsed, hparse f, h⟩

theorem not_meets (hparse : ∀ f, parseArg (conv.text ++ f) input (some arg) = none) :
    ¬conv.Meets input arg := by
  intro h
  obtain ⟨parsed, hparse', -⟩ := h []
  rw [hparse] at hparse'
  cases hparse'

theorem endsWell_none (hbehind : conv.behind input arg = none) :
    conv.EndsWell input arg ∧ conv.EndsUnlike input arg := by
  constructor
  · intro rest h
    rw [hbehind] at h
    cases h
  · intro rest h
    rw [hbehind] at h
    cases h

theorem endsWell_some (hbehind : conv.behind input arg = some rest) :
    conv.EndsWell input arg ↔ conv.modifier ≠ .i64 ∧ NoBlankFirst rest := by
  constructor
  · exact fun h ↦ h rest hbehind
  · rintro h rest' hrest
    obtain rfl := Option.some.inj (hbehind.symm.trans hrest)
    exact h

/-- A number that is converted. -/
theorem meets_number (h0 : 0 ∉ input) {pre q : List UInt8} {last : UInt8} {value : SscanfValue}
    (hlast : isSpace last = false) (hinput : input = pre ++ [last] ++ rest)
    (hpart : widthPart conv.limit input = pre ++ [last] ++ q)
    (hparse : ∀ f, parseArg (conv.text ++ f) input (some arg) = some ⟨.success,
      skipSpaces (numberEnd conv.limit (widthPart conv.limit input) q input), some value⟩)
    (hbehind : conv.behind input arg = some rest) :
    conv.Meets input arg ↔ conv.EndsWell input arg ∧ conv.EndsUnlike input arg := by
  have hlen : input.length - rest.length = (pre ++ [last]).length := by
    rw [hinput, List.length_append, Nat.add_sub_cancel]
  have htake : input.take (input.length - rest.length) = pre ++ [last] := by
    rw [hlen, hinput, List.take_left]
  have hunlike : conv.EndsUnlike input arg ↔
      ∀ c ∈ rest.head?, (pre ++ [last]).length < conv.limit → c ∉ pre ++ [last] := by
    constructor
    · intro h
      have hrest := h rest hbehind
      rw [htake, hlen] at hrest
      exact hrest
    · rintro h rest' hrest
      obtain rfl := Option.some.inj (hbehind.symm.trans hrest)
      rw [htake, hlen]
      exact h
  have hitem : 0 ∉ pre ++ [last] := by
    rw [hinput] at h0
    exact fun h ↦ h0 (List.mem_append_left _ h)
  have hends := skipSpaces_numberEnd rfl hlast hitem (hinput ▸ hpart)
  rw [meets_some hparse hbehind, endsWell_some hbehind, hunlike, hpart, hinput]
  dsimp only
  rw [hends]
  constructor
  · rintro ⟨-, ⟨hblank, hunlike⟩, hmodifier⟩
    exact ⟨⟨hmodifier, hblank⟩, hunlike⟩
  · rintro ⟨⟨hmodifier, hblank⟩, hunlike⟩
    exact ⟨rfl, ⟨hblank, hunlike⟩, hmodifier⟩

/-! ### Integers and floating point -/

theorem behind_int {c : IntConversion} (hkind : conv.kind = .int c)
    (hlimit : conv.limit < 4096 * 4) :
    conv.behind input arg =
      if c.refuses conv.modifier (c.base input) (widthPart conv.limit input) then none
      else (strtolScan (c.base input) (widthPart conv.limit input)).map fun r ↦
        input.drop ((widthPart conv.limit input).length - r.2.2.length) := by
  rw [behind.eq_def]
  dsimp only
  rw [if_neg (by omega), hkind]

theorem base_le (c : IntConversion) (input : List UInt8) : c.base input ≤ 36 := by
  cases c with
  | d | u => exact (by decide : 10 ≤ 36)
  | x | upperX => exact (by decide : 16 ≤ 36)
  | i =>
    rw [IntConversion.base]
    split_ifs
    all_goals decide

/-- The item of an integer. -/
theorem int_split {base n uWidth : Nat} (hbase : base ≤ 36) {neg : Bool} {q : List UInt8}
    (hscan : strtolScan base (widthPart uWidth input) = some (neg, n, q)) :
    ∃ pre last rest, isSpace last = false ∧ input = pre ++ [last] ++ rest ∧
      widthPart uWidth input = pre ++ [last] ++ q ∧
      input.drop ((widthPart uWidth input).length - q.length) = rest := by
  obtain ⟨-, hread, hlt⟩ := strtolScan_read hbase hscan
  refine number_split (fun c hc ↦ ?_) hread hlt
  have hsolid := (Bool.and_eq_true _ _ ▸ hc).2
  rw [Bool.not_eq_true'] at hsolid
  exact hsolid

section

variable (hlimit : conv.limit < 4096 * 4) (h0 : 0 ∉ input)
include hlimit h0

theorem meets_signed {c : IntConversion} (hkind : conv.kind = .int c) (hsigned : c.isSigned = true)
    (harg : arg = .num (storedType c conv.modifier)) :
    conv.Meets input arg ↔ conv.EndsWell input arg ∧ conv.EndsUnlike input arg := by
  have hparse : ∀ f, parseArg (conv.text ++ f) input (some arg) =
      some (parseSigned (c.base input) conv.modifier.spType conv.limit
        (widthPart conv.limit input) input arg) := fun f ↦ by
    rw [conv.parseArg_text hlimit, hkind]
    dsimp only
    rw [if_pos hsigned]
  have hbehind := @behind_int conv input arg c hkind hlimit
  have hrefuses : c.refuses conv.modifier (c.base input) (widthPart conv.limit input) = true ↔
      (strtol (c.base input) (widthPart conv.limit input)).1 >
        2 ^ (conv.modifier.spType.bits - 1) - 1 := by
    rw [IntConversion.refuses, if_pos hsigned, decide_eq_true_iff]
  rw [parseSigned, if_neg fun h ↦ h (by rw [harg]; exact if_pos hsigned)] at hparse
  cases hscan : strtolScan (c.base input) (widthPart conv.limit input) with
  | none =>
    rw [hscan, Option.map_none, ite_self] at hbehind
    rw [strtol, hscan] at hparse
    dsimp only at hparse
    rw [if_pos rfl] at hparse
    exact iff_of_true ((meets_none hparse hbehind).2 (Or.inl fun h ↦ by cases h))
      (endsWell_none hbehind)
  | some r =>
    obtain ⟨neg, n, q⟩ := r
    obtain ⟨pre, last, rest, hlast, hinput, hpart, hrest⟩ := int_split (base_le c input) hscan
    have hshort : ¬q.length = (widthPart conv.limit input).length := by
      rw [hpart, List.length_append, List.length_append, List.length_singleton]
      omega
    have hend : (strtol (c.base input) (widthPart conv.limit input)).2 = q := by
      rw [strtol_of_scan hscan]
    rw [hscan, Option.map_some, hrest] at hbehind
    dsimp only at hparse
    rw [hend, if_neg hshort] at hparse
    by_cases hrefused : c.refuses conv.modifier (c.base input) (widthPart conv.limit input) = true
    · rw [if_pos hrefused] at hbehind
      rw [if_pos (hrefuses.1 hrefused)] at hparse
      exact iff_of_true ((meets_none hparse hbehind).2 (Or.inl fun h ↦ by cases h))
        (endsWell_none hbehind)
    · rw [if_neg hrefused] at hbehind
      rw [if_neg fun h ↦ hrefused (hrefuses.2 h)] at hparse
      exact meets_number h0 hlast hinput hpart hparse hbehind

theorem meets_unsigned {c : IntConversion} (hkind : conv.kind = .int c)
    (hsigned : c.isSigned = false) (harg : arg = .num (storedType c conv.modifier)) :
    conv.Meets input arg ↔ conv.EndsWell input arg ∧ conv.EndsUnlike input arg ∧
      (conv.limit = 0 ∨ strtolScan (c.base input) (widthPart conv.limit input) ≠ none ∨
        NoBlankFirst input) := by
  have hfalse : ¬c.isSigned = true := Bool.eq_false_iff.1 hsigned
  have hparse : ∀ f, parseArg (conv.text ++ f) input (some arg) =
      some (parseUnsigned (c.base input) conv.modifier.spType conv.limit
        (widthPart conv.limit input) input arg) := fun f ↦ by
    rw [conv.parseArg_text hlimit, hkind]
    dsimp only
    rw [if_neg hfalse]
  have hbehind := @behind_int conv input arg c hkind hlimit
  have hrefuses : c.refuses conv.modifier (c.base input) (widthPart conv.limit input) = true ↔
      conv.modifier.spType ≠ .default ∧ (strtoul (c.base input) (widthPart conv.limit input)).1 >
        2 ^ conv.modifier.spType.bits - 1 := by
    rw [IntConversion.refuses, if_neg hfalse, decide_eq_true_iff]
  rw [parseUnsigned, if_neg fun h ↦ h (by rw [harg]; exact if_neg hfalse)] at hparse
  cases hscan : strtolScan (c.base input) (widthPart conv.limit input) with
  | none =>
    have hread : strtoul (c.base input) (widthPart conv.limit input) =
        (0, widthPart conv.limit input) := by
      rw [strtoul, hscan]
    rw [hscan, Option.map_none, ite_self] at hbehind
    rw [hread] at hparse
    dsimp only at hparse
    have hends := endsWell_none hbehind
    by_cases hzero : conv.limit = 0
    · have hwhole : (widthPart conv.limit input).length = input.length := by
        rw [hzero]
        rfl
      rw [if_pos ⟨hzero, hwhole⟩] at hparse
      exact iff_of_true ((meets_none hparse hbehind).2 (Or.inl fun h ↦ by cases h))
        ⟨hends.1, hends.2, Or.inl hzero⟩
    · -- That there is no number is not found out.
      have hpos : 0 < conv.limit := Nat.pos_of_ne_zero hzero
      have hstay : numberEnd conv.limit (widthPart conv.limit input) (widthPart conv.limit input)
          input = input := by
        obtain ⟨k, hk⟩ := Nat.exists_eq_succ_of_ne_zero hzero
        rw [numberEnd, if_pos hpos, hk, trimConsume, if_pos rfl]
      rw [if_neg fun h ↦ hzero h.1, if_neg fun h ↦ absurd h.2 (Nat.not_lt_zero _), hstay] at hparse
      rw [meets_none hparse hbehind]
      constructor
      · rintro (herror | hcurrent)
        · exact absurd rfl herror
        · exact ⟨hends.1, hends.2, Or.inr (Or.inr (skipSpaces_eq_self.1 hcurrent))⟩
      · rintro ⟨-, -, hzero' | hnone | hblank⟩
        · exact absurd hzero' hzero
        · exact absurd rfl hnone
        · exact Or.inr (skipSpaces_eq_self.2 hblank)
  | some r =>
    obtain ⟨neg, n, q⟩ := r
    obtain ⟨pre, last, rest, hlast, hinput, hpart, hrest⟩ := int_split (base_le c input) hscan
    have hshort : ¬(conv.limit = 0 ∧ q.length = input.length) := by
      rintro ⟨hzero, hlen⟩
      rw [hzero, show widthPart 0 input = input from rfl] at hpart
      rw [hpart, List.length_append, List.length_append, List.length_singleton] at hlen
      omega
    have hend : (strtoul (c.base input) (widthPart conv.limit input)).2 = q := by
      rw [strtoul_of_scan hscan]
    rw [hscan, Option.map_some, hrest] at hbehind
    dsimp only at hparse
    rw [hend, if_neg hshort] at hparse
    have hthird : ∀ p : Prop, p ∧ (conv.limit = 0 ∨ some (neg, n, q) ≠ none ∨ NoBlankFirst input) ↔
        p := fun p ↦ and_iff_left (Or.inr (Or.inl (Option.some_ne_none _)))
    rw [← and_assoc, hthird]
    by_cases hrefused : c.refuses conv.modifier (c.base input) (widthPart conv.limit input) = true
    · rw [if_pos hrefused] at hbehind
      rw [if_pos (hrefuses.1 hrefused)] at hparse
      exact iff_of_true ((meets_none hparse hbehind).2 (Or.inl fun h ↦ by cases h))
        (endsWell_none hbehind)
    · rw [if_neg hrefused] at hbehind
      rw [if_neg fun h ↦ hrefused (hrefuses.2 h)] at hparse
      exact meets_number h0 hlast hinput hpart hparse hbehind

theorem meets_float (hkind : conv.kind = .float) (harg : arg = .num .float) :
    conv.Meets input arg ↔ conv.EndsWell input arg ∧ conv.EndsUnlike input arg := by
  have hparse : ∀ f, parseArg (conv.text ++ f) input (some arg) =
      some (parseFloat conv.limit (widthPart conv.limit input) input arg) := fun f ↦ by
    rw [conv.parseArg_text hlimit, hkind]
  have hbehind : conv.behind input arg = (strtofScan (widthPart conv.limit input)).bind fun r ↦
      if r.1.overflows then none
      else some (input.drop ((widthPart conv.limit input).length - r.2.length)) := by
    rw [behind.eq_def]
    dsimp only
    rw [if_neg (by omega), hkind]
  rw [parseFloat, if_neg fun h ↦ h (by rw [harg]; rfl)] at hparse
  cases hscan : strtofScan (widthPart conv.limit input) with
  | none =>
    rw [hscan] at hbehind hparse
    exact iff_of_true ((meets_none hparse hbehind).2 (Or.inl fun h ↦ by cases h))
      (endsWell_none hbehind)
  | some r =>
    obtain ⟨x, q⟩ := r
    obtain ⟨hread, hlt⟩ := strtofScan_read hscan
    obtain ⟨pre, last, rest, hlast, hinput, hpart, hrest⟩ :=
      number_split (fun c hc ↦ Bool.not_eq_true' (Lib.isBlank c) ▸ hc) hread hlt
    rw [hscan, Option.bind_some, hrest] at hbehind
    rw [hscan] at hparse
    dsimp only at hbehind hparse
    by_cases hover : x.overflows = true
    · rw [if_pos hover] at hbehind hparse
      exact iff_of_true ((meets_none hparse hbehind).2 (Or.inl fun h ↦ by cases h))
        (endsWell_none hbehind)
    · rw [if_neg hover] at hbehind hparse
      exact meets_number h0 hlast hinput hpart hparse hbehind

end

/-! ### Characters and words -/

theorem meets_char (hlimit : conv.limit < 4096 * 4) (hs : input ≠ []) (hkind : conv.kind = .char)
    (harg : arg = .num .char) :
    conv.Meets input arg ↔ conv.EndsWell input arg ∧ ∀ c ∈ input.head?, isSpace c = true := by
  obtain ⟨c, rest, rfl⟩ := List.exists_cons_of_ne_nil hs
  have hparse : ∀ f, parseArg (conv.text ++ f) (c :: rest) (some arg) =
      some ⟨.success, skipSpaces (c :: rest), some (.num ((c.toNat : Int).bmod (2 ^ 8)))⟩ := by
    intro f
    rw [conv.parseArg_text hlimit, hkind, harg]
    exact if_neg fun h ↦ h rfl
  have hbehind : conv.behind (c :: rest) arg = some rest := by
    rw [behind.eq_def]
    dsimp only
    rw [if_neg (by omega), hkind]
  rw [meets_some hparse hbehind, endsWell_some hbehind]
  dsimp only
  constructor
  · rintro ⟨-, hskip, hmodifier⟩
    by_cases hc : isSpace c = true
    · rw [skipSpaces, List.dropWhile_cons_of_pos hc] at hskip
      refine ⟨⟨hmodifier, skipSpaces_eq_self.1 hskip⟩, ?_⟩
      rintro _ ⟨⟩
      exact hc
    · rw [skipSpaces, List.dropWhile_cons_of_neg hc] at hskip
      exact absurd hskip (List.cons_ne_self c rest)
  · rintro ⟨⟨hmodifier, hblank⟩, hc⟩
    refine ⟨rfl, ?_, hmodifier⟩
    rw [skipSpaces, List.dropWhile_cons_of_pos (hc c rfl)]
    exact skipSpaces_eq_self.2 hblank

theorem copyWord_snd (cbSize : Nat) (uWidth : Option Nat) (s : List UInt8) :
    (copyWord cbSize uWidth s).2 =
      (cbSize - (copyWord cbSize uWidth s).1.length, s.drop (copyWord cbSize uWidth s).1.length) := by
  induction s generalizing cbSize uWidth with
  | nil =>
    rw [copyWord]
    rfl
  | cons c s ih =>
    cases cbSize with
    | zero =>
      rw [copyWord]
      · rfl
      · exact List.cons_ne_nil c s
    | succ cbSize =>
      rw [copyWord]
      split
      · rfl
      · dsimp only
        rw [ih cbSize, List.length_cons, Nat.add_sub_add_right, List.drop_succ_cons]

/-- What is left behind a word, from any place in it. -/
theorem dropWhile_word (s : List UInt8) {k : Nat} (hk : k ≤ (wordOf s).length) :
    ((s.drop k).dropWhile fun c ↦ !isSpace c) = s.drop (wordOf s).length := by
  induction s generalizing k with
  | nil =>
    rw [List.drop_nil, List.drop_nil]
    rfl
  | cons c s ih =>
    by_cases hc : (!isSpace c) = true
    · have hfirst : wordOf (c :: s) = c :: wordOf s := List.takeWhile_cons_of_pos hc
      rw [hfirst, List.length_cons] at hk ⊢
      cases k with
      | zero =>
        have hdrop : ((c :: s).dropWhile fun c ↦ !isSpace c) = s.dropWhile fun c ↦ !isSpace c :=
          List.dropWhile_cons_of_pos hc
        rw [List.drop_zero, List.drop_succ_cons, hdrop]
        exact ih (Nat.zero_le _)
      | succ k =>
        rw [List.drop_succ_cons, List.drop_succ_cons]
        exact ih (Nat.le_of_succ_le_succ hk)
    · have hfirst : wordOf (c :: s) = [] := List.takeWhile_cons_of_neg hc
      rw [hfirst] at hk ⊢
      rw [Nat.le_zero.1 hk, List.drop_zero]
      exact List.dropWhile_cons_of_neg hc

/-- How many characters `%s` stores of a word. -/
def storedLength (width capacity : Nat) (s : List UInt8) : Nat :=
  min (wordLimit width capacity) (wordOf s).length

/-- What `%s` consumes: the word as far as it is stored, but all of it where that fills the buffer. -/
theorem parseString_consumed {w : Nat} {s cells : List UInt8} (hpos : 0 < cells.length)
    (hcells : cells.length ≤ 4096 * 4) (hw : w ≤ cells.length) : ∃ value,
    parseString w s (.str cells) = some ⟨.success, skipSpaces (s.drop
      (if storedLength w cells.length s = cells.length - 1 then (wordOf s).length
        else storedLength w cells.length s)), some value⟩ := by
  have hcopy : (copyWord (cells.length - 1) (if w > 0 then some w else none) s).1 =
      (wordOf s).take (wordLimit w cells.length) := by
    rw [copyWord_fst, wordLimit]
    by_cases hzero : w = 0
    · rw [if_neg (by omega), if_pos hzero]
      rfl
    · rw [if_pos (by omega), if_neg hzero]
      rfl
  have hbehind := copyWord_snd (cells.length - 1) (if w > 0 then some w else none) s
  have hlen : (copyWord (cells.length - 1) (if w > 0 then some w else none) s).1.length =
      storedLength w cells.length s := by
    rw [hcopy, List.length_take, storedLength]
  rw [hlen] at hbehind
  have hcleared : ¬(if w > 0 then w else cells.length) > cells.length := by
    split
    · omega
    · omega
  have hlimit : storedLength w cells.length s ≤ cells.length - 1 := by
    rw [storedLength, wordLimit]
    split
    · omega
    · omega
  rw [parseString, if_neg (by omega), if_neg (by omega)]
  dsimp only
  rw [if_neg hcleared, hbehind]
  dsimp only
  by_cases hfull : storedLength w cells.length s = cells.length - 1
  · rw [if_pos hfull, if_pos (show cells.length - 1 - storedLength w cells.length s = 0 by omega),
      dropWhile_word s (show storedLength w cells.length s ≤ _ from Nat.min_le_right _ _)]
    exact ⟨_, rfl⟩
  · rw [if_neg hfull,
      if_neg (show ¬cells.length - 1 - storedLength w cells.length s = 0 by omega)]
    exact ⟨_, rfl⟩

theorem meets_string (hlimit : conv.limit < 4096 * 4) (hs : input ≠ [])
    (hkind : conv.kind = .string) {cells : List UInt8} (harg : arg = .str cells) :
    conv.Meets input arg ↔ conv.EndsWell input arg ∧
      (4096 * 4 < cells.length ∨ NoBlankFirst input ∧
        (cells.length = 0 ∨ conv.limit ≤ cells.length ∧
          (conv.limit = 0 ∨ (wordOf input).length ≤ conv.limit ∨
            conv.limit + 1 < cells.length))) := by
  subst harg
  have hparse : ∀ f, parseArg (conv.text ++ f) input (some (.str cells)) =
      parseString conv.limit input (.str cells) := fun f ↦ by
    rw [conv.parseArg_text hlimit, hkind]
  have hbehind : conv.behind input (.str cells) =
      if cells.length = 0 ∨ 4096 * 4 < cells.length ∨ wordOf (skipSpaces input) = [] then none
      else
        some ((skipSpaces input).drop (if conv.limit = 0 then (wordOf (skipSpaces input)).length
          else min conv.limit (wordOf (skipSpaces input)).length)) := by
    rw [behind.eq_def]
    dsimp only
    rw [if_neg (by omega), hkind]
  by_cases hlarge : 4096 * 4 < cells.length
  · rw [if_pos (Or.inr (Or.inl hlarge))] at hbehind
    have herror : ∀ f, parseArg (conv.text ++ f) input (some (.str cells)) =
        some ⟨.bufferTooSmall, input, none⟩ := fun f ↦ by
      rw [hparse, parseString, if_pos hlarge]
    exact iff_of_true ((meets_none herror hbehind).2 (Or.inl fun h ↦ by cases h))
      ⟨(endsWell_none hbehind).1, Or.inl hlarge⟩
  by_cases hempty : cells.length = 0
  · rw [if_pos (Or.inl hempty)] at hbehind
    have hskip : ∀ f, parseArg (conv.text ++ f) input (some (.str cells)) =
        some ⟨.success, skipSpaces input, some (.str cells)⟩ := fun f ↦ by
      rw [hparse, parseString, if_neg hlarge, if_pos hempty]
    rw [meets_none hskip hbehind]
    constructor
    · rintro (herror | hcurrent)
      · exact absurd rfl herror
      · exact ⟨(endsWell_none hbehind).1, Or.inr ⟨skipSpaces_eq_self.1 hcurrent, Or.inl hempty⟩⟩
    · rintro ⟨-, hlarge' | ⟨hblank, -⟩⟩
      · exact absurd hlarge' hlarge
      · exact Or.inr (skipSpaces_eq_self.2 hblank)
  by_cases hwide : cells.length < conv.limit
  · refine iff_of_false (not_meets fun f ↦ ?_) ?_
    · rw [hparse, parseString_overflow (Nat.pos_of_ne_zero hempty) hlarge hwide]
    · rintro ⟨-, hlarge' | ⟨-, hempty' | ⟨hroom, -⟩⟩⟩
      · exact hlarge hlarge'
      · exact hempty hempty'
      · omega
  obtain ⟨value, hconsumed⟩ := @parseString_consumed conv.limit input cells
    (Nat.pos_of_ne_zero hempty) (by omega) (by omega)
  rw [hconsumed] at hparse
  by_cases hblank : NoBlankFirst input
  · -- The input begins with a word.
    have hskip : skipSpaces input = input := skipSpaces_eq_self.2 hblank
    have hword : wordOf input ≠ [] := by
      obtain ⟨c, t, rfl⟩ := List.exists_cons_of_ne_nil hs
      rw [wordOf, List.takeWhile_cons_of_pos (by rw [hblank c rfl]; rfl)]
      exact List.cons_ne_nil _ _
    rw [hskip, if_neg (not_or.2 ⟨hempty, not_or.2 ⟨hlarge, hword⟩⟩)] at hbehind
    have hpos := List.length_pos_iff.2 hword
    have hle : (wordOf input).length ≤ input.length := (List.takeWhile_prefix _).length_le
    rw [meets_some hparse hbehind, endsWell_some hbehind]
    dsimp only
    by_cases hfits : conv.limit = 0 ∨ (wordOf input).length ≤ conv.limit ∨
        conv.limit + 1 < cells.length
    · have hconsumed : (if storedLength conv.limit cells.length input = cells.length - 1
          then (wordOf input).length else storedLength conv.limit cells.length input) =
          if conv.limit = 0 then (wordOf input).length
            else min conv.limit (wordOf input).length := by
        rw [storedLength, wordLimit]
        split_ifs
        all_goals omega
      rw [hconsumed, skipSpaces_eq_self]
      constructor
      · rintro ⟨-, hends, hmodifier⟩
        exact ⟨⟨hmodifier, hends⟩, Or.inr ⟨hblank, Or.inr ⟨by omega, hfits⟩⟩⟩
      · rintro ⟨⟨hmodifier, hends⟩, -⟩
        exact ⟨rfl, hends, hmodifier⟩
    · -- The word is longer than its width, and all of it is skipped.
      refine iff_of_false ?_ ?_
      · rintro ⟨-, hcurrent, -⟩
        have hconsumed : storedLength conv.limit cells.length input = cells.length - 1 := by
          rw [storedLength, wordLimit, if_neg (by omega)]
          omega
        have hlen := congrArg List.length hcurrent
        have hshort := length_skipSpaces_le (input.drop (wordOf input).length)
        rw [if_pos hconsumed, if_neg (by omega), List.length_drop] at hlen
        rw [List.length_drop] at hshort
        omega
      · rintro ⟨-, hlarge' | ⟨-, hempty' | ⟨-, hfits'⟩⟩⟩
        · exact hlarge hlarge'
        · exact hempty hempty'
        · exact hfits hfits'
  · -- The blanks in front are consumed for a word.
    have hword : wordOf input = [] := by
      obtain ⟨c, t, rfl⟩ := List.exists_cons_of_ne_nil hs
      have hc : isSpace c = true := by
        by_contra hc
        refine hblank ?_
        rintro _ ⟨⟩
        exact Bool.eq_false_iff.2 hc
      exact List.takeWhile_cons_of_neg (by rw [hc]; decide)
    have hcurrent : (if storedLength conv.limit cells.length input = cells.length - 1
        then (wordOf input).length else storedLength conv.limit cells.length input) = 0 := by
      rw [storedLength, hword]
      split_ifs
      · rfl
      · exact Nat.min_zero _
    rw [hcurrent, List.drop_zero] at hparse
    refine iff_of_false ?_ ?_
    · by_cases hnone : wordOf (skipSpaces input) = []
      · rw [if_pos (Or.inr (Or.inr hnone))] at hbehind
        rw [meets_none hparse hbehind]
        rintro (herror | hcurrent)
        · exact absurd rfl herror
        · exact hblank (skipSpaces_eq_self.1 hcurrent)
      · rw [if_neg (not_or.2 ⟨hempty, not_or.2 ⟨hlarge, hnone⟩⟩)] at hbehind
        rw [meets_some hparse hbehind]
        rintro ⟨-, hcurrent, -⟩
        have hlen := congrArg List.length hcurrent
        have hpos := List.length_pos_iff.2 hnone
        have hle : (wordOf (skipSpaces input)).length ≤ (skipSpaces input).length :=
          (List.takeWhile_prefix _).length_le
        dsimp only at hlen
        rw [List.length_drop] at hlen
        split_ifs at hlen
        all_goals omega
    · rintro ⟨-, hlarge' | ⟨hblank', -⟩⟩
      · exact hlarge hlarge'
      · exact hblank hblank'

/-- The code converts what there is and ends behind it for the inputs that are as it needs them, and for
no others. -/
theorem meets_iff_exact (hs : input ≠ []) (h0 : 0 ∉ input) (harg : conv.Takes arg) :
    conv.Meets input arg ↔ conv.Exact input arg := by
  by_cases hlimit : conv.limit < 4096 * 4
  · rw [Exact, or_iff_right (by omega), and_iff_right hlimit, Suits.eq_def]
    cases hkind : conv.kind with
    | int c =>
      rw [Takes, hkind] at harg
      dsimp only
      by_cases hsigned : c.isSigned = true
      · rw [meets_signed hlimit h0 hkind hsigned harg, or_iff_left_of_imp fun _ ↦ hsigned,
          and_iff_left hsigned]
      · rw [meets_unsigned hlimit h0 hkind (Bool.eq_false_iff.2 hsigned) harg,
          or_iff_right hsigned]
    | float =>
      rw [Takes, hkind] at harg
      exact meets_float hlimit h0 hkind harg
    | char =>
      rw [Takes, hkind] at harg
      exact meets_char hlimit hs hkind harg
    | string =>
      rw [Takes, hkind] at harg
      obtain ⟨cells, rfl⟩ := harg
      exact meets_string hlimit hs hkind rfl
  · have hwide : ∀ f, parseArg (conv.text ++ f) input (some arg) =
        if 0xffffffff < conv.limit then some ⟨.invalidFmt, input, none⟩ else none :=
      fun f ↦ conv.parseArg_wide (Nat.not_lt.1 hlimit) f input arg
    by_cases hlarge : 0xffffffff < conv.limit
    · rw [if_pos hlarge] at hwide
      have hbehind : conv.behind input arg = none := by
        rw [behind.eq_def]
        exact if_pos hlarge
      exact iff_of_true ((meets_none hwide hbehind).2 (Or.inr rfl)) (Or.inl hlarge)
    · rw [if_neg hlarge] at hwide
      refine iff_of_false (not_meets hwide) ?_
      rintro (hlarge' | ⟨hlimit', -⟩)
      · exact hlarge hlarge'
      · exact hlimit hlimit'

end Conversion

end PsqlOdbc
