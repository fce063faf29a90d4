import PsqlOdbc.Catalog.ProcedureColumns

/-!
# What the columns of procedures say

The three arrays are read element by element, each of them up to the next separator.  So the types
and the modes are always right, and the names where they need no escapes.  `answers_right_iff` tells
the functions of which all rows are as expected.
-/

namespace PsqlOdbc

open Lib

/-! ## Arrays -/

variable {sep : UInt8} {e text element : List UInt8} {elements : List (List UInt8)}

/-- A pointer stands at an element, or at the separator before it.  Nothing is said of the end. -/
def AtElements (sep : UInt8) (e : List UInt8) : List (List UInt8) → List UInt8 → Prop
  | [], _ => True
  | element :: elements, text =>
    text = element ++ behindElement sep e elements ∨
      text = sep :: (element ++ behindElement sep e elements)

theorem atElements_behind : AtElements sep e elements (behindElement sep e elements) := by
  cases elements with
  | nil => trivial
  | cons element elements => exact .inr (by simp [behindElement])

theorem atElements_tail : AtElements sep e elements (behindElement sep e elements).tail := by
  cases elements with
  | nil => trivial
  | cons element elements => exact .inl (by simp [behindElement])

/-- The first character of an element is not skipped, and does not end the array. -/
def Starts (c : UInt8) : Prop := isSpace c = false ∧ c ≠ 44 ∧ c ≠ 125

theorem skipToElement_start {c : UInt8} (hc : Starts c) :
    skipToElement (c :: text) = some (c :: text) := by
  have hskip : skipSeparators (c :: text) = c :: text :=
    List.dropWhile_cons_of_neg (by simp [hc.1, hc.2.1])
  rw [skipToElement, hskip]
  exact if_neg hc.2.2

theorem skipToElement_separator {c : UInt8} (hsep : isSpace sep = true ∨ sep = 44) (hc : Starts c) :
    skipToElement (sep :: c :: text) = some (c :: text) := by
  have hskip : skipSeparators (sep :: c :: text) = skipSeparators (c :: text) :=
    List.dropWhile_cons_of_pos (by simpa using hsep)
  rw [skipToElement, hskip]
  exact skipToElement_start hc

theorem skipToElement_atElements (hsep : isSpace sep = true ∨ sep = 44)
    (hstart : ∃ c rest, element = c :: rest ∧ Starts c)
    (h : AtElements sep e (element :: elements) text) :
    skipToElement text = some (element ++ behindElement sep e elements) := by
  obtain ⟨c, rest, rfl, hc⟩ := hstart
  rcases h with rfl | rfl
  · exact skipToElement_start hc
  · exact skipToElement_separator hsep hc

/-! ## Types -/

theorem parseArg_unsigned {digits rest : List UInt8} (hne : digits ≠ [])
    (hdigits : ∀ c ∈ digits, isDecimal c = true) (hrest : rest.head?.any isDecimal = false)
    (hlt : decimalValue digits < 2 ^ 32) :
    parseArg [0x75] (digits ++ rest) (some (.num .uint)) =
      some ⟨.success, skipSpaces rest, some (.num (decimalValue digits))⟩ := by
  have hfmt : strtol 10 [0x75] = (0, [0x75]) := by
    refine strtol_none ?_
    intro c hc
    rw [← Option.some_inj.1 hc]
    decide
  have hread : strtoul 10 (digits ++ rest) = (decimalValue digits, rest) := by
    have hscan : strtolScan 10 (digits ++ rest) = some (false, decimalValue digits, rest) :=
      strtolScan_decimal false hdigits hne hrest
    rw [strtoul_of_scan hscan, if_neg (by omega), if_neg Bool.false_ne_true]
  have hplain : parseArg [0x75] (digits ++ rest) (some (.num .uint)) =
      some (parseUnsigned 10 .default 0 (digits ++ rest) (digits ++ rest) (.num .uint)) := by
    rw [parseArg, hfmt]
    rfl
  have hshort : ¬((0 : ℕ) = 0 ∧ rest.length = (digits ++ rest).length) := by
    have hpos := List.length_pos_of_ne_nil hne
    rw [List.length_append]
    omega
  rw [hplain, parseUnsigned, if_neg fun h ↦ h rfl, hread]
  dsimp only
  rw [if_neg hshort, if_neg fun h ↦ h.1 rfl, show CheckType.default.bits = 32 from rfl,
    Nat.mod_eq_of_lt hlt]
  rfl

theorem readOid_decimals {n : ℕ} (hn : n < 2 ^ 32) {rest : List UInt8}
    (hrest : rest.head?.any isDecimal = false) : readOid (decimals 1 n ++ rest) = n := by
  have hne := decimals_ne_nil Nat.one_pos n
  have hparse := parseArg_unsigned hne (isDecimal_decimals 1 n) hrest
    (by rw [decimalValue_decimals]; exact hn)
  have hshort := length_skipSpaces_le rest
  have hpos := List.length_pos_of_ne_nil hne
  rw [decimalValue_decimals] at hparse
  have hscan : secureSscanf (decimals 1 n ++ rest) (ascii "%u") [.num .uint] =
      some ⟨.success, 1, [.num n]⟩ := by
    refine (sscanfLoop_conversion (List.append_ne_nil_of_left_ne_nil hne rest) (by decide) hparse
      ?_).trans ?_
    · rw [List.length_append]
      omega
    · exact sscanfLoop.eq_def [] _ _ _ _
  rw [readOid, hscan]
  rfl

/-- What stands behind an element does not begin with a digit. -/
theorem behind_head? {p : UInt8 → Bool} (hsep : p sep = false) (he : e.head?.any p = false) :
    (behindElement sep e elements).head?.any p = false := by
  cases elements with
  | nil => exact he
  | cons element elements => exact hsep

theorem readType_at {type : ℕ} {types : List ℕ} (htype : type < 2 ^ 32)
    (hsep : isSpace sep = true ∨ sep = 44) (he : e.head?.any isDecimal = false)
    (h : AtElements sep e ((type :: types).map (decimals 1)) text) :
    ∃ rest, readType (some text) = (type, some rest) ∧
      AtElements sep e (types.map (decimals 1)) rest := by
  have hnot : isDecimal sep = false := by
    rcases hsep with hspace | rfl
    · by_contra hdigit
      rw [isSpace_of_isDecimal (Bool.eq_true_of_not_eq_false hdigit)] at hspace
      exact Bool.false_ne_true hspace
    · decide
  have hdigits := isDecimal_decimals 1 type
  have hstart : ∃ c rest, decimals 1 type = c :: rest ∧ Starts c := by
    obtain ⟨c, rest, hcons⟩ := List.exists_cons_of_ne_nil (decimals_ne_nil Nat.one_pos type)
    have hc := hdigits c (hcons ▸ List.mem_cons_self)
    refine ⟨c, rest, hcons, isSpace_of_isDecimal hc, ?_, ?_⟩
    · rintro rfl
      exact absurd hc (by decide)
    · rintro rfl
      exact absurd hc (by decide)
  have hbehind : (behindElement sep e (types.map (decimals 1))).head?.any isDecimal = false :=
    behind_head? hnot he
  refine ⟨behindElement sep e (types.map (decimals 1)), ?_, atElements_behind⟩
  have hdrop :
      (decimals 1 type ++ behindElement sep e (types.map (decimals 1))).dropWhile isDecimal =
      behindElement sep e (types.map (decimals 1)) := by
    rw [List.dropWhile_append_of_pos hdigits]
    generalize behindElement sep e (types.map (decimals 1)) = rest at hbehind
    cases rest with
    | nil => rfl
    | cons c rest => exact List.dropWhile_cons_of_neg (by simpa using hbehind)
  rw [List.map_cons] at h
  rw [readType, Option.bind_some, skipToElement_atElements hsep hstart h]
  dsimp only
  rw [readOid_decimals htype hbehind, hdrop]

/-! ## Modes -/

theorem columnTypeOf_letter (bRetset : Bool) (mode : ArgMode) (rest : List UInt8) :
    columnTypeOf bRetset (some (mode.letter :: rest)) = mode.columnType bRetset := by
  cases mode <;> rfl

theorem skipToElement_mode {mode : ArgMode} {modes : List ArgMode}
    (h : AtElements 44 e ((mode :: modes).map fun mode ↦ [mode.letter]) text) :
    skipToElement text =
      some (mode.letter :: behindElement 44 e (modes.map fun mode ↦ [mode.letter])) := by
  refine skipToElement_atElements (.inr rfl) ⟨mode.letter, [], rfl, ?_⟩ h
  cases mode <;> exact ⟨by decide, by decide, by decide⟩

/-! ## Names -/

/-- The name is printed as it is. -/
def PlainName (name : List UInt8) : Prop := 34 ∉ name ∧ 92 ∉ name

theorem escapeElement_plain {name : List UInt8} (h : PlainName name) :
    escapeElement name = name := by
  induction name with
  | nil => rfl
  | cons c name ih =>
    have hc : ¬(c = 34 ∨ c = 92) := by
      rintro (rfl | rfl)
      · exact h.1 List.mem_cons_self
      · exact h.2 List.mem_cons_self
    have hname := ih ⟨fun hmem ↦ h.1 (List.mem_cons_of_mem c hmem),
      fun hmem ↦ h.2 (List.mem_cons_of_mem c hmem)⟩
    rw [escapeElement, List.flatMap_cons, if_neg hc]
    exact congrArg (c :: ·) hname

/-- Only what has no backslashes and quotes is not changed. -/
theorem plainName_of_escapeElement {name : List UInt8} (h : escapeElement name = name) :
    PlainName name := by
  have hlength (name : List UInt8) : (escapeElement name).length =
      name.length + name.countP fun c ↦ c = 34 ∨ c = 92 := by
    induction name with
    | nil => rfl
    | cons c name ih =>
      rw [escapeElement, List.flatMap_cons, List.length_append, ← escapeElement, ih,
        List.length_cons, List.countP_cons]
      by_cases hc : c = 34 ∨ c = 92
      · simp [hc]; omega
      · simp [hc]; omega
  have hcount : name.countP (fun c ↦ c = 34 ∨ c = 92) = 0 := by
    have hname := hlength name
    rw [h] at hname
    omega
  rw [List.countP_eq_zero] at hcount
  exact ⟨fun hmem ↦ hcount 34 hmem (by decide), fun hmem ↦ hcount 92 hmem (by decide)⟩

theorem notMem_escapeElement {name : List UInt8} (h : 34 ∉ name) : 34 ∉ escapeElement name := by
  intro hmem
  obtain ⟨c, hc, hmem⟩ := List.mem_flatMap.1 hmem
  have hne : (34 : UInt8) ≠ c := by
    rintro rfl
    exact h hc
  split at hmem
  · simp [hne] at hmem
  · simp [hne] at hmem

/-- Up to the first quote. -/
theorem takeWhile_quote {name rest : List UInt8} (h : 34 ∉ name) :
    (name ++ 34 :: rest).takeWhile (· != 34) = name ∧
      (name ++ 34 :: rest).dropWhile (· != 34) = 34 :: rest := by
  have hname : ∀ c ∈ name, (c != 34) = true := by
    intro c hc
    rw [bne_iff_ne]
    rintro rfl
    exact h hc
  constructor
  · rw [List.takeWhile_append_of_pos hname, List.takeWhile_cons_of_neg (by decide), List.append_nil]
  · rw [List.dropWhile_append_of_pos hname, List.dropWhile_cons_of_neg (by decide)]

/-- A quoted name is read up to the first quote, escaped or not. -/
theorem readName_quoted {name rest : List UInt8}
    (h : skipToElement text = some (34 :: (escapeElement name ++ 34 :: rest))) :
    ∃ reported later, readName (some text) = (some reported, some later) ∧
      (reported = name ↔ PlainName name) ∧ (PlainName name → later = rest) := by
  obtain ⟨reported, later, heq, hreported⟩ := List.eq_append_cons_of_mem
    (show (34 : UInt8) ∈ escapeElement name ++ 34 :: rest by simp)
  obtain ⟨htake, hdrop⟩ := @takeWhile_quote reported later hreported
  have hplain (h34 : 34 ∉ name) : reported = escapeElement name ∧ later = rest := by
    have hfirst := @takeWhile_quote (escapeElement name) rest (notMem_escapeElement h34)
    rw [heq, htake, hdrop] at hfirst
    exact ⟨hfirst.1, List.tail_eq_of_cons_eq hfirst.2⟩
  refine ⟨reported, later, ?_, ⟨?_, ?_⟩, fun hname ↦ (hplain hname.1).2⟩
  · rw [readName, Option.bind_some, h, heq]
    simp only [List.head?_cons, if_true, List.tail_cons, hdrop, htake]
  · rintro rfl
    have hescaped := (hplain hreported).1
    exact plainName_of_escapeElement hescaped.symm
  · intro hname
    rw [(hplain hname.1).1, escapeElement_plain hname]

theorem readName_at {name : List UInt8} {names : List (List UInt8)} (hnul : 0 ∉ name)
    (h : AtElements 44 [125] ((name :: names).map elementText) text) :
    ∃ reported later, readName (some text) = (some reported, some later) ∧
      (reported = name ↔ PlainName name) ∧
        (PlainName name → AtElements 44 [125] (names.map elementText) later) := by
  rw [List.map_cons] at h
  cases hquote : needsQuote name with
  | true =>
    have htext : elementText name = 34 :: (escapeElement name ++ [34]) := if_pos hquote
    have hskip := skipToElement_atElements (.inr rfl)
      ⟨34, _, htext, by decide, by decide, by decide⟩ h
    rw [htext, List.cons_append, List.append_assoc] at hskip
    obtain ⟨reported, later, hread, hname, hlater⟩ := readName_quoted hskip
    exact ⟨reported, later, hread, hname, fun hplain ↦ hlater hplain ▸ atElements_behind⟩
  | false =>
    obtain ⟨hne, hchars⟩ := notMem_of_not_needsQuote hquote
    have htext : elementText name = name := if_neg (by simp [hquote])
    have hplain : PlainName name := ⟨fun hmem ↦ (hchars 34 hmem).2.1 rfl,
      fun hmem ↦ (hchars 92 hmem).2.2.1 rfl⟩
    obtain ⟨c, rest, rfl⟩ := List.exists_cons_of_ne_nil hne
    obtain ⟨hspace, hc34, -, hc125, hc44⟩ := hchars c List.mem_cons_self
    have hskip := skipToElement_atElements (.inr rfl)
      ⟨c, rest, htext, hspace, hc44, hc125⟩ h
    have hin : ∀ c' ∈ c :: rest, (isNotSpace c' && c' != 44 && c' != 125) = true := by
      intro c' hmem
      obtain ⟨hspace', -, -, hbrace, hcomma⟩ := hchars c' hmem
      have hne0 : c' ≠ 0 := by
        rintro rfl
        exact hnul hmem
      simp [isNotSpace, hspace', hbrace, hcomma, hne0]
    have hbehind : ∃ d later, behindElement 44 [125] (names.map elementText) = d :: later ∧
        (isNotSpace d && d != 44 && d != 125) = false := by
      cases names with
      | nil => exact ⟨125, [], rfl, by decide⟩
      | cons next names => exact ⟨44, _, rfl, by decide⟩
    obtain ⟨d, later, hcons, hd⟩ := hbehind
    refine ⟨c :: rest, later, ?_, ⟨fun _ ↦ hplain, fun _ ↦ rfl⟩, fun _ ↦ ?_⟩
    · have hhead :
          (elementText (c :: rest) ++ behindElement 44 [125] (names.map elementText)).head? ≠
            some 34 := by
        rw [htext]
        exact fun hsome ↦ hc34 (Option.some_inj.1 hsome)
      rw [readName, Option.bind_some, hskip]
      simp only [if_neg hhead]
      rw [htext, hcons, List.dropWhile_append_of_pos hin, List.takeWhile_append_of_pos hin,
        List.dropWhile_cons_of_neg (by simp [hd]), List.takeWhile_cons_of_neg (by simp [hd]),
        List.append_nil]
    · have htail : later = (behindElement 44 [125] (names.map elementText)).tail :=
        (congrArg List.tail hcons).symm
      rw [htail]
      exact atElements_tail

/-! ## The loop over the parameters -/

variable {param : ProcParam} {params : List ProcParam} {ptr : Option (List UInt8)}

/-- The pointer into the types, which are separated by commas or by spaces. -/
def TypesAt (params : List ProcParam) (ptr : Option (List UInt8)) : Prop :=
  params = [] ∨ ∃ sep e text, ptr = some text ∧ (isSpace sep = true ∨ sep = 44) ∧
    e.head?.any isDecimal = false ∧
      AtElements sep e (params.map fun param ↦ decimals 1 param.type) text

/-- The pointer into the modes. -/
def ModesAt (params : List ProcParam) (ptr : Option (List UInt8)) : Prop :=
  (ptr = none ∧ ∀ param ∈ params, param.mode = .input) ∨
    ∃ text, ptr = some text ∧ AtElements 44 [125] (params.map fun param ↦ [param.mode.letter]) text

/-- The pointer into the names. -/
def NamesAt (params : List ProcParam) (ptr : Option (List UInt8)) : Prop :=
  (ptr = none ∧ ∀ param ∈ params, param.name = []) ∨
    ∃ text, ptr = some text ∧
      AtElements 44 [125] (params.map fun param ↦ elementText param.name) text

theorem TypesAt.step (h : TypesAt (param :: params) ptr) :
    ∃ later, readType ptr = (param.type, later) ∧ TypesAt params later := by
  obtain ⟨sep, e, text, rfl, hsep, he, hat⟩ := h.resolve_left (List.cons_ne_nil _ _)
  have hmap (params : List ProcParam) : (params.map fun param ↦ decimals 1 param.type) =
      (params.map ProcParam.type).map (decimals 1) := by
    rw [List.map_map]
    rfl
  rw [hmap] at hat
  obtain ⟨rest, hread, hrest⟩ := readType_at param.type_lt hsep he hat
  exact ⟨some rest, hread, .inr ⟨sep, e, rest, rfl, hsep, he, hmap params ▸ hrest⟩⟩

theorem ModesAt.step (h : ModesAt (param :: params) ptr) (bRetset : Bool) :
    columnTypeOf bRetset (ptr.bind skipToElement) = param.mode.columnType bRetset ∧
      ModesAt params ((ptr.bind skipToElement).map List.tail) := by
  rcases h with ⟨rfl, hinput⟩ | ⟨text, rfl, hat⟩
  · rw [hinput param List.mem_cons_self]
    exact ⟨rfl, .inl ⟨rfl, fun param hmem ↦ hinput param (List.mem_cons_of_mem _ hmem)⟩⟩
  · have hmap (params : List ProcParam) : (params.map fun param ↦ [param.mode.letter]) =
        (params.map ProcParam.mode).map fun mode ↦ [mode.letter] := by
      rw [List.map_map]
      rfl
    rw [hmap] at hat
    rw [Option.bind_some, skipToElement_mode hat]
    exact ⟨columnTypeOf_letter _ _ _, .inr ⟨_, rfl, hmap params ▸ atElements_behind⟩⟩

theorem NamesAt.step (h : NamesAt (param :: params) ptr) :
    ∃ reported later, readName ptr = (reported, later) ∧
      (reported.getD [] = param.name ↔ PlainName param.name) ∧
        (PlainName param.name → NamesAt params later) := by
  rcases h with ⟨rfl, hempty⟩ | ⟨text, rfl, hat⟩
  · have hname := hempty param List.mem_cons_self
    refine ⟨none, none, rfl, ?_, fun _ ↦ .inl ⟨rfl, fun param hmem ↦ ?_⟩⟩
    · rw [hname]
      exact iff_of_true rfl ⟨List.not_mem_nil, List.not_mem_nil⟩
    · exact hempty param (List.mem_cons_of_mem _ hmem)
  · have hmap (params : List ProcParam) : (params.map fun param ↦ elementText param.name) =
        (params.map ProcParam.name).map elementText := by
      rw [List.map_map]
      rfl
    rw [hmap] at hat
    obtain ⟨reported, later, hread, hname, hlater⟩ := readName_at param.name_nul hat
    exact ⟨some reported, some later, hread, hname,
      fun hplain ↦ .inr ⟨later, rfl, hmap params ▸ hlater hplain⟩⟩

variable {conn : ProcConn} {row : ProcQueryRow} {bRetset : Bool} {modes names : Option (List UInt8)}

/-- The rows of the parameters are right exactly if all names are plain. -/
theorem paramsLoop_eq_iff {j pgtype : ℕ} (htypes : TypesAt params ptr)
    (hmodes : ModesAt params modes) (hnames : NamesAt params names) :
    (conn.paramsLoop row bRetset params.length j pgtype ptr modes names).1 =
        params.mapIdx (fun i param ↦ conn.tuple row (some param.name)
          (param.mode.columnType bRetset) param.type (j + i + 1)) ↔
      ∀ param ∈ params, PlainName param.name := by
  induction params generalizing j pgtype ptr modes names with
  | nil => exact iff_of_true rfl fun param hmem ↦ absurd hmem List.not_mem_nil
  | cons param params ih =>
    obtain ⟨later, htype, htypes⟩ := htypes.step
    obtain ⟨hmode, hmodes⟩ := hmodes.step bRetset
    obtain ⟨reported, behindName, hread, hname, hnames⟩ := hnames.step
    rw [List.length_cons, ProcConn.paramsLoop, htype, hread, hmode, List.mapIdx_cons,
      List.forall_mem_cons, List.cons.injEq]
    have hnext (i : ℕ) : j + (i + 1) + 1 = j + 1 + i + 1 := by omega
    simp only [hnext]
    have hhead : conn.tuple row (some (reported.getD [])) (param.mode.columnType bRetset) param.type
          (j + 1) =
        conn.tuple row (some param.name) (param.mode.columnType bRetset) param.type (j + 0 + 1) ↔
          PlainName param.name := by
      rw [← hname]
      constructor
      · intro h
        exact Option.some_inj.1 (congrArg ProcTuple.columnName h)
      · intro h
        rw [h]
    rw [hhead]
    exact and_congr_right fun hplain ↦ ih htypes hmodes (hnames hplain)

/-- The type that stands in `pgtype` behind the loop is that of the last parameter. -/
theorem paramsLoop_snd {j pgtype : ℕ} (htypes : TypesAt params ptr) :
    (conn.paramsLoop row bRetset params.length j pgtype ptr modes names).2 =
      (params.getLast?.map ProcParam.type).getD pgtype := by
  induction params generalizing j pgtype ptr modes names with
  | nil => rfl
  | cons param params ih =>
    obtain ⟨later, htype, htypes⟩ := htypes.step
    rw [List.length_cons, ProcConn.paramsLoop, htype]
    refine (ih htypes).trans ?_
    cases params with
    | nil => rfl
    | cons next params =>
      rw [List.getLast?_cons_cons, List.getLast?_eq_some_getLast (List.cons_ne_nil _ _)]
      rfl

/-! ## Where a function begins -/

theorem atElements_array : AtElements 44 [125] elements (arrayText elements).tail := by
  cases elements with
  | nil => trivial
  | cons element elements => exact .inl (by rw [arrayText_cons]; rfl)

/-- The separators and braces of an array are not counted among the letters that are looked for. -/
theorem arrayText_any {f : UInt8 → Bool} (hf : f 123 = false ∧ f 44 = false ∧ f 125 = false)
    (letters : List UInt8) : (arrayText (letters.map fun c ↦ [c])).any f = letters.any f := by
  cases letters with
  | nil => simp [arrayText, hf]
  | cons c letters =>
    rw [List.map_cons, arrayText_cons]
    simp [behindElement, hf, List.any_flatMap, Function.comp_def]

theorem count_commas {letters : List UInt8} (hne : letters ≠ []) (hletters : 44 ∉ letters) :
    (arrayText (letters.map fun c ↦ [c])).count 44 + 1 = letters.length := by
  have hbehind (letters : List UInt8) (hletters : 44 ∉ letters) :
      (behindElement 44 [125] (letters.map fun c ↦ [c])).count 44 = letters.length := by
    induction letters with
    | nil => rfl
    | cons c letters ih =>
      have hcons : behindElement 44 [125] ((c :: letters).map fun c ↦ [c]) =
          44 :: c :: behindElement 44 [125] (letters.map fun c ↦ [c]) := rfl
      have hne : c ≠ 44 := by
        rintro rfl
        exact hletters List.mem_cons_self
      rw [hcons, List.count_cons_self, List.count_cons_of_ne hne,
        ih fun hmem ↦ hletters (List.mem_cons_of_mem c hmem), List.length_cons]
  obtain ⟨c, letters, rfl⟩ := List.exists_cons_of_ne_nil hne
  have hne : c ≠ 44 := by
    rintro rfl
    exact hletters List.mem_cons_self
  rw [List.map_cons, arrayText_cons, List.count_cons_of_ne (by decide), List.singleton_append,
    List.count_cons_of_ne hne, hbehind letters fun hmem ↦ hletters (List.mem_cons_of_mem c hmem),
    List.length_cons]

namespace Procedure

variable {p : Procedure} {att : Option (List UInt8 × ℕ)}

theorem hasOutparam_queryRow : hasOutparam (p.queryRow att).proargmodes = p.hasOut := by
  have hisOut (mode : ArgMode) : mode.isOut = (decide (mode.letter = 111) ||
      decide (mode.letter = 98) || decide (mode.letter = 116)) := by
    cases mode <;> decide
  cases hinput : p.allInput with
  | true =>
    have hmodes : (p.queryRow att).proargmodes = none := if_pos hinput
    rw [hmodes, hasOutparam, hasOut]
    refine Eq.symm (List.any_eq_false.2 fun param hmem ↦ ?_)
    have hmode := List.all_eq_true.1 hinput param hmem
    rw [beq_iff_eq] at hmode
    rw [hmode]
    decide
  | false =>
    have hmodes : (p.queryRow att).proargmodes =
        some (arrayText ((p.params.map fun param ↦ param.mode.letter).map fun c ↦ [c])) := by
      rw [List.map_map]
      exact if_neg (by simp [hinput])
    rw [hmodes, hasOutparam, Option.any_some, arrayText_any (by decide), List.any_map, hasOut]
    refine congrArg (List.any p.params) (funext fun param ↦ ?_)
    exact (hisOut param.mode).symm

theorem not_allInput_ne_nil (hinput : p.allInput = false) : p.params ≠ [] := by
  intro hparams
  rw [allInput, hparams] at hinput
  exact Bool.false_ne_true hinput.symm

/-- All parameters are listed in `proargtypes` where there are no modes. -/
theorem filter_of_allInput (hinput : p.allInput = true) :
    (p.params.filter fun param ↦ param.mode ≠ .output ∧ param.mode ≠ .table) = p.params := by
  refine List.filter_eq_self.2 fun param hmem ↦ ?_
  have hmode := List.all_eq_true.1 hinput param hmem
  rw [beq_iff_eq] at hmode
  rw [hmode]
  decide

/-- The row for the return value. -/
theorem returnTuples_eq (conn : ProcConn) (hatt : att = none ↔ p.attributes = []) :
    conn.returnTuples (p.queryRow att) p.retset = p.expectedReturn conn := by
  have htypid : (p.queryRow att).atttypid = none ↔ p.attributes = [] := by
    rw [← hatt]
    exact Option.map_eq_none_iff
  rw [ProcConn.returnTuples, expectedReturn, hasOutparam_queryRow]
  refine if_congr ?_ rfl rfl
  constructor
  · rintro ⟨-, hvoid, hset, hatts, hout⟩
    exact ⟨hout, hset, htypid.1 hatts, hvoid⟩
  · rintro ⟨hout, hset, hatts, hvoid⟩
    exact ⟨p.rettype_pos.ne', hvoid, hset, htypid.2 hatts, hout⟩

theorem behindBrace_array : behindBrace (arrayText elements) = (arrayText elements).tail :=
  if_pos rfl

/-- The parameters are counted, and the pointer stands at the type of the first one. -/
theorem paramcountAndParams_eq :
    (paramcountAndParams (p.queryRow att)).1 = p.params.length ∧
      TypesAt p.params ((paramcountAndParams (p.queryRow att)).2.map behindBrace) := by
  cases hinput : p.allInput with
  | true =>
    have hmodes : (p.queryRow att).proargmodes = none := if_pos hinput
    have hcount : (p.queryRow att).pronargs = p.params.length :=
      congrArg List.length (filter_of_allInput hinput)
    have htypes : (p.queryRow att).proargtypes =
        some ([32].intercalate (p.params.map fun param ↦ decimals 1 param.type)) :=
      congrArg (fun params : List ProcParam ↦
        some ([32].intercalate (params.map fun param : ProcParam ↦ decimals 1 param.type)))
        (filter_of_allInput hinput)
    rw [paramcountAndParams, hmodes, hcount, htypes]
    refine ⟨rfl, ?_⟩
    cases p.params with
    | nil => exact .inl rfl
    | cons param params =>
      have htext := @intercalate_append 32 [] (params.map fun param ↦ decimals 1 param.type)
        (decimals 1 param.type)
      rw [List.append_nil,
        ← List.map_cons (f := fun param : ProcParam ↦ decimals 1 param.type)] at htext
      have hdigit : (([32].intercalate ((param :: params).map
          fun param ↦ decimals 1 param.type)).head?) ≠ some 123 := by
        rw [htext]
        obtain ⟨c, rest, hcons⟩ := List.exists_cons_of_ne_nil
          (decimals_ne_nil Nat.one_pos param.type)
        have hc := isDecimal_decimals 1 param.type c (hcons ▸ List.mem_cons_self)
        rw [hcons]
        rintro ⟨⟩
        exact absurd hc (by decide)
      exact .inr ⟨32, [], _, congrArg some (if_neg hdigit), .inl rfl, rfl, .inl htext⟩
  | false =>
    have hne := not_allInput_ne_nil hinput
    have hmodes : (p.queryRow att).proargmodes =
        some (arrayText ((p.params.map fun param ↦ param.mode.letter).map fun c ↦ [c])) := by
      rw [List.map_map]
      exact if_neg (by simp [hinput])
    have htypes : (p.queryRow att).proallargtypes =
        some (arrayText (p.params.map fun param ↦ decimals 1 param.type)) :=
      if_neg (by simp [hinput])
    have hletters : 44 ∉ p.params.map fun param ↦ param.mode.letter := by
      intro hmem
      obtain ⟨param, -, hletter⟩ := List.mem_map.1 hmem
      revert hletter
      cases param.mode <;> decide
    have hcount := count_commas (by simpa using hne) hletters
    rw [List.length_map] at hcount
    have hlength : p.params.length ≠ 0 := List.length_eq_zero_iff.not.2 hne
    rw [paramcountAndParams, hmodes, htypes]
    simp only [hcount, if_neg hlength, reduceCtorEq, and_false, if_false]
    refine ⟨trivial, .inr ⟨44, [125], _, congrArg some behindBrace_array, .inr rfl, rfl, ?_⟩⟩
    exact atElements_array

/-- Where a function begins the pointers stand at its first parameter. -/
theorem functionTuples_eq (conn : ProcConn) (hatt : att = none ↔ p.attributes = []) :
    ∃ ptr modes names, TypesAt p.params ptr ∧ ModesAt p.params modes ∧ NamesAt p.params names ∧
      conn.functionTuples (p.queryRow att) p.retset =
        (p.expectedReturn conn ++ (conn.paramsLoop (p.queryRow att) p.retset p.params.length 0
            p.rettype ptr modes names).1,
          (conn.paramsLoop (p.queryRow att) p.retset p.params.length 0 p.rettype ptr modes
            names).2) := by
  obtain ⟨hcount, htypes⟩ := @paramcountAndParams_eq p att
  refine ⟨_, (p.queryRow att).proargmodes.map behindBrace,
    (p.queryRow att).proargnames.map behindBrace, htypes, ?_, ?_, ?_⟩
  · cases hinput : p.allInput with
    | true =>
      have hmodes : (p.queryRow att).proargmodes = none := if_pos hinput
      rw [hmodes]
      refine .inl ⟨rfl, fun param hmem ↦ ?_⟩
      exact beq_iff_eq.1 (List.all_eq_true.1 hinput param hmem)
    | false =>
      have hmodes : (p.queryRow att).proargmodes =
          some (arrayText (p.params.map fun param ↦ [param.mode.letter])) :=
        if_neg (by simp [hinput])
      rw [hmodes]
      exact .inr ⟨_, congrArg some behindBrace_array, atElements_array⟩
  · cases hempty : p.params.all (·.name == []) with
    | true =>
      have hnames : (p.queryRow att).proargnames = none := if_pos hempty
      rw [hnames]
      refine .inl ⟨rfl, fun param hmem ↦ ?_⟩
      exact beq_iff_eq.1 (List.all_eq_true.1 hempty param hmem)
    | false =>
      have hnames : (p.queryRow att).proargnames =
          some (arrayText (p.params.map fun param ↦ elementText param.name)) :=
        if_neg (by rw [hempty]; exact Bool.false_ne_true)
      rw [hnames]
      exact .inr ⟨_, congrArg some behindBrace_array, atElements_array⟩
  · rw [ProcConn.functionTuples, returnTuples_eq conn hatt, hcount]
    rfl

/-! ## The rows of a function -/

variable (p) (conn : ProcConn)

/-- The row for an attribute. -/
def attributeTuple (att : List UInt8 × ℕ) : ProcTuple :=
  conn.tuple (p.queryRow none) (some att.1) (if p.retset then .resultCol else .paramOutput) att.2 0

/-- What is returned for a function. -/
def answer : List ProcTuple :=
  let function := conn.functionTuples (p.queryRow p.attributes.head?) p.retset
  function.1 ++ (conn.resultTuples (p.queryRow p.attributes.head?) p.retset p.hasOut function.2 ++
    p.attributes.tail.map (p.attributeTuple conn))

variable {p conn}

theorem proretset_queryRow :
    (p.queryRow att).proretset.any (fun text ↦ text.head? = some 116 || text.head? = some 121) =
      p.retset := by
  have hflag (retset : Bool) : (some (if retset then ascii "t" else ascii "f")).any
      (fun text ↦ text.head? = some 116 || text.head? = some 121) = retset := by
    cases retset <;> decide
  exact hflag p.retset

/-- An attribute has its row, unless outputs are known of. -/
theorem resultTuples_attribute (att : List UInt8 × ℕ) (pgtype : ℕ) :
    conn.resultTuples (p.queryRow (some att)) p.retset false pgtype = [p.attributeTuple conn att] :=
  if_pos ⟨rfl, .inl (Option.some_ne_none att.2)⟩

/-- The rows behind the first one. -/
theorem procLoop_attributes (atts : List (List UInt8 × ℕ)) (rows : List ProcQueryRow) :
    conn.procLoop p.oid (atts.map (fun att ↦ p.queryRow (some att)) ++ rows) =
      atts.map (p.attributeTuple conn) ++ conn.procLoop p.oid rows := by
  induction atts with
  | nil => rfl
  | cons att atts ih =>
    have hsame : ¬(p.oid = 0 ∨ (p.queryRow (some att)).oid ≠ p.oid) := by
      have hpos := p.oid_pos
      rintro (hzero | hne)
      · omega
      · exact hne rfl
    rw [List.map_cons, List.cons_append, ProcConn.procLoop, if_neg hsame, proretset_queryRow,
      resultTuples_attribute, ih]
    rfl

theorem procLoop_queryRows {poid : ℕ} (hpoid : poid = 0 ∨ p.oid ≠ poid) (rows : List ProcQueryRow) :
    conn.procLoop poid (p.queryRows ++ rows) = p.answer conn ++ conn.procLoop p.oid rows := by
  have hfirst (rows : List ProcQueryRow) :
      conn.procLoop poid (p.queryRow p.attributes.head? :: rows) =
        (conn.functionTuples (p.queryRow p.attributes.head?) p.retset).1 ++
          (conn.resultTuples (p.queryRow p.attributes.head?) p.retset p.hasOut
            (conn.functionTuples (p.queryRow p.attributes.head?) p.retset).2 ++
              conn.procLoop p.oid rows) := by
    have hnew : poid = 0 ∨ (p.queryRow p.attributes.head?).oid ≠ poid := hpoid
    rw [ProcConn.procLoop, if_pos hnew, proretset_queryRow, hasOutparam_queryRow]
    rfl
  have hrows : p.queryRows = p.queryRow p.attributes.head? ::
      p.attributes.tail.map fun att ↦ p.queryRow (some att) := by
    rw [queryRows]
    cases p.attributes <;> rfl
  rw [hrows, List.cons_append, hfirst, procLoop_attributes, answer]
  simp only [List.append_assoc]

theorem pgapiProcedureColumns_queryRows :
    conn.pgapiProcedureColumns p.queryRows = p.answer conn := by
  have h := @procLoop_queryRows p conn 0 (.inl rfl) []
  rw [List.append_nil] at h
  exact h.trans (List.append_nil _)

theorem length_paramsLoop {row : ProcQueryRow} {bRetset : Bool}
    {ptr modes names : Option (List UInt8)} (count j pgtype : ℕ) :
    (conn.paramsLoop row bRetset count j pgtype ptr modes names).1.length = count := by
  induction count generalizing j pgtype ptr modes names with
  | zero => rfl
  | succ count ih => rw [ProcConn.paramsLoop, List.length_cons, ih]

/-- The columns of the result are right exactly if outputs do not come with two attributes, and the
type of a set is not that of another parameter. -/
theorem results_eq_iff {pgtype : ℕ} :
    conn.resultTuples (p.queryRow p.attributes.head?) p.retset p.hasOut pgtype ++
        p.attributes.tail.map (p.attributeTuple conn) = p.expectedResults conn ↔
      (p.hasOut = true → p.attributes.length ≤ 1) ∧
        (p.hasOut = false → p.retset = true → p.attributes = [] →
          conn.tuple (p.queryRow none) none .resultCol pgtype 0 =
            conn.tuple (p.queryRow none) none .resultCol p.rettype 0) := by
  cases hout : p.hasOut with
  | true =>
    have hnone : conn.resultTuples (p.queryRow p.attributes.head?) p.retset true pgtype = [] :=
      if_neg fun h ↦ Bool.noConfusion h.1
    have hexpected : p.expectedResults conn = [] := if_pos hout
    rw [hnone, hexpected, List.nil_append, List.map_eq_nil_iff, ← List.length_eq_zero_iff,
      List.length_tail, Nat.sub_eq_zero_iff_le]
    exact ⟨fun hle ↦ ⟨fun _ ↦ hle, fun h ↦ Bool.noConfusion h⟩, fun h ↦ h.1 rfl⟩
  | false =>
    cases hatts : p.attributes with
    | cons att atts =>
      have hexpected : p.expectedResults conn = (att :: atts).map (p.attributeTuple conn) := by
        have hne : p.attributes ≠ [] := hatts ▸ List.cons_ne_nil att atts
        rw [expectedResults, if_neg (by simp [hout]), if_pos hne, hatts]
        rfl
      rw [hexpected, List.head?_cons, resultTuples_attribute]
      exact iff_of_true rfl
        ⟨fun h ↦ Bool.noConfusion h, fun _ _ h ↦ absurd h (List.cons_ne_nil _ _)⟩
    | nil =>
      cases hset : p.retset with
      | false =>
        have hexpected : p.expectedResults conn = [] := by
          simp [expectedResults, hout, hatts, hset]
        have hnone : conn.resultTuples (p.queryRow none) false false pgtype = [] := by
          simp [ProcConn.resultTuples, queryRow]
        rw [hexpected, List.head?_nil, hnone]
        exact iff_of_true rfl ⟨fun h ↦ Bool.noConfusion h, fun _ h ↦ Bool.noConfusion h⟩
      | true =>
        have hexpected : p.expectedResults conn =
            [conn.tuple (p.queryRow none) none .resultCol p.rettype 0] := by
          simp [expectedResults, hout, hatts, hset]
        have hresult : conn.resultTuples (p.queryRow none) true false pgtype =
            [conn.tuple (p.queryRow none) none .resultCol pgtype 0] := by
          simp [ProcConn.resultTuples, queryRow]
        rw [hexpected, List.head?_nil, hresult]
        simp

theorem answer_eq_expected_iff (p : Procedure) (conn : ProcConn) :
    p.answer conn = p.expected conn ↔ p.Meets conn := by
  have hatt : p.attributes.head? = none ↔ p.attributes = [] := List.head?_eq_none_iff
  obtain ⟨ptr, modes, names, htypes, hmodes, hnames, hfunction⟩ := functionTuples_eq conn hatt
  have hparams := @paramsLoop_eq_iff p.params ptr conn (p.queryRow p.attributes.head?) p.retset
    modes names 0 p.rettype htypes hmodes hnames
  have hlast := @paramsLoop_snd p.params ptr conn (p.queryRow p.attributes.head?) p.retset modes
    names 0 p.rettype htypes
  have hexpected : p.params.mapIdx (fun i param ↦ conn.tuple (p.queryRow p.attributes.head?)
      (some param.name) (param.mode.columnType p.retset) param.type (0 + i + 1)) =
        p.expectedParams conn := by
    simp only [Nat.zero_add]
    rfl
  rw [hexpected] at hparams
  have hlength : (conn.paramsLoop (p.queryRow p.attributes.head?) p.retset p.params.length 0
      p.rettype ptr modes names).1.length = (p.expectedParams conn).length := by
    rw [length_paramsLoop, expectedParams, List.length_mapIdx]
  -- `pgtype` is the type of the last parameter, if there is one
  have htype : (conn.tuple (p.queryRow none) none .resultCol
      ((p.params.getLast?.map ProcParam.type).getD p.rettype) 0 =
        conn.tuple (p.queryRow none) none .resultCol p.rettype 0) ↔
      ∀ param ∈ p.params.getLast?, conn.tuple (p.queryRow none) none .resultCol param.type 0 =
        conn.tuple (p.queryRow none) none .resultCol p.rettype 0 := by
    cases p.params.getLast? with
    | none => exact iff_of_true rfl nofun
    | some last => simp
  rw [answer, hfunction, expected, List.append_assoc, List.append_cancel_left_eq]
  constructor
  · intro h
    obtain ⟨hrows, hresults⟩ := List.append_inj h hlength
    obtain ⟨hattributes, hset⟩ := results_eq_iff.1 hresults
    rw [hlast] at hset
    exact ⟨hparams.1 hrows, hattributes, fun hout hretset hatts ↦ htype.1 (hset hout hretset hatts)⟩
  · rintro ⟨hplain, hattributes, hset⟩
    have hresults := results_eq_iff.2
      ⟨hattributes, fun hout hretset hatts ↦ htype.2 (hset hout hretset hatts)⟩
    rw [hparams.2 hplain, hlast, hresults]

/-- There are never fewer rows than there should be. -/
theorem length_expected_le (p : Procedure) (conn : ProcConn) :
    (p.expected conn).length ≤ (p.answer conn).length := by
  have hatt : p.attributes.head? = none ↔ p.attributes = [] := List.head?_eq_none_iff
  obtain ⟨ptr, modes, names, -, -, -, hfunction⟩ := functionTuples_eq conn hatt
  rw [answer, hfunction, expected]
  simp only [List.length_append, length_paramsLoop, expectedParams, List.length_mapIdx,
    List.length_map, List.length_tail]
  cases hout : p.hasOut with
  | true => simp [expectedResults, hout]
  | false =>
    cases hatts : p.attributes with
    | nil =>
      cases hset : p.retset with
      | false => simp [expectedResults, hout, hatts, hset]
      | true => simp [expectedResults, ProcConn.resultTuples, hout, hatts, hset, queryRow]; omega
    | cons att atts =>
      rw [List.head?_cons, resultTuples_attribute]
      simp [expectedResults, hout, hatts]
      omega

end Procedure

/-! ## The rows of all functions -/

variable {procs : List Procedure}

theorem procLoop_procs (hoids : (procs.map Procedure.oid).Nodup) {poid : ℕ}
    (hpoid : poid = 0 ∨ poid ∉ procs.map Procedure.oid) :
    conn.procLoop poid (procs.flatMap Procedure.queryRows) =
      procs.flatMap fun p ↦ p.answer conn := by
  induction procs generalizing poid with
  | nil => rfl
  | cons p procs ih =>
    rw [List.map_cons, List.nodup_cons] at hoids
    have hnew : poid = 0 ∨ p.oid ≠ poid := by
      refine hpoid.imp_right fun hmem hsame ↦ hmem ?_
      rw [List.map_cons, hsame]
      exact List.mem_cons_self
    rw [List.flatMap_cons, List.flatMap_cons, Procedure.procLoop_queryRows hnew,
      ih hoids.2 (.inr hoids.1)]

/-- The rows are as expected exactly if each of the functions meets the conditions. -/
theorem procedureColumns_right_iff (conn : ProcConn) (procs : List Procedure)
    (hoids : (procs.map Procedure.oid).Nodup) :
    conn.pgapiProcedureColumns (procs.flatMap Procedure.queryRows) =
        procs.flatMap (fun p ↦ p.expected conn) ↔
      ∀ p ∈ procs, p.Meets conn := by
  rw [ProcConn.pgapiProcedureColumns, procLoop_procs hoids (.inl rfl)]
  clear hoids
  have hle (procs : List Procedure) : (procs.flatMap fun p ↦ p.expected conn).length ≤
      (procs.flatMap fun p ↦ p.answer conn).length := by
    induction procs with
    | nil => exact le_rfl
    | cons p procs ih =>
      rw [List.flatMap_cons, List.flatMap_cons, List.length_append, List.length_append]
      exact Nat.add_le_add (p.length_expected_le conn) ih
  induction procs with
  | nil => exact iff_of_true rfl nofun
  | cons p procs ih =>
    rw [List.flatMap_cons, List.flatMap_cons, List.forall_mem_cons]
    refine Iff.trans ?_ (and_congr (p.answer_eq_expected_iff conn) ih)
    constructor
    · intro h
      have hlength := congrArg List.length h
      rw [List.length_append, List.length_append] at hlength
      have hhead := p.length_expected_le conn
      have htail := hle procs
      exact List.append_inj h (by omega)
    · rintro ⟨hhead, htail⟩
      rw [hhead, htail]

/-! ## A set of numbers -/

/-- A connection that reports types by their OIDs. -/
def plainProcConn : ProcConn where
  currCat := ascii "db"
  typeFacts type := ⟨type, [], 0, 0, 0, 0, type, 0, 0⟩

/-- `f(a text) returns setof int4`. -/
def setOfNumbers : Procedure where
  nspname := ascii "public"
  proname := ascii "f"
  oid := 16384
  retset := true
  rettype := 23
  attributes := []
  params := [⟨ascii "a", .input, 25, by decide, by decide⟩]
  oid_pos := by decide
  rettype_pos := by decide

theorem procedureColumns_right_iff_setOfNumbers :
    plainProcConn.pgapiProcedureColumns ([setOfNumbers].flatMap Procedure.queryRows) =
        [setOfNumbers].flatMap (fun p ↦ p.expected plainProcConn) ↔
      ∀ p ∈ [setOfNumbers], p.Meets plainProcConn :=
  procedureColumns_right_iff plainProcConn [setOfNumbers] (by decide)

/-- The column of the result is reported as a text. -/
theorem setOfNumbers_not_right :
    plainProcConn.pgapiProcedureColumns setOfNumbers.queryRows ≠
      setOfNumbers.expected plainProcConn := by
  rw [Procedure.pgapiProcedureColumns_queryRows]
  intro h
  have hmeets := (setOfNumbers.answer_eq_expected_iff plainProcConn).1 h
  have htype := congrArg ProcTuple.dataType
    (hmeets.lastType (by decide) rfl rfl ⟨ascii "a", .input, 25, by decide, by decide⟩ rfl)
  exact absurd htype (by decide)

end PsqlOdbc
