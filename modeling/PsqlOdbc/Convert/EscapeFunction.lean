import PsqlOdbc.Convert.EscapeArguments
import PsqlOdbc.Statement.ScannersAgree

/-!
# Functions and their templates

The template of a function is filled with the arguments that `processParameters` has found.  The
table of the arguments has 16 entries, the first of which are written: those of the arguments and
a marked one behind them.  A number of the template is looked up in it without a check.
-/

namespace PsqlOdbc

/-! ## The purpose -/

/-- The template with the arguments put in; no result if an argument is absent. -/
def fillTemplate (args : List (List UInt8)) (all : List UInt8) : List UInt8 → Option (List UInt8)
  | [] => some []
  | c :: mapptr =>
    if c ≠ dollarQuote then (fillTemplate args all mapptr).map (c :: ·)
    else
      match mapptr with
      | [] => none
      | d :: mapptr =>
        if d = asterisk then (fillTemplate args all mapptr).map (all ++ ·)
        else
          match args[d.toNat - 0x30 - 1]? with
          | none => none
          | some arg => (fillTemplate args all mapptr).map (arg ++ ·)

/-- The first word of the first argument. -/
def firstWord (args : List (List UInt8)) : List UInt8 :=
  let word := ((args.headD []).dropWhile isSpace).takeWhile isNotSpace
  if args ≠ [] ∧ word.length < 64 then word else []

/-- The first argument of a template that is behind the `n` ones that are given. -/
def firstAbsent (n : Nat) : List UInt8 → Option Nat
  | [] => none
  | c :: mapptr =>
    if c ≠ dollarQuote then firstAbsent n mapptr
    else
      match mapptr with
      | [] => none
      | d :: mapptr =>
        if d = asterisk ∨ d.toNat - 0x30 ≤ n then firstAbsent n mapptr else some (d.toNat - 0x30)

/-- Behind a dollar sign there is an asterisk or the number of an argument. -/
def templateOk : List UInt8 → Bool
  | [] => true
  | c :: mapptr =>
    if c ≠ dollarQuote then templateOk mapptr
    else
      match mapptr with
      | [] => false
      | d :: mapptr => (d = asterisk || (isDigit d && d ≠ 0x30)) && templateOk mapptr

/-- `param_pos`. -/
def paramPosSize : Nat := 16

/-- The name of the function an entry of `mapFuncs` is for, in lower case. -/
def entryFunc (odbcName : List UInt8) : List UInt8 :=
  (if odbcName.headD 0 = 0x25 then odbcName.drop 2
    else odbcName.takeWhile (· ≠ leftParen)).map toLower

/-- How many arguments an entry asks for, if any number in particular; one with a parenthesis asks
for a first one. -/
def entryTakes (odbcName : List UInt8) (paramCount : Nat) : Bool :=
  if odbcName.headD 0 = 0x25 then (odbcName.getD 1 0).toNat = 0x30 + paramCount
  else !odbcName.contains leftParen || paramCount ≠ 0

/-- Whether the expansion gets to an argument behind the one that is marked as the first absent
one.  The short forms of these functions do that. -/
def readsBehind (func : List UInt8) (paramCount : Nat) : Prop :=
  stricmpEq func (ascii "INSERT") ∧ paramCount = 2 ∨
    (stricmpEq func (ascii "TIMESTAMPADD") ∨ stricmpEq func (ascii "TIMESTAMPDIFF")) ∧
      paramCount = 1

instance (func : List UInt8) (paramCount : Nat) : Decidable (readsBehind func paramCount) :=
  inferInstanceAs (Decidable (_ ∨ _))

section

variable {text out mapptr all : List UInt8} {paramPos : List (Int × Int)}
  {given : List (List UInt8)} {paramConsumed : Nat}

/-! ## Templates -/

theorem fillTemplate_plain {c : UInt8} (hc : c ≠ dollarQuote) :
    fillTemplate given all (c :: mapptr) = (fillTemplate given all mapptr).map (c :: ·) := by
  rw [fillTemplate.eq_def]
  exact if_pos hc

theorem fillTemplate_dollar (d : UInt8) :
    fillTemplate given all (dollarQuote :: d :: mapptr) =
      if d = asterisk then (fillTemplate given all mapptr).map (all ++ ·)
      else
        match given[d.toNat - 0x30 - 1]? with
        | none => none
        | some arg => (fillTemplate given all mapptr).map (arg ++ ·) := by
  rw [fillTemplate.eq_def]
  exact if_neg (not_not.2 rfl)

theorem firstAbsent_plain {c : UInt8} {n : Nat} (hc : c ≠ dollarQuote) :
    firstAbsent n (c :: mapptr) = firstAbsent n mapptr := by
  rw [firstAbsent.eq_def]
  exact if_pos hc

theorem firstAbsent_dollar (n : Nat) (d : UInt8) :
    firstAbsent n (dollarQuote :: d :: mapptr) =
      if d = asterisk ∨ d.toNat - 0x30 ≤ n then firstAbsent n mapptr else some (d.toNat - 0x30) := by
  rw [firstAbsent.eq_def]
  exact if_neg (not_not.2 rfl)

theorem templateOk_plain {c : UInt8} (hc : c ≠ dollarQuote) :
    templateOk (c :: mapptr) = templateOk mapptr := by
  rw [templateOk.eq_def]
  exact if_pos hc

theorem templateOk_dollar (d : UInt8) : templateOk (dollarQuote :: d :: mapptr) =
    ((d = asterisk || (isDigit d && d ≠ 0x30)) && templateOk mapptr) := by
  rw [templateOk.eq_def]
  exact if_neg (not_not.2 rfl)

/-- The expansion puts in what is meant, unless it gets to an argument that is absent. -/
theorem expandTemplate_eq (h : ParamTable text paramPos given)
    (hall : sliceData text (1, (paramConsumed : Int) - 2) = all) (hok : templateOk mapptr = true) :
    expandTemplate text paramPos paramConsumed mapptr out =
      match fillTemplate given all mapptr with
      | some bs => .text (out ++ bs)
      | none =>
        match firstAbsent given.length mapptr with
        | some k => if k ≤ paramPos.length then .notFound else .unwritten
        | none => .internal := by
  fun_induction expandTemplate text paramPos paramConsumed mapptr out with
  | case1 out => exact congrArg Expansion.text (List.append_nil out).symm
  | case2 c mapptr out hc ih =>
    rw [templateOk_plain hc] at hok
    rw [ih hok, fillTemplate_plain hc, firstAbsent_plain hc]
    cases fillTemplate given all mapptr with
    | none => rfl
    | some bs => exact congrArg Expansion.text (List.append_cons out c bs).symm
  | case3 c out hc =>
    obtain rfl := not_not.1 hc
    cases hok
  | case4 c out hc mapptr ih =>
    obtain rfl := not_not.1 hc
    rw [templateOk_dollar] at hok
    obtain ⟨-, hok⟩ := Bool.and_eq_true_iff.1 hok
    rw [ih hok, fillTemplate_dollar, firstAbsent_dollar, if_pos rfl, if_pos (Or.inl rfl), hall]
    cases fillTemplate given all mapptr with
    | none => rfl
    | some bs => exact congrArg Expansion.text (List.append_assoc out all bs)
  | case5 c out hc d mapptr hd hdigit hzero =>
    obtain rfl := not_not.1 hc
    rw [templateOk_dollar, decide_eq_false hd, Bool.false_or, hdigit, Bool.true_and,
      Bool.and_eq_true, decide_eq_true_eq] at hok
    rw [isDigit, Bool.and_eq_true, decide_eq_true_eq, UInt8.le_iff_toNat_le] at hdigit
    have hle : 0x30 ≤ d.toNat := hdigit.1
    exact absurd (UInt8.toNat_inj.1 (show d.toNat = 0x30 by omega)) hok.1
  | case6 c out hc d mapptr hd hdigit hzero hnone =>
    obtain rfl := not_not.1 hc
    have hlt := h.length
    have hlen := List.getElem?_eq_none_iff.1 hnone
    rw [fillTemplate_dollar, firstAbsent_dollar, if_neg hd,
      List.getElem?_eq_none (by omega), if_neg (not_or.2 ⟨hd, by omega⟩)]
    dsimp only
    rw [if_neg (by omega)]
  | case7 c out hc d mapptr hd hdigit hzero range hrange hneg =>
    obtain rfl := not_not.1 hc
    have habsent : given.length ≤ d.toNat - 0x30 - 1 := by
      by_contra hlt
      obtain ⟨range', hrange', hslice⟩ := h.ranges _ _ (List.getElem?_eq_getElem (Nat.not_le.1 hlt))
      obtain rfl := Option.some.inj (hrange.symm.trans hrange')
      exact absurd hslice.nonneg (Int.not_le.2 hneg)
    obtain ⟨hlen, -⟩ := List.getElem?_eq_some_iff.1 hrange
    rw [fillTemplate_dollar, firstAbsent_dollar, if_neg hd, List.getElem?_eq_none habsent,
      if_neg (not_or.2 ⟨hd, by omega⟩)]
    dsimp only
    rw [if_pos (by omega)]
  | case8 c out hc d mapptr hd hdigit hzero range hrange hneg ih =>
    obtain rfl := not_not.1 hc
    rw [templateOk_dollar] at hok
    obtain ⟨-, hok⟩ := Bool.and_eq_true_iff.1 hok
    have hgiven : d.toNat - 0x30 - 1 < given.length := by
      by_contra hle
      exact hneg (h.absent _ _ (Nat.not_lt.1 hle) hrange)
    obtain ⟨range', hrange', hslice⟩ := h.ranges _ _ (List.getElem?_eq_getElem hgiven)
    obtain rfl := Option.some.inj (hrange.symm.trans hrange')
    rw [ih hok, fillTemplate_dollar, firstAbsent_dollar, if_neg hd, List.getElem?_eq_getElem hgiven,
      if_pos (Or.inr (by omega)), hslice.slice]
    cases fillTemplate given all mapptr with
    | none => rfl
    | some bs => exact congrArg Expansion.text (List.append_assoc out _ bs)
  | case9 c out hc d mapptr hd hdigit =>
    obtain rfl := not_not.1 hc
    rw [templateOk_dollar, decide_eq_false hd, Bool.not_eq_true _ |>.mp hdigit] at hok
    cases hok

theorem fillTemplate_eq_none_iff (hok : templateOk mapptr = true) :
    fillTemplate given all mapptr = none ↔ ∃ k, firstAbsent given.length mapptr = some k := by
  fun_induction fillTemplate given all mapptr with
  | case1 => exact ⟨fun h ↦ (nomatch h), fun ⟨_, h⟩ ↦ (nomatch h)⟩
  | case2 c mapptr hc ih =>
    rw [templateOk_plain hc] at hok
    rw [firstAbsent_plain hc, Option.map_eq_none_iff]
    exact ih hok
  | case3 c hc =>
    obtain rfl := not_not.1 hc
    cases hok
  | case4 c hc mapptr ih =>
    obtain rfl := not_not.1 hc
    rw [templateOk_dollar] at hok
    rw [firstAbsent_dollar, if_pos (Or.inl rfl), Option.map_eq_none_iff]
    exact ih (Bool.and_eq_true_iff.1 hok).2
  | case5 c hc d mapptr hd hnone =>
    obtain rfl := not_not.1 hc
    rw [templateOk_dollar, decide_eq_false hd, Bool.false_or] at hok
    obtain ⟨hnum, -⟩ := Bool.and_eq_true_iff.1 hok
    obtain ⟨hdigit, hzero⟩ := Bool.and_eq_true_iff.1 hnum
    rw [isDigit, Bool.and_eq_true, decide_eq_true_eq, UInt8.le_iff_toNat_le] at hdigit
    have hle : 0x30 ≤ d.toNat := hdigit.1
    have hne : d.toNat ≠ 0x30 := fun h ↦ of_decide_eq_true hzero (UInt8.toNat_inj.1 h)
    have hlen := List.getElem?_eq_none_iff.1 hnone
    rw [firstAbsent_dollar, if_neg (not_or.2 ⟨hd, by omega⟩)]
    exact ⟨fun _ ↦ ⟨_, rfl⟩, fun _ ↦ rfl⟩
  | case6 c hc d mapptr hd arg harg ih =>
    obtain rfl := not_not.1 hc
    rw [templateOk_dollar] at hok
    obtain ⟨hlen, -⟩ := List.getElem?_eq_some_iff.1 harg
    rw [firstAbsent_dollar, if_pos (Or.inr (by omega)), Option.map_eq_none_iff]
    exact ih (Bool.and_eq_true_iff.1 hok).2

theorem firstAbsent_mono {n m : Nat} (hnm : n ≤ m) (h : firstAbsent n mapptr = none) :
    firstAbsent m mapptr = none := by
  fun_induction firstAbsent n mapptr with
  | case1 => rfl
  | case2 c mapptr hc ih =>
    rw [firstAbsent_plain hc]
    exact ih h
  | case3 c hc =>
    obtain rfl := not_not.1 hc
    rfl
  | case4 c hc d mapptr hd ih =>
    obtain rfl := not_not.1 hc
    rw [firstAbsent_dollar, if_pos (hd.imp_right fun h ↦ h.trans hnm)]
    exact ih h
  | case5 => cases h

/-! ## The number of arguments -/

theorem ParamTable.countParams (h : ParamTable text paramPos given)
    (hne : ∀ arg, given = [arg] → arg ≠ []) : PsqlOdbc.countParams paramPos = given.length := by
  have htake : (paramPos.takeWhile fun range ↦ decide (0 ≤ range.1)).length = given.length := by
    obtain ⟨range, hrange⟩ : ∃ range, paramPos[given.length]? = some range :=
      ⟨_, List.getElem?_eq_getElem h.length⟩
    have hneg := h.absent _ _ le_rfl hrange
    obtain ⟨hlt, hget⟩ := List.getElem?_eq_some_iff.1 hrange
    have hall : ∀ r ∈ paramPos.take given.length, decide (0 ≤ r.1) = true := by
      intro r hr
      obtain ⟨k, hk, hkr⟩ := List.mem_take_iff_getElem.1 hr
      have hkgiven : k < given.length := (Nat.lt_min.1 hk).1
      obtain ⟨range', hrange', hslice⟩ := h.ranges k _ (List.getElem?_eq_getElem hkgiven)
      rw [List.getElem?_eq_getElem (hkgiven.trans hlt), hkr] at hrange'
      rw [Option.some.inj hrange']
      exact decide_eq_true hslice.nonneg
    rw [← List.take_append_drop given.length paramPos, List.takeWhile_append_of_pos hall,
      List.drop_eq_getElem_cons hlt, hget,
      List.takeWhile_cons_of_neg (by simpa using hneg), List.append_nil, List.length_take]
    exact min_eq_left hlt.le
  rw [PsqlOdbc.countParams, htake]
  refine if_neg ?_
  rintro ⟨hone, hempty⟩
  obtain ⟨arg, harg⟩ := List.length_eq_one_iff.1 hone
  obtain ⟨range, hrange, hslice⟩ := h.ranges 0 arg (by rw [harg]; rfl)
  rw [List.getD_eq_getElem?_getD, hrange, Option.getD_some] at hempty
  refine hne arg harg ?_
  rw [← hslice.slice, sliceData, show (range.2 - range.1 + 1).toNat = 0 by omega, List.take_zero]

theorem ParamTable.keywordOf (h : ParamTable text paramPos given) :
    PsqlOdbc.keywordOf text paramPos given.length = firstWord given := by
  cases given with
  | nil => rfl
  | cons arg rest =>
    obtain ⟨range, hrange, hslice⟩ := h.ranges 0 arg rfl
    rw [PsqlOdbc.keywordOf, if_pos (show 0 < (arg :: rest).length from Nat.succ_pos _), firstWord,
      List.getD_eq_getElem?_getD, hrange, Option.getD_some, hslice.slice, List.headD_cons]
    simp only [ne_eq, reduceCtorEq, not_false_eq_true, true_and]

end

/-! ## The table of functions -/

section

variable {odbcName key keyword : List UInt8} {n : Nat}

theorem toLower_cases (c : UInt8) :
    toLower c = c ∧ ¬(0x41 ≤ c.toNat ∧ c.toNat ≤ 0x5a) ∨
      (toLower c).toNat = c.toNat + 0x20 ∧ 0x41 ≤ c.toNat ∧ c.toNat ≤ 0x5a := by
  have hiff : (0x41 ≤ c && c ≤ 0x5a) = true ↔ 0x41 ≤ c.toNat ∧ c.toNat ≤ 0x5a := by
    rw [Bool.and_eq_true, decide_eq_true_eq, decide_eq_true_eq]
    exact Iff.rfl
  rw [toLower]
  split
  · next h =>
    have hrange := hiff.1 h
    refine Or.inr ⟨?_, hrange⟩
    rw [UInt8.toNat_add, show (0x20 : UInt8).toNat = 0x20 from rfl]
    omega
  · next h => exact Or.inl ⟨rfl, mt hiff.2 h⟩

theorem toLower_leftParen (c : UInt8) : toLower c = leftParen ↔ c = leftParen := by
  have hparen : leftParen.toNat = 0x28 := rfl
  rw [← UInt8.toNat_inj, ← UInt8.toNat_inj]
  rcases toLower_cases c with ⟨hc, -⟩ | ⟨hc, hlo, -⟩
  · rw [hc]
  · omega

theorem toLower_toLower (c : UInt8) : toLower (toLower c) = toLower c := by
  rcases toLower_cases c with ⟨hc, -⟩ | ⟨hc, hlo, hhi⟩
  · exact congrArg toLower hc
  · rcases toLower_cases (toLower c) with ⟨hc', -⟩ | ⟨-, -, hhi'⟩
    · exact hc'
    · omega

/-- An entry is for the function its name says. -/
theorem entryFunc_of_isFor (hkey : leftParen ∉ key)
    (hrest : odbcName.drop ((odbcName.takeWhile (· ≠ leftParen)).length + 1) ≠ [] ∨
      odbcName.contains leftParen = false)
    (hword : n = 0 → keyword = []) (h : mapFuncs.isFor odbcName key n keyword = true) :
    key.map toLower = entryFunc odbcName ∧ entryTakes odbcName n = true := by
  rw [mapFuncs.isFor] at h
  rw [entryFunc, entryTakes]
  by_cases hpercent : odbcName.headD 0 = 0x25
  · rw [if_pos hpercent] at h
    rw [if_pos hpercent, if_pos hpercent]
    obtain ⟨hcount, hname⟩ := Bool.and_eq_true_iff.1 h
    exact ⟨(of_decide_eq_true hname).symm, hcount⟩
  rw [if_neg hpercent] at h
  rw [if_neg hpercent, if_neg hpercent, Bool.or_eq_true, Bool.not_eq_true']
  by_cases hname : stricmpEq odbcName key = true
  · have hmap : odbcName.map toLower = key.map toLower := of_decide_eq_true hname
    have hno : leftParen ∉ odbcName := by
      intro hmem
      have hlower : leftParen ∈ odbcName.map toLower :=
        List.mem_map.2 ⟨_, hmem, (toLower_leftParen _).2 rfl⟩
      rw [hmap] at hlower
      obtain ⟨c, hc, hparen⟩ := List.mem_map.1 hlower
      exact hkey ((toLower_leftParen c).1 hparen ▸ hc)
    have hall : odbcName.takeWhile (· ≠ leftParen) = odbcName :=
      List.takeWhile_eq_self_iff.2 fun c hc ↦ decide_eq_true fun hparen ↦ hno (hparen ▸ hc)
    rw [hall, hmap]
    refine ⟨rfl, Or.inl (Bool.eq_false_iff.2 fun hmem ↦ ?_)⟩
    exact hno (List.contains_iff_mem.1 hmem)
  rw [if_neg hname] at h
  simp only [Bool.and_eq_true, decide_eq_true_eq] at h
  obtain ⟨⟨-, hname⟩, hkeyword⟩ := h
  refine ⟨(of_decide_eq_true hname).symm, ?_⟩
  rcases hrest with hrest | hno
  · refine Or.inr (decide_eq_true fun hn ↦ hrest ?_)
    have hmap := of_decide_eq_true hkeyword
    rw [hword hn, List.map_nil] at hmap
    exact List.map_eq_nil_iff.1 hmap
  · exact Or.inl hno

/-- The entries: their templates have numbers up to 4, and the ones that get behind the marked
entry of the table are the short forms. -/
def entryOk (odbcName template : List UInt8) : Bool :=
  templateOk template && firstAbsent 4 template = none &&
    (odbcName.drop ((odbcName.takeWhile (· ≠ leftParen)).length + 1) ≠ [] ||
      !odbcName.contains leftParen) &&
    entryFunc odbcName ≠ ascii "convert" &&
    (List.range 4).all fun n ↦ !entryTakes odbcName n ||
      (firstAbsent n template).any (n + 1 < ·) = readsBehind (entryFunc odbcName) n

theorem mapFuncs_entryOk :
    (mapFuncs.all fun entry ↦ entryOk (ascii entry.1) (ascii entry.2)) = true := by
  simp only [mapFuncs, List.all_cons, ascii, String.toList_append]
  repeat rw [String.toList_ofList]
  decide +kernel

theorem readsBehind_congr {func : List UInt8} (h : func.map toLower = key.map toLower) :
    readsBehind func n ↔ readsBehind key n := by
  have hname : ∀ s, stricmpEq func s = stricmpEq key s := by
    intro s
    rw [stricmpEq, stricmpEq, h]
  rw [readsBehind, readsBehind, hname, hname, hname]

/-- What is known of the template of a function. -/
theorem mapFunction_template {template : List UInt8} (hkey : leftParen ∉ key)
    (hword : n = 0 → keyword = []) (hmap : mapFunction key n keyword = some template) :
    templateOk template = true ∧ stricmpEq key (ascii "convert") = false ∧
      ((∃ k, firstAbsent n template = some k ∧ n + 1 < k) ↔ readsBehind key n) := by
  obtain ⟨entry, hfind, rfl⟩ := Option.map_eq_some_iff.1 hmap
  have hentry := List.all_eq_true.1 mapFuncs_entryOk entry (List.mem_of_find?_eq_some hfind)
  simp only [entryOk, Bool.and_eq_true, Bool.or_eq_true, decide_eq_true_eq, List.all_eq_true,
    Bool.not_eq_true'] at hentry
  obtain ⟨⟨⟨⟨hok, hfour⟩, hrest⟩, hconvert⟩, hbehind⟩ := hentry
  have hfor := List.find?_some hfind
  obtain ⟨hfunc, htakes⟩ := entryFunc_of_isFor hkey hrest hword hfor
  refine ⟨hok, decide_eq_false fun h ↦ hconvert ?_, ?_⟩
  · rw [← hfunc, h]
    decide
  have hlower : (entryFunc (ascii entry.1)).map toLower = key.map toLower := by
    rw [← hfunc, List.map_map]
    exact List.map_congr_left fun c _ ↦ toLower_toLower c
  have hany : (∃ k, firstAbsent n (ascii entry.2) = some k ∧ n + 1 < k) ↔
      (firstAbsent n (ascii entry.2)).any (n + 1 < ·) = true := by
    rw [Option.any_eq_true]
    exact exists_congr fun k ↦ and_congr_right fun _ ↦ decide_eq_true_iff.symm
  rw [hany]
  by_cases hn : n < 4
  · rcases hbehind n (List.mem_range.2 hn) with hno | heq
    · exact absurd htakes (Bool.eq_false_iff.1 hno)
    · rw [heq]
      exact readsBehind_congr hlower
  · rw [firstAbsent_mono (Nat.not_lt.1 hn) hfour]
    refine ⟨fun h ↦ (nomatch h), ?_⟩
    rintro (⟨-, h⟩ | ⟨-, h⟩)
    · omega
    · omega

end

/-! ## The function at the cursor -/

section

variable {hooks : TokenHooks} {qp : QueryParse} {qb : TokenBuild} {template : List UInt8}

/-- The name of the function. -/
def fnKey (qp : QueryParse) : List UInt8 :=
  (qp.oldPtr.takeWhile fun c ↦ c ≠ leftParen && isNotSpace c).take 64

/-- The cursor behind the name. -/
def fnOpen (qp : QueryParse) : QueryParse :=
  (qp.skipWhile fun c ↦ c ≠ leftParen && isNotSpace c).skipWhile isSpace

theorem fnBuild_size : 0 < 1024 := by decide

/-- The build the arguments are rewritten in. -/
def fnBuild (qb : TokenBuild) : TokenBuild := qb.initializeCopy 1024 fnBuild_size

/-- The table is large enough for the arguments, only entries of it are read that have been
written, and the function becomes its template with the arguments put in, or an error if one of
these is absent. -/
def MapsArguments (hooks : TokenHooks) (qp : QueryParse) (qb : TokenBuild)
    (a : FnArguments hooks (fnOpen qp) (fnBuild qb)) (template : List UInt8) : Prop :=
  ∃ paramPos paramConsumed,
    processParameters hooks (fnOpen qp) (fnBuild qb) =
        some (a.qpLast, a.qbLast, paramPos, paramConsumed) ∧
      paramPos.length ≤ paramPosSize ∧
      convertFunction (fnKey qp) a.qbLast.queryStatement paramPos paramConsumed =
        (match fillTemplate a.given a.all template with
          | some bs => .text bs
          | none => .notFound) ∧
      convertFn hooks qp qb = (fillTemplate a.given a.all template).map fun bs ↦
        (a.qpLast, (qb.takeBack a.qbLast).appendData bs)

theorem leftParen_not_mem_fnKey : leftParen ∉ fnKey qp := by
  intro hmem
  have h := List.mem_takeWhile_imp (List.mem_of_mem_take hmem)
  rw [Bool.and_eq_true, decide_eq_true_eq] at h
  exact h.1 rfl

namespace FnArguments

variable (a : FnArguments hooks (fnOpen qp) (fnBuild qb))

theorem given_ne_empty : ∀ arg, a.given = [arg] → arg ≠ [] := by
  intro arg hgiven hempty
  rw [given] at hgiven
  split at hgiven
  · cases hgiven
  · next h =>
    refine h ⟨by rw [hgiven]; rfl, ?_⟩
    rw [hgiven, List.headD_cons, hempty]
    rfl

/-- There are fewer arguments than commas only if there is none. -/
theorem given_eq : a.given = a.args ∨ a.given = [] ∧ a.args.length = 1 := by
  rw [given]
  split
  · next h => exact Or.inr ⟨rfl, h.1⟩
  · exact Or.inl rfl

theorem firstWord_given (h : a.given.length = 0) : firstWord a.given = [] := by
  rw [List.length_eq_zero_iff.1 h]
  rfl

/-- What becomes of the function, for the table that is made. -/
theorem convertFn_eq {paramPos : List (Int × Int)} {paramConsumed : Nat}
    (h : processParameters hooks (fnOpen qp) (fnBuild qb) =
      some (a.qpLast, a.qbLast, paramPos, paramConsumed)) :
    convertFn hooks qp qb =
      match convertFunction (fnKey qp) a.qbLast.queryStatement paramPos paramConsumed with
      | .text bs => some (a.qpLast, (qb.takeBack a.qbLast).appendData bs)
      | _ => none := by
  have hopened : ¬(fnOpen qp).oldChar ≠ leftParen := not_not.2 a.opened
  rw [convertFn]
  dsimp only
  rw [← fnOpen, if_neg hopened, ← fnBuild, h]
  rfl

end FnArguments

/-- The arguments are put into the template, if there is room for them in the table and the
function is not given in a short form that gets behind the marked entry. -/
theorem convertFn_maps_iff (a : FnArguments hooks (fnOpen qp) (fnBuild qb))
    (hmap : mapFunction (fnKey qp) a.given.length (firstWord a.given) = some template) :
    MapsArguments hooks qp qb a template ↔
      a.args.length < paramPosSize ∧ ¬readsBehind (fnKey qp) a.given.length := by
  obtain ⟨paramPos, paramConsumed, hprocess, hlength, htable, hall⟩ := a.processParameters_eq
  obtain ⟨hok, hconvert, hbehind⟩ :=
    mapFunction_template leftParen_not_mem_fnKey a.firstWord_given hmap
  have hcount := htable.countParams a.given_ne_empty
  have hexpand : convertFunction (fnKey qp) a.qbLast.queryStatement paramPos paramConsumed =
      match fillTemplate a.given a.all template with
      | some bs => .text bs
      | none =>
        match firstAbsent a.given.length template with
        | some k => if k ≤ paramPos.length then .notFound else .unwritten
        | none => .internal := by
    rw [convertFunction, hcount, htable.keywordOf, if_neg (Bool.eq_false_iff.1 hconvert), hmap]
    exact expandTemplate_eq htable hall hok
  -- Without arguments there is one more marked entry, but no entry of the table gets behind it.
  have hmarked : (∃ k, firstAbsent a.given.length template = some k ∧ paramPos.length < k) ↔
      readsBehind (fnKey qp) a.given.length := by
    rw [← hbehind]
    rcases a.given_eq with hgiven | ⟨hgiven, hone⟩
    · rw [hlength, ← hgiven]
    · rw [hlength, hone]
      rw [hgiven] at hbehind ⊢
      have hnone : ¬∃ k, firstAbsent ([] : List (List UInt8)).length template = some k ∧
          ([] : List (List UInt8)).length + 1 < k := by
        rw [hbehind]
        rintro (⟨-, h⟩ | ⟨-, h⟩)
        · cases h
        · cases h
      refine iff_of_false ?_ hnone
      rintro ⟨k, hk, hlt⟩
      exact hnone ⟨k, hk, by rw [List.length_nil]; omega⟩
  constructor
  · rintro ⟨paramPos', paramConsumed', hprocess', hsize, hfunction, -⟩
    obtain ⟨-, -, rfl, rfl⟩ : a.qpLast = a.qpLast ∧ a.qbLast = a.qbLast ∧ paramPos = paramPos' ∧
        paramConsumed = paramConsumed' := by
      simpa using hprocess.symm.trans hprocess'
    refine ⟨by omega, fun hreads ↦ ?_⟩
    obtain ⟨k, hk, hlt⟩ := hmarked.2 hreads
    rw [hexpand, (fillTemplate_eq_none_iff hok).2 ⟨k, hk⟩, hk] at hfunction
    dsimp only at hfunction
    rw [if_neg (Nat.not_le.2 hlt)] at hfunction
    cases hfunction
  · rintro ⟨hroom, hreads⟩
    have hfunction : convertFunction (fnKey qp) a.qbLast.queryStatement paramPos paramConsumed =
        match fillTemplate a.given a.all template with
        | some bs => .text bs
        | none => .notFound := by
      rw [hexpand]
      cases hfill : fillTemplate a.given a.all template with
      | some bs => rfl
      | none =>
        obtain ⟨k, hk⟩ := (fillTemplate_eq_none_iff hok).1 hfill
        rw [hk]
        exact if_pos (Nat.not_lt.1 fun hlt ↦ hreads (hmarked.1 ⟨k, hk, hlt⟩))
    refine ⟨paramPos, paramConsumed, hprocess, by omega, hfunction, ?_⟩
    rw [a.convertFn_eq hprocess, hfunction]
    cases fillTemplate a.given a.all template with
    | some bs => rfl
    | none => rfl

end

/-! ## Inputs -/

/-- A call that only puts text behind. -/
def readCall (hooks : TokenHooks) (qp : QueryParse) (qb : TokenBuild) :
    Option (ArgCall × QueryParse × TokenBuild) :=
  (innerProcessTokens hooks qp qb).bind fun (qp', qb') ↦
    let text := qb'.queryStatement.drop qb.queryStatement.length
    if qp.opos < qp.statement.length ∧ qp'.statement = qp.statement ∧ qp.opos ≤ qp'.opos ∧
        qb'.queryStatement = qb.queryStatement ++ text then
      some ((seenChar qp qp', text), qp'.next, qb')
    else none

/-- The calls of a number of rounds. -/
def readCalls (hooks : TokenHooks) :
    Nat → QueryParse → TokenBuild → Option (List ArgCall × QueryParse × TokenBuild)
  | 0, qp, qb => some ([], qp, qb)
  | rounds + 1, qp, qb =>
    (readCall hooks qp qb).bind fun (call, qp, qb) ↦
      (readCalls hooks rounds qp qb).map fun (calls, r) ↦ (call :: calls, r)

theorem appends_of_readCalls {hooks : TokenHooks} {rounds : Nat} {qp : QueryParse} {qb : TokenBuild}
    {calls : List ArgCall} {r : QueryParse × TokenBuild}
    (h : readCalls hooks rounds qp qb = some (calls, r)) : Appends hooks qp qb calls r.1 r.2 := by
  induction rounds generalizing qp qb calls with
  | zero =>
    rw [readCalls] at h
    obtain ⟨rfl, rfl⟩ := Prod.mk.inj (Option.some.inj h)
    exact .done qp qb
  | succ rounds ih =>
    rw [readCalls] at h
    obtain ⟨⟨call, qp1, qb1⟩, hcall, hrest⟩ := Option.bind_eq_some_iff.1 h
    obtain ⟨⟨calls', r'⟩, hcalls, heq⟩ := Option.map_eq_some_iff.1 hrest
    obtain ⟨rfl, rfl⟩ := Prod.mk.inj heq
    rw [readCall] at hcall
    obtain ⟨⟨qp', qb'⟩, hinner, hok⟩ := Option.bind_eq_some_iff.1 hcall
    dsimp only at hok
    split at hok
    · next hcond =>
      obtain ⟨hlt, hsame, hle, htext⟩ := hcond
      obtain ⟨rfl, hnext⟩ := Prod.mk.inj (Option.some.inj hok)
      obtain ⟨rfl, rfl⟩ := Prod.mk.inj hnext
      exact .call _ hlt hinner hsame hle htext (ih hcalls)
    · cases hok

/-- The function a text begins with. -/
def atFn (text : String) : QueryParse := qpInitialize utf8Connection (ascii text) 0 .select

/-- What it is rewritten with. -/
def fnHooks : TokenHooks := ⟨fun _ _ ↦ none, fun _ _ ↦ ascii "NULL", fun _ _ ↦ none⟩

/-- What the arguments are at the end of the calls. -/
def concatCalls : List ArgCall × QueryParse × TokenBuild :=
  (readCalls fnHooks 6 (fnOpen (atFn "CONCAT(a, b)\x7d")) (fnBuild twoParameters)).get
    (by decide +kernel)

theorem readCalls_concat :
    readCalls fnHooks 6 (fnOpen (atFn "CONCAT(a, b)\x7d")) (fnBuild twoParameters) =
      some ((some leftParen, [leftParen]) ::
        ([(none, ascii "a"), (some comma, [comma]), (some 0x20, ascii " "), (none, ascii "b")] ++
          (some rightParen, [rightParen]) :: []), concatCalls.2) := by
  have hcalls : concatCalls.1 = (some leftParen, [leftParen]) ::
      ([(none, ascii "a"), (some comma, [comma]), (some 0x20, ascii " "), (none, ascii "b")] ++
        (some rightParen, [rightParen]) :: []) := by decide +kernel
  have hget : readCalls fnHooks 6 (fnOpen (atFn "CONCAT(a, b)\x7d")) (fnBuild twoParameters) =
      some concatCalls := by rw [concatCalls, Option.some_get]
  rw [hget, ← hcalls]

/-- The call at the brace. -/
def concatLast : QueryParse × TokenBuild :=
  (innerProcessTokens fnHooks concatCalls.2.1 concatCalls.2.2).get (by decide +kernel)

/-- Two arguments. -/
def concatArguments : FnArguments fnHooks (fnOpen (atFn "CONCAT(a, b)\x7d"))
    (fnBuild twoParameters) where
  body := [(none, ascii "a"), (some comma, [comma]), (some 0x20, ascii " "), (none, ascii "b")]
  tail := []
  args := [ascii "a", ascii " b"]
  qpEnd := concatCalls.2.1
  qbEnd := concatCalls.2.2
  qpLast := concatLast.1
  qbLast := concatLast.2
  lastText := concatLast.2.queryStatement.drop concatCalls.2.2.queryStatement.length
  opened := by decide +kernel
  empty := rfl
  appends := appends_of_readCalls readCalls_concat
  lt := by decide +kernel
  last := by rw [concatLast, Option.some_get]
  last_seen := by decide +kernel
  last_text := by decide +kernel
  split := by decide
  copied := by decide
  tail_plain := by decide

theorem convertFn_maps_concat :
    MapsArguments fnHooks (atFn "CONCAT(a, b)\x7d") twoParameters concatArguments
      (ascii "concat($1::text, $2::text)") :=
  (convertFn_maps_iff concatArguments (by decide +kernel)).2 ⟨by decide, by decide +kernel⟩

/-- A short form gets to an entry that has not been written, and there is no room for a sixteenth
argument. -/
theorem convertFn_not_maps :
    (processParameters fnHooks (fnOpen (atFn "TIMESTAMPADD(SQL_TSI_YEAR)\x7d"))
        (fnBuild twoParameters)).map (fun (_, qb, paramPos, paramConsumed) ↦
          convertFunction (ascii "TIMESTAMPADD") qb.queryStatement paramPos paramConsumed) =
      some .unwritten ∧
    (processParameters fnHooks (fnOpen (atFn "CHAR(1,1,1,1,1,1,1,1,1,1,1,1,1,1,1,1)\x7d"))
        (fnBuild twoParameters)).map (fun r ↦ r.2.2.1.length) = some (paramPosSize + 1) ∧
    (convertFn fnHooks (atFn "CONCAT(@@identity, b)\x7d") (fnBuild twoParameters)).map
        (fun r ↦ r.2.queryStatement) = some (ascii "concat(NUL::text,  b::text)") := by
  decide +kernel

end PsqlOdbc
