import Mathlib.Logic.Relation
import PsqlOdbc.SscanfConversions

/-!
# Whole formats (`secure_sscanf.c`)

A scan as `sscanf` makes it, directive by directive, and the loop of `secure_sscanf`.  As long as
each conversion that is reached is given an input that suits the code, the loop is where the scan is,
and returns how many conversions have succeeded.
-/

namespace PsqlOdbc

open Lib

/-! ## Formats -/

/-- What a format is made of. -/
inductive Directive
  | literal (c : UInt8) (plain : c ≠ 0x25 ∧ isSpace c = false)
  | blank (c : UInt8) (space : isSpace c = true)
  | conversion (conv : Conversion)

def Directive.text : Directive → List UInt8
  | literal c _ => [c]
  | blank c _ => [c]
  | conversion conv => 0x25 :: conv.text

/-- The text of a format. -/
def formatText (directives : List Directive) : List UInt8 := directives.flatMap Directive.text

/-- The conversions of a format are given the arguments that they ask for. -/
def TakesArgs : List Directive → List SscanfArg → Prop
  | [], _ => True
  | .literal _ _ :: directives, args => TakesArgs directives args
  | .blank _ _ :: directives, args => TakesArgs directives args
  | .conversion _ :: _, [] => False
  | .conversion conv :: directives, arg :: args => conv.Takes arg ∧ TakesArgs directives args

/-! ## Scans -/

/-- Where a scan is: what is left of the format, the input and the arguments, and how many conversions
have succeeded. -/
structure ScanPlace where
  directives : List Directive
  input : List UInt8
  args : List SscanfArg
  count : Nat

namespace ScanPlace

/-- Behind the next directive; none where the scan stops. -/
def next (p : ScanPlace) : Option ScanPlace :=
  match p.directives with
  | [] => none
  | .literal c _ :: directives =>
    if p.input.head? = some c then some ⟨directives, p.input.tail, p.args, p.count⟩ else none
  | .blank _ _ :: directives => some ⟨directives, skipSpaces p.input, p.args, p.count⟩
  | .conversion conv :: directives =>
    match p.args with
    | [] => none
    | arg :: args =>
      (conv.behind p.input arg).map fun rest ↦ ⟨directives, rest, args, p.count + 1⟩

/-- The scan gets from one place to another. -/
def Reaches : ScanPlace → ScanPlace → Prop := Relation.ReflTransGen fun p q ↦ p.next = some q

/-- A conversion that is next is given what the code needs. -/
def Exact (p : ScanPlace) : Prop :=
  match p.directives, p.args with
  | .conversion conv :: _, arg :: _ => p.input ≠ [] → conv.Exact p.input arg
  | _, _ => True

/-- The loop of `secure_sscanf`, from a place on. -/
def loop (p : ScanPlace) (values : List SscanfValue) : Option SscanfResult :=
  sscanfLoop (formatText p.directives) p.input p.args p.count values

end ScanPlace

/-- The code is where the scan is, and returns how many conversions have succeeded when the scan
stops. -/
def CountsConversions (directives : List Directive) (input : List UInt8) (args : List SscanfArg) :
    Prop :=
  (∀ p, ScanPlace.Reaches ⟨directives, input, args, 0⟩ p → ∃ values,
    secureSscanf input (formatText directives) args = p.loop values) ∧
  ∃ p status values, ScanPlace.Reaches ⟨directives, input, args, 0⟩ p ∧ p.next = none ∧
    secureSscanf input (formatText directives) args = some ⟨status, p.count, values⟩

/-! ## Conversions in a format -/

namespace Conversion

variable {conv : Conversion} {input rest : List UInt8} {arg : SscanfArg}

/-- No second `%` follows that of a conversion. -/
theorem head?_text (f : List UInt8) : (conv.text ++ f).head? ≠ some 0x25 := by
  rw [text_append]
  cases hwidth : conv.width with
  | cons c width =>
    intro h
    have hdigit := conv.digits c (by rw [hwidth]; exact List.mem_cons_self)
    rw [show c = 0x25 from Option.some.inj h] at hdigit
    cases hdigit
  | nil =>
    have hletter : conv.kind.letter ≠ 0x25 := by
      cases conv.kind with
      | int c => cases c <;> decide
      | float => decide
      | char => decide
      | string => decide
    rw [List.nil_append]
    cases conv.modifier with
    | default => exact fun h ↦ hletter (Option.some.inj h)
    | hh => exact fun h ↦ absurd (Option.some.inj h) (by decide)
    | h => exact fun h ↦ absurd (Option.some.inj h) (by decide)
    | l => exact fun h ↦ absurd (Option.some.inj h) (by decide)
    | ll => exact fun h ↦ absurd (Option.some.inj h) (by decide)
    | i64 => exact fun h ↦ absurd (Option.some.inj h) (by decide)

/-- An item is not empty. -/
theorem behind_suffix (h : conv.behind input arg = some rest) :
    ∃ item, item ≠ [] ∧ input = item ++ rest := by
  rw [behind.eq_def] at h
  dsimp only at h
  by_cases hlarge : 0xffffffff < conv.limit
  · rw [if_pos hlarge] at h
    cases h
  rw [if_neg hlarge] at h
  cases hkind : conv.kind with
  | int c =>
    rw [hkind] at h
    dsimp only at h
    split_ifs at h
    obtain ⟨⟨neg, n, q⟩, hscan, hrest⟩ := Option.map_eq_some_iff.1 h
    obtain ⟨pre, last, rest', -, hinput, -, hdrop⟩ := int_split (base_le c input) hscan
    rw [← hrest, hdrop]
    exact ⟨pre ++ [last], List.append_ne_nil_of_right_ne_nil _ (List.cons_ne_nil _ _), hinput⟩
  | float =>
    rw [hkind] at h
    obtain ⟨⟨x, q⟩, hscan, hrest⟩ := Option.bind_eq_some_iff.1 h
    obtain ⟨hread, hlt⟩ := strtofScan_read hscan
    obtain ⟨pre, last, rest', -, hinput, -, hdrop⟩ :=
      number_split (fun c hc ↦ Bool.not_eq_true' (Lib.isBlank c) ▸ hc) hread hlt
    split_ifs at hrest
    rw [← Option.some.inj hrest, hdrop]
    exact ⟨pre ++ [last], List.append_ne_nil_of_right_ne_nil _ (List.cons_ne_nil _ _), hinput⟩
  | char =>
    rw [hkind] at h
    cases input with
    | nil => cases h
    | cons c s =>
      cases h
      exact ⟨[c], List.cons_ne_nil _ _, rfl⟩
  | string =>
    rw [hkind] at h
    cases arg with
    | num type => cases h
    | str cells =>
      dsimp only at h
      by_cases hnone : cells.length = 0 ∨ 4096 * 4 < cells.length ∨
          wordOf (skipSpaces input) = []
      · rw [if_pos hnone] at h
        cases h
      rw [if_neg hnone] at h
      have hword := List.length_pos_iff.2 (not_or.1 (not_or.1 hnone).2).2
      have hle : (wordOf (skipSpaces input)).length ≤ (skipSpaces input).length :=
        (List.takeWhile_prefix _).length_le
      have hshort := length_skipSpaces_le input
      have hpos : 0 < if conv.limit = 0 then (wordOf (skipSpaces input)).length
          else min conv.limit (wordOf (skipSpaces input)).length := by
        split
        · exact hword
        · omega
      generalize (if conv.limit = 0 then (wordOf (skipSpaces input)).length
          else min conv.limit (wordOf (skipSpaces input)).length) = k at h hpos
      cases h
      obtain ⟨item, hitem⟩ := (List.drop_suffix k (skipSpaces input)).trans
        (List.dropWhile_suffix isSpace)
      refine ⟨item, ?_, hitem.symm⟩
      rintro rfl
      have hlen := congrArg List.length hitem
      rw [List.nil_append, List.length_drop] at hlen
      omega

end Conversion

/-! ## The loop -/

section

variable {p q : ScanPlace}

theorem Conversion.loop_conversion {conv : Conversion} {f s : List UInt8} {arg : SscanfArg}
    {args : List SscanfArg} {ret : Nat} (values : List SscanfValue) (hs : s ≠ [])
    (hmeets : conv.Meets s arg) :
    ∃ values', match conv.behind s arg with
      | some rest =>
        sscanfLoop (0x25 :: (conv.text ++ f)) s (arg :: args) ret values =
          sscanfLoop f rest args (ret + 1) values'
      | none =>
        ∃ status, sscanfLoop (0x25 :: (conv.text ++ f)) s (arg :: args) ret values =
          some ⟨status, ret, values'⟩ := by
  obtain ⟨parsed, hparse, hmeets⟩ := hmeets f
  have hloop := sscanfLoop.eq_def (0x25 :: (conv.text ++ f)) s (arg :: args) ret values
  dsimp only at hloop
  rw [if_neg hs, if_pos rfl, List.head?_cons, hparse, Option.bind_some,
    if_pos (Conversion.head?_text f)] at hloop
  refine ⟨values ++ parsed.value.toList, ?_⟩
  rw [hloop]
  cases hbehind : conv.behind s arg with
  | some rest =>
    rw [hbehind] at hmeets
    obtain ⟨herror, hcurrent, hskip⟩ := hmeets
    obtain ⟨item, hitem, hsplit⟩ := conv.behind_suffix hbehind
    have hlen : parsed.current.length ≠ s.length := by
      have hpos := List.length_pos_iff.2 hitem
      rw [hcurrent, hsplit, List.length_append]
      omega
    dsimp only
    rw [if_neg fun h ↦ h herror, if_neg hlen, hskip, hcurrent]
    rfl
  | none =>
    rw [hbehind] at hmeets
    dsimp only
    by_cases herror : parsed.error = .success
    · have hcurrent := hmeets.resolve_left fun h ↦ h herror
      rw [if_neg fun h ↦ h herror, if_pos (congrArg List.length hcurrent)]
      exact ⟨_, rfl⟩
    · rw [if_pos herror]
      exact ⟨_, rfl⟩

/-- What is left of a text without a NUL, and of the arguments of a format, is of the same kind. -/
def ScanPlace.Fits (p : ScanPlace) : Prop := 0 ∉ p.input ∧ TakesArgs p.directives p.args

theorem formatText_cons (d : Directive) (directives : List Directive) :
    formatText (d :: directives) = d.text ++ formatText directives := List.flatMap_cons

theorem ScanPlace.Fits.next (hfits : p.Fits) (h : p.next = some q) :
    q.Fits ∧ p.directives.length = q.directives.length + 1 := by
  obtain ⟨directives, input, args, count⟩ := p
  obtain ⟨h0, hargs⟩ := hfits
  cases directives with
  | nil => cases h
  | cons d directives =>
    cases d with
    | literal c plain =>
      rw [ScanPlace.next] at h
      dsimp only at h
      split_ifs at h
      cases h
      exact ⟨⟨fun hmem ↦ h0 (List.mem_of_mem_tail hmem), hargs⟩, rfl⟩
    | blank c space =>
      cases h
      exact ⟨⟨fun hmem ↦ h0 ((List.dropWhile_sublist _).subset hmem), hargs⟩, rfl⟩
    | conversion conv =>
      cases args with
      | nil => cases h
      | cons arg args =>
        obtain ⟨rest, hbehind, hq⟩ := Option.map_eq_some_iff.1 h
        obtain ⟨item, -, hsplit⟩ := conv.behind_suffix hbehind
        cases hq
        refine ⟨⟨fun hmem ↦ h0 ?_, hargs.2⟩, rfl⟩
        rw [hsplit]
        exact List.mem_append_right _ hmem

/-- One directive: the loop goes on where the scan does, or returns. -/
theorem ScanPlace.loop_next (hfits : p.Fits) (hexact : p.Exact) (values : List SscanfValue) :
    ∃ values', match p.next with
      | some q => p.loop values = q.loop values'
      | none => ∃ status, p.loop values = some ⟨status, p.count, values'⟩ := by
  obtain ⟨directives, input, args, count⟩ := p
  obtain ⟨h0, hargs⟩ := hfits
  cases directives with
  | nil =>
    refine ⟨values, .success, ?_⟩
    rw [ScanPlace.loop, formatText, List.flatMap_nil, sscanfLoop]
  | cons d directives =>
    cases d with
    | literal c plain =>
      rw [ScanPlace.next, ScanPlace.loop, formatText_cons, Directive.text, List.singleton_append]
      dsimp only
      by_cases hhead : input.head? = some c
      · obtain ⟨s, rfl⟩ := List.head?_eq_some_iff.1 hhead
        rw [if_pos hhead, sscanfLoop_literal plain.1 plain.2]
        exact ⟨values, rfl⟩
      · rw [if_neg hhead]
        refine ⟨values, .success, ?_⟩
        by_cases hs : input = []
        · rw [hs, sscanfLoop_nil]
        · exact sscanfLoop_break plain.1 plain.2 hs hhead
    | blank c space =>
      refine ⟨values, ?_⟩
      rw [ScanPlace.next, ScanPlace.loop, formatText_cons, Directive.text, List.singleton_append]
      dsimp only
      by_cases hs : input = []
      · rw [hs, sscanfLoop_nil]
        exact (sscanfLoop_nil _).symm
      · rw [sscanfLoop_space space hs]
        rfl
    | conversion conv =>
      cases args with
      | nil => exact hargs.elim
      | cons arg args =>
        rw [ScanPlace.next, ScanPlace.loop, formatText_cons, Directive.text, List.cons_append]
        dsimp only
        by_cases hs : input = []
        · -- Nothing is converted at the end of the input.
          have hbehind : conv.behind input arg = none := by
            cases h : conv.behind input arg with
            | none => rfl
            | some rest =>
              obtain ⟨item, hitem, hsplit⟩ := conv.behind_suffix h
              rw [hs] at hsplit
              exact absurd (List.append_eq_nil_iff.1 hsplit.symm).1 hitem
          rw [hbehind, hs, sscanfLoop_nil]
          exact ⟨values, .success, rfl⟩
        · have hmeets := (Conversion.meets_iff_exact hs h0 hargs.1).2 (hexact hs)
          obtain ⟨values', hloop⟩ := @Conversion.loop_conversion conv (formatText directives) input
            arg args count values hs hmeets
          cases hbehind : conv.behind input arg with
          | none =>
            rw [hbehind] at hloop
            exact ⟨values', hloop⟩
          | some rest =>
            rw [hbehind] at hloop
            exact ⟨values', hloop⟩

/-- Over any number of directives the loop goes on where the scan does. -/
theorem ScanPlace.loop_reaches (hfits : p.Fits) (hexact : ∀ q, p.Reaches q → q.Exact)
    (h : p.Reaches q) (values : List SscanfValue) :
    q.Fits ∧ ∃ values', p.loop values = q.loop values' := by
  induction h with
  | refl => exact ⟨hfits, values, rfl⟩
  | @tail q r hq hnext ih =>
    obtain ⟨hfits', values', hloop⟩ := ih
    obtain ⟨values'', hstep⟩ := ScanPlace.loop_next hfits' (hexact q hq) values'
    rw [hnext] at hstep
    exact ⟨(hfits'.next hnext).1, values'', hloop.trans hstep⟩

/-- A scan comes to its end. -/
theorem ScanPlace.exists_end (hfits : p.Fits) : ∃ q, p.Reaches q ∧ q.next = none := by
  generalize hn : p.directives.length = n
  induction n generalizing p with
  | zero =>
    refine ⟨p, Relation.ReflTransGen.refl, ?_⟩
    rw [ScanPlace.next, List.length_eq_zero_iff.1 hn]
  | succ n ih =>
    cases hnext : p.next with
    | none => exact ⟨p, Relation.ReflTransGen.refl, hnext⟩
    | some q =>
      obtain ⟨hfits', hlen⟩ := hfits.next hnext
      obtain ⟨r, hr, hend⟩ := ih hfits' (by omega)
      exact ⟨r, Relation.ReflTransGen.head hnext hr, hend⟩

end

/-- Where each conversion that the scan gets to is given an input that suits the code, the code is
where the scan is after each directive and returns how many conversions have succeeded. -/
theorem countsConversions {directives : List Directive} {input : List UInt8} {args : List SscanfArg}
    (h0 : 0 ∉ input) (hargs : TakesArgs directives args)
    (hexact : ∀ p, ScanPlace.Reaches ⟨directives, input, args, 0⟩ p → p.Exact) :
    CountsConversions directives input args := by
  have hfits : ScanPlace.Fits ⟨directives, input, args, 0⟩ := ⟨h0, hargs⟩
  constructor
  · intro p hp
    exact (ScanPlace.loop_reaches hfits hexact hp []).2
  · obtain ⟨p, hp, hend⟩ := ScanPlace.exists_end hfits
    obtain ⟨hfits', values, hloop⟩ := ScanPlace.loop_reaches hfits hexact hp []
    obtain ⟨values', hstop⟩ := ScanPlace.loop_next hfits' (hexact p hp) values
    rw [hend] at hstop
    obtain ⟨status, hstop⟩ := hstop
    exact ⟨p, status, values', hp, hend, hloop.trans hstop⟩

/-- `%4d-%2x`. -/
def yearAndByte : List Directive :=
  [.conversion ⟨[0x34], .default, .int .d, List.forall_mem_singleton.2 rfl⟩,
    .literal 0x2d (by decide),
    .conversion ⟨[0x32], .default, .int .x, List.forall_mem_singleton.2 rfl⟩]

/-- `2024-1f`. -/
theorem countsConversions_yearAndByte :
    CountsConversions yearAndByte [0x32, 0x30, 0x32, 0x34, 0x2d, 0x31, 0x66]
      [.num .int, .num .uint] := by
  refine countsConversions (by decide) ⟨rfl, rfl, trivial⟩ fun p hp ↦ ?_
  have hexact {conv : Conversion} {input rest : List UInt8} {arg : SscanfArg}
      (hbehind : conv.behind input arg = some rest) (hmodifier : conv.modifier ≠ .i64)
      (hrest : Conversion.NoBlankFirst rest) (hlimit : conv.limit < 4096 * 4)
      (hsuits : conv.Suits input arg) : conv.Exact input arg :=
    Or.inr ⟨hlimit, (Conversion.endsWell_some hbehind).2 ⟨hmodifier, hrest⟩, hsuits⟩
  have hend : ∀ c : UInt8, c ∈ ([] : List UInt8).head? → isSpace c = false := fun c hc ↦ by cases hc
  have hdash : Conversion.NoBlankFirst [0x2d, 0x31, 0x66] := by
    rintro _ ⟨⟩
    rfl
  rcases hp.cases_head with rfl | ⟨p₁, h₁, hp⟩
  · intro _
    refine @hexact _ _ [0x2d, 0x31, 0x66] _ rfl (by decide) hdash (by decide) ?_
    refine ⟨?_, Or.inl rfl⟩
    rintro rest h c hc hlt
    cases h
    exact absurd hlt (by decide)
  obtain rfl : ⟨yearAndByte.tail, [0x2d, 0x31, 0x66], [.num .uint], 1⟩ = p₁ := Option.some.inj h₁
  rcases hp.cases_head with rfl | ⟨p₂, h₂, hp⟩
  · trivial
  obtain rfl : ⟨yearAndByte.tail.tail, [0x31, 0x66], [.num .uint], 1⟩ = p₂ := Option.some.inj h₂
  rcases hp.cases_head with rfl | ⟨p₃, h₃, hp⟩
  · intro _
    refine @hexact _ _ [] _ rfl (by decide) hend (by decide) ?_
    refine ⟨?_, Or.inr (Or.inr (Or.inl (by decide)))⟩
    rintro rest h c hc hlt
    cases h
    cases hc
  obtain rfl : ⟨[], [], [], 2⟩ = p₃ := Option.some.inj h₃
  rcases hp.cases_head with rfl | ⟨p₄, h₄, -⟩
  · trivial
  · cases h₄

/-- `%3d` does not get over the minus sign of `-5-`, as there is another behind the number. -/
theorem not_countsConversions_minus :
    ¬CountsConversions [.conversion ⟨[0x33], .default, .int .d, List.forall_mem_singleton.2 rfl⟩]
      [0x2d, 0x35, 0x2d] [.num .int] := by
  rintro ⟨hreached, -⟩
  have hscan : ScanPlace.Reaches
      ⟨[.conversion ⟨[0x33], .default, .int .d, List.forall_mem_singleton.2 rfl⟩],
        [0x2d, 0x35, 0x2d], [.num .int], 0⟩ ⟨[], [0x2d], [], 1⟩ := Relation.ReflTransGen.single rfl
  have hparse : parseArg [0x33, 0x64] [0x2d, 0x35, 0x2d] (some (.num .int)) =
      some ⟨.success, [0x2d, 0x35, 0x2d], some (.num (-5))⟩ := by decide +kernel
  obtain ⟨values, hloop⟩ := hreached _ hscan
  have hcode : secureSscanf [0x2d, 0x35, 0x2d] [0x25, 0x33, 0x64] [.num .int] =
      some ⟨.success, 0, [.num (-5)]⟩ := by
    rw [secureSscanf, sscanfLoop, if_neg (List.cons_ne_nil _ _), if_pos rfl, List.head?_cons, hparse]
    rfl
  have hplace : ScanPlace.loop ⟨[], [0x2d], [], 1⟩ values = some ⟨.success, 1, values⟩ := by
    rw [ScanPlace.loop, formatText, List.flatMap_nil, sscanfLoop]
  have hret : some 0 = some 1 :=
    congrArg (Option.map SscanfResult.ret) (hcode.symm.trans (hloop.trans hplace))
  exact absurd hret (by decide)

end PsqlOdbc
