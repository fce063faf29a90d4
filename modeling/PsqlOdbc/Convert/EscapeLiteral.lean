import PsqlOdbc.Convert.Escape
import PsqlOdbc.Statement.ScannersAgree

/-!
# Literals in escapes

`{d '...'}`, `{t '...'}`, `{ts '...'}` and `{escape '...'}` go through a buffer of 128 bytes, and
the first closing brace ends them, be it inside of the quotes or not.  A literal is copied whole
exactly if it has fewer than 128 bytes and no brace.
-/

namespace PsqlOdbc

/-! ## The escape -/

/-- A text in which every closing brace is inside of quotes, and that ends outside of them. -/
def braceFree : Bool → List UInt8 → Bool
  | quoted, [] => !quoted
  | quoted, c :: cs =>
    c ≠ 0 && (quoted || c ≠ odbcEscapeEnd) &&
      braceFree (if c = literalQuote then !quoted else quoted) cs

/-- An escape with a literal, and what follows it. -/
structure LiteralEscape where
  spaces : List UInt8
  key : List UInt8
  gap : List UInt8
  lit : List UInt8
  rest : List UInt8
  form : List UInt8 × List UInt8
  form_eq : literalForm key = some form
  spaces_isSpace : ∀ c ∈ spaces, isSpace c = true
  gap_isSpace : ∀ c ∈ gap, isSpace c = true
  gap_ne : gap ≠ []
  lit_start : isSpace (lit.headD 0) = false
  lit_enclosed : braceFree false lit = true

namespace LiteralEscape

variable (e : LiteralEscape)

/-- What is in front of the literal. -/
def opening : List UInt8 := odbcEscapeStart :: (e.spaces ++ (e.key ++ e.gap))

def text : List UInt8 := e.opening ++ (e.lit ++ odbcEscapeEnd :: e.rest)

theorem zero_notMem_lit : (0 : UInt8) ∉ e.lit := by
  have h : ∀ (cs : List UInt8) (quoted : Bool), braceFree quoted cs = true → (0 : UInt8) ∉ cs := by
    intro cs
    induction cs with
    | nil => exact fun _ _ ↦ List.not_mem_nil
    | cons c cs ih =>
      intro quoted hfree hmem
      rw [braceFree, Bool.and_eq_true, Bool.and_eq_true, decide_eq_true_iff] at hfree
      rcases List.mem_cons.1 hmem with rfl | hmem
      · exact hfree.1.1 rfl
      · exact ih _ hfree.2 hmem
  exact h e.lit false e.lit_enclosed

/-- The keys of literals. -/
theorem key_cases :
    stricmpEq e.key (ascii "d") = true ∨ stricmpEq e.key (ascii "t") = true ∨
      stricmpEq e.key (ascii "ts") = true ∨ stricmpEq e.key (ascii "escape") = true := by
  have hform := e.form_eq
  rw [literalForm] at hform
  split at hform
  · next h => exact Or.inl h
  split at hform
  · next h => exact Or.inr (Or.inl h)
  split at hform
  · next h => exact Or.inr (Or.inr (Or.inl h))
  split at hform
  · next h => exact Or.inr (Or.inr (Or.inr h))
  · cases hform

end LiteralEscape

/-! ## The cursor -/

variable {qp : QueryParse} {qb : TokenBuild} {p : UInt8 → Bool} {xs ys : List UInt8}

theorem takeWhile_of_all (hxs : ∀ c ∈ xs, p c = true) (hys : p (ys.headD 0) = false) :
    (xs ++ ys).takeWhile p = xs := by
  rw [List.takeWhile_append_of_pos hxs]
  cases ys with
  | nil => rw [List.takeWhile_nil, List.append_nil]
  | cons c ys =>
    rw [List.headD_cons] at hys
    rw [List.takeWhile_cons_of_neg (by rw [hys]; exact Bool.false_ne_true), List.append_nil]

/-- The cursor is moved over the bytes in front of it. -/
theorem skipWhile_eq (hold : qp.oldPtr = xs ++ ys) (hxs : ∀ c ∈ xs, p c = true)
    (hys : p (ys.headD 0) = false) :
    qp.skipWhile p = { qp with opos := qp.opos + xs.length } := by
  rw [QueryParse.skipWhile, hold, takeWhile_of_all hxs hys]

theorem oldPtr_add (hold : qp.oldPtr = xs ++ ys) :
    QueryParse.oldPtr { qp with opos := qp.opos + xs.length } = ys := by
  rw [QueryParse.oldPtr, ← List.drop_drop, ← QueryParse.oldPtr, hold, List.drop_left]

theorem oldChar_eq_headD : qp.oldChar = qp.oldPtr.headD 0 := by
  rw [QueryParse.oldChar]
  cases hold : qp.oldPtr with
  | nil =>
    rw [QueryParse.charAt, List.getD_eq_default]
    · rfl
    · exact List.drop_eq_nil_iff.1 hold
  | cons c rest => exact qp.charAt_of_oldPtr hold

/-! ## What the call does -/

theorem toLower_letter {c : UInt8} (h : 0x61 ≤ toLower c) :
    isNotSpace c = true ∧ c ≠ paramMarker := by
  rw [toLower] at h
  simp only [isNotSpace, isSpace, Bool.and_eq_true, Bool.not_eq_true', ← Bool.not_eq_true,
    Bool.or_eq_true, decide_eq_true_eq]
  split at h <;> grind

namespace LiteralEscape

variable (e : LiteralEscape)

/-- The key is a word, and not the one of a call. -/
theorem key_word : (∀ c ∈ e.key, isNotSpace c = true ∧ c ≠ paramMarker) ∧ e.key ≠ [] ∧
    e.key.length ≤ 32 ∧ stricmpEq e.key (ascii "call") = false := by
  have h : ∀ word : List UInt8, (word.map toLower).all (0x61 ≤ ·) = true → word ≠ [] →
      word.length ≤ 32 → word.map toLower ≠ (ascii "call").map toLower →
      stricmpEq e.key word = true →
      (∀ c ∈ e.key, isNotSpace c = true ∧ c ≠ paramMarker) ∧ e.key ≠ [] ∧
        e.key.length ≤ 32 ∧ stricmpEq e.key (ascii "call") = false := by
    intro word hletters hne hlen hcall hword
    rw [stricmpEq, decide_eq_true_iff] at hword
    have hlength : e.key.length = word.length := by
      rw [← List.length_map toLower, hword, List.length_map]
    refine ⟨fun c hc ↦ toLower_letter (of_decide_eq_true (List.all_eq_true.1 hletters (toLower c) ?_)), ?_, hlength.trans_le hlen, ?_⟩
    · rw [← hword]
      exact List.mem_map_of_mem hc
    · rintro hnil
      rw [hnil] at hlength
      exact hne (List.length_eq_zero_iff.1 hlength.symm)
    · rw [stricmpEq, hword]
      exact decide_eq_false hcall
  rcases e.key_cases with hkey | hkey | hkey | hkey
  · exact h (ascii "d") (by decide) (by decide) (by decide) (by decide) hkey
  · exact h (ascii "t") (by decide) (by decide) (by decide) (by decide) hkey
  · exact h (ascii "ts") (by decide) (by decide) (by decide) (by decide) hkey
  · exact h (ascii "escape") (by decide) (by decide) (by decide) (by decide) hkey

end LiteralEscape

/-- The cursor in front of the literal. -/
def QueryParse.atLiteral (qp : QueryParse) (e : LiteralEscape) : QueryParse :=
  { qp with opos := qp.opos + e.opening.length }

/-- The key is read, and the literal follows. -/
theorem convertEscape_literal (env : EscapeEnv) (fuel : Nat) {e : LiteralEscape}
    (hold : qp.oldPtr = e.text) :
    convertEscape env (fuel + 1) qp qb = convertLiteral (qp.atLiteral e) qb e.form := by
  obtain ⟨hkey, hne, hlen, hcall⟩ := e.key_word
  set body := e.lit ++ odbcEscapeEnd :: e.rest with hbody
  have hbodyStart : isSpace (body.headD 0) = false := by
    rw [hbody]
    cases hlit : e.lit with
    | nil => rfl
    | cons c lit =>
      have hstart := e.lit_start
      rwa [hlit] at hstart
  have hkeyStart : ∀ tail, isNotSpace ((e.key ++ tail).headD 0) = true ∧
      (e.key ++ tail).headD 0 ≠ paramMarker := by
    intro tail
    obtain ⟨c, key, hcons⟩ := List.exists_cons_of_ne_nil hne
    rw [hcons]
    exact hkey c (hcons ▸ List.mem_cons_self)
  have hgapStart : isNotSpace ((e.gap ++ body).headD 0) = false := by
    obtain ⟨c, gap, hcons⟩ := List.exists_cons_of_ne_nil e.gap_ne
    rw [hcons, List.cons_append, List.headD_cons, isNotSpace,
      e.gap_isSpace c (hcons ▸ List.mem_cons_self), Bool.not_true, Bool.and_false]
  have hopen : qp.oldChar = odbcEscapeStart := by
    rw [oldChar_eq_headD, hold]
    rfl
  have hnext : qp.next.oldPtr = e.spaces ++ (e.key ++ (e.gap ++ body)) := by
    have h : qp.oldPtr = [odbcEscapeStart] ++ (e.spaces ++ (e.key ++ (e.gap ++ body))) := by
      rw [hold, LiteralEscape.text, LiteralEscape.opening, ← hbody]
      simp only [List.append_assoc, List.cons_append, List.nil_append]
    exact oldPtr_add h
  have hspaces := skipWhile_eq hnext e.spaces_isSpace (by
    have h := (hkeyStart (e.gap ++ body)).1
    rw [isNotSpace, Bool.and_eq_true, Bool.not_eq_true'] at h
    exact h.2)
  have hafter := oldPtr_add hnext
  have hword := skipWhile_eq hafter (fun c hc ↦ (hkey c hc).1) hgapStart
  have hafterKey := oldPtr_add hafter
  have hgap := skipWhile_eq hafterKey e.gap_isSpace hbodyStart
  have hread : ((e.key ++ (e.gap ++ body)).takeWhile isNotSpace).take 32 = e.key := by
    rw [takeWhile_of_all (fun c hc ↦ (hkey c hc).1) hgapStart, List.take_of_length_le hlen]
  have hpos : qp.opos + 1 + e.spaces.length + e.key.length + e.gap.length =
      qp.opos + e.opening.length := by
    rw [LiteralEscape.opening, List.length_cons, List.length_append, List.length_append]
    omega
  have hnomarker : QueryParse.oldChar { qp.next with opos := qp.next.opos + e.spaces.length } ≠
      paramMarker := by
    rw [oldChar_eq_headD, hafter]
    exact (hkeyStart _).2
  rw [convertEscape]
  simp only [if_pos hopen, hspaces]
  rw [if_neg hnomarker]
  simp only [hword, hgap, hafter, hread]
  rw [convertKey, if_neg (by rw [hcall]; exact Bool.false_ne_true), e.form_eq]
  simp only [QueryParse.next, hpos, QueryParse.atLiteral]

theorem oldPtr_atLiteral {e : LiteralEscape} (hold : qp.oldPtr = e.text) :
    (qp.atLiteral e).oldPtr = e.lit ++ odbcEscapeEnd :: e.rest := oldPtr_add hold

/-- How many bytes of its buffer `F_ExtractOldTo` writes: what it copies, and the terminator. -/
def extractWrites (qp : QueryParse) (ch : UInt8) (maxsize : Nat) : Nat :=
  let copied := ((qp.oldPtr.takeWhile fun c ↦ c ≠ 0 && c ≠ ch).take maxsize).length
  if QueryParse.oldChar { qp with opos := qp.opos + copied } = 0 then copied else copied + 1

/-- The literal is in the new text with what belongs around it, nothing is written behind the
buffer, and the cursor is on the brace that closes the escape. -/
def CopiedWhole (env : EscapeEnv) (fuel : Nat) (qp : QueryParse) (qb : TokenBuild)
    (e : LiteralEscape) : Prop :=
  extractWrites (qp.atLiteral e) odbcEscapeEnd bufSmallSize ≤ bufSmallSize ∧
    ∃ qp' qb' space, convertEscape env (fuel + 1) qp qb = some (qp', qb') ∧
      qb'.queryStatement = qb.queryStatement ++ (e.form.1 ++ e.lit ++ e.form.2) ++ space ∧
      (space = [] ∨ space = [0x20]) ∧ qp'.opos = qp.opos + e.opening.length + e.lit.length

theorem appendSpace_queryStatement (qb : TokenBuild) (qp : QueryParse) :
    ∃ space, (qb.appendSpaceToSeparateIdentifiers qp).queryStatement = qb.queryStatement ++ space ∧
      (space = [] ∨ space = [0x20]) := by
  rw [TokenBuild.appendSpaceToSeparateIdentifiers]
  split
  · exact ⟨[], (List.append_nil _).symm, Or.inl rfl⟩
  · dsimp only
    split
    · exact ⟨[0x20], rfl, Or.inr rfl⟩
    · exact ⟨[], (List.append_nil _).symm, Or.inl rfl⟩

/-- A literal without a brace that fits in the buffer is copied whole. -/
theorem copiedWhole_of_fits {env : EscapeEnv} {fuel : Nat} {e : LiteralEscape}
    (hold : qp.oldPtr = e.text) (hlen : e.lit.length < bufSmallSize)
    (hbrace : odbcEscapeEnd ∉ e.lit) : CopiedWhole env fuel qp qb e := by
  have hlit := oldPtr_atLiteral hold
  have hall : ∀ c ∈ e.lit, (c ≠ 0 && c ≠ odbcEscapeEnd) = true := by
    intro c hc
    rw [Bool.and_eq_true, decide_eq_true_iff, decide_eq_true_iff]
    exact ⟨fun h ↦ e.zero_notMem_lit (h ▸ hc), fun h ↦ hbrace (h ▸ hc)⟩
  have hbuf : ((qp.atLiteral e).oldPtr.takeWhile fun c ↦ c ≠ 0 && c ≠ odbcEscapeEnd).take
      bufSmallSize = e.lit := by
    rw [hlit, takeWhile_of_all hall rfl, List.take_of_length_le (Nat.le_of_lt hlen)]
  have hend : QueryParse.oldChar { qp.atLiteral e with
      opos := (qp.atLiteral e).opos + e.lit.length } = odbcEscapeEnd := by
    rw [oldChar_eq_headD, oldPtr_add hlit]
    rfl
  have hne : ¬(odbcEscapeEnd = 0) := by decide
  constructor
  · rw [extractWrites]
    simp only [hbuf, hend]
    rw [if_neg hne]
    exact hlen
  · rw [convertEscape_literal env fuel hold, convertLiteral, extractOldTo]
    simp only [hbuf, hend]
    rw [if_neg hne, Option.map_some]
    obtain ⟨space, htext, hspace⟩ := appendSpace_queryStatement
      (qb.appendData (e.form.1 ++ e.lit ++ e.form.2))
      { qp.atLiteral e with opos := (qp.atLiteral e).opos + e.lit.length }
    exact ⟨_, _, space, rfl, htext, hspace, rfl⟩

/-- And no other one. -/
theorem fits_of_copiedWhole {env : EscapeEnv} {fuel : Nat} {e : LiteralEscape}
    (hold : qp.oldPtr = e.text) (h : CopiedWhole env fuel qp qb e) :
    e.lit.length < bufSmallSize ∧ odbcEscapeEnd ∉ e.lit := by
  obtain ⟨hwrites, qp', qb', space, hcall, -, -, hpos⟩ := h
  have hlit := oldPtr_atLiteral hold
  rw [convertEscape_literal env fuel hold, convertLiteral, extractOldTo] at hcall
  rw [extractWrites] at hwrites
  set copied := ((qp.atLiteral e).oldPtr.takeWhile fun c ↦ c ≠ 0 && c ≠ odbcEscapeEnd).take
    bufSmallSize with hcopied
  split at hcall
  · cases hcall
  · next hchar =>
    rw [if_neg hchar] at hwrites
    rw [Option.map_some, Option.some_inj, Prod.mk.injEq] at hcall
    have hlength : copied.length = e.lit.length := by
      rw [← hcall.1] at hpos
      exact Nat.add_left_cancel hpos
    refine ⟨by omega, fun hmem ↦ ?_⟩
    -- What is copied is as long as the literal, which so has no brace.
    have htaken := List.takeWhile_prefix (l := (qp.atLiteral e).oldPtr)
      fun c ↦ c ≠ 0 && c ≠ odbcEscapeEnd
    have hle : e.lit.length ≤
        ((qp.atLiteral e).oldPtr.takeWhile fun c ↦ c ≠ 0 && c ≠ odbcEscapeEnd).length := by
      rw [← hlength, hcopied]
      exact List.length_take_le' _ _
    have hsub := List.prefix_of_prefix_length_le ⟨_, hlit.symm⟩ htaken hle
    have hc := List.mem_takeWhile_imp (hsub.subset hmem)
    rw [decide_eq_false (not_not.2 rfl), Bool.and_false] at hc
    cases hc

/-- The literal of an escape is copied whole exactly if it has less than 128 bytes and no closing
brace in its quotes. -/
theorem convertEscape_copiedWhole_iff (env : EscapeEnv) (fuel : Nat) (qp : QueryParse)
    (qb : TokenBuild) (e : LiteralEscape) (hold : qp.oldPtr = e.text) :
    CopiedWhole env fuel qp qb e ↔ e.lit.length < bufSmallSize ∧ odbcEscapeEnd ∉ e.lit :=
  ⟨fits_of_copiedWhole hold, fun h ↦ copiedWhole_of_fits hold h.1 h.2⟩

theorem isSpace_nil : ∀ c ∈ ([] : List UInt8), isSpace c = true := List.forall_mem_nil _

theorem isSpace_space : ∀ c ∈ [(0x20 : UInt8)], isSpace c = true :=
  List.forall_mem_singleton.2 rfl

/-- `{d` with a literal, at the end of a statement. -/
def dateEscape (lit : List UInt8) (hstart : isSpace (lit.headD 0) = false)
    (henclosed : braceFree false lit = true) : LiteralEscape where
  spaces := []
  key := ascii "d"
  gap := [0x20]
  lit := lit
  rest := []
  form := ([], ascii "::date")
  form_eq := by decide
  spaces_isSpace := isSpace_nil
  gap_isSpace := isSpace_space
  gap_ne := by decide
  lit_start := hstart
  lit_enclosed := henclosed

/-- An escape that needs nothing. -/
def noEscapeEnv : EscapeEnv := ⟨0, fun _ _ ↦ [], fun _ _ ↦ none⟩

/-- The start of a statement that is one escape. -/
def escapeStart (e : LiteralEscape) : QueryParse := qpInitialize utf8Connection e.text 0 .select

/-- `{d '2020-01-01'}`. -/
def plainDate : LiteralEscape := dateEscape (ascii "'2020-01-01'") (by decide) (by decide)

/-- `{d '2020}01'}`. -/
def braceDate : LiteralEscape := dateEscape (ascii "'2020\x7d01'") (by decide) (by decide)

/-- `{d '0...0'}`, of 128 bytes. -/
def longDate : LiteralEscape :=
  dateEscape (literalQuote :: List.replicate 126 0x30 ++ [literalQuote]) (by decide) (by decide)

theorem convertEscape_copiedWhole_date :
    CopiedWhole noEscapeEnv 0 (escapeStart plainDate) twoParameters plainDate :=
  (convertEscape_copiedWhole_iff noEscapeEnv 0 (escapeStart plainDate) twoParameters plainDate
    rfl).2 (by decide)

/-- A brace in the quotes ends the literal, and one of 128 bytes is terminated behind the
buffer. -/
theorem convertEscape_copiedWhole_not :
    (¬CopiedWhole noEscapeEnv 0 (escapeStart braceDate) twoParameters braceDate ∧
      (convertEscape noEscapeEnv 1 (escapeStart braceDate) twoParameters).map
        (·.2.queryStatement) = some (ascii "'2020::date ")) ∧
    (¬CopiedWhole noEscapeEnv 0 (escapeStart longDate) twoParameters longDate ∧
      extractWrites ((escapeStart longDate).atLiteral longDate) odbcEscapeEnd bufSmallSize = 129) := by
  refine ⟨⟨fun h ↦ ?_, by decide⟩, ⟨fun h ↦ ?_, by decide +kernel⟩⟩
  · exact absurd (fits_of_copiedWhole rfl h).2 (by decide)
  · exact absurd (fits_of_copiedWhole rfl h).1 (by decide +kernel)

end PsqlOdbc
