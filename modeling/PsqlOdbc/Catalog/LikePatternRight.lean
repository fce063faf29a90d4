import PsqlOdbc.Catalog.LikePattern

/-!
# Which search patterns keep their meaning

The loop makes the characters of a pattern of `LIKE` (`sentChars`) and escapes them for the literal.
A backslash in front of a character that is not ASCII is lost, and only there the patterns ask for
different characters (`likeItems_sent`).
-/

namespace PsqlOdbc

open Lib Lib.CountingBuffer Server

/-! ## Characters -/

section

variable {ccsc : CharSet} {c bs : List UInt8} {b : UInt8} {st : Nat}

theorem charLen_ascii (ccsc : CharSet) (hb : b < 0x80) (bs : List UInt8) :
    charLen ccsc (b :: bs) = 1 := by
  have hlen := mbLen_ascii ccsc hb bs
  have hhigh : ¬0x80 ≤ b := UInt8.not_le.2 hb
  cases ccsc <;> simp only [charLen, hlen, hb, hhigh, if_true, if_false] <;> grind

/-- An ASCII byte is a character in every encoding. -/
theorem isChar_ascii (ccsc : CharSet) (hb : b < 0x80) : IsChar ccsc [b] := by
  refine ⟨?_, charLen_ascii ccsc hb []⟩
  by_cases hm : ccsc.multibyte = true
  · exact .multi hm (.ascii hb)
  · by_cases hu : ccsc = .utf8
    · exact hu ▸ .utf8One hb
    · by_cases hmu : ccsc = .muleInternal
      · exact hmu ▸ .muleOne hb
      · exact .single (Bool.eq_false_iff.2 hm) hu hmu

theorem exists_of_isAscii (h : isAscii c = true) : ∃ b, c = [b] ∧ b < 0x80 := by
  rw [isAscii, Bool.and_eq_true, decide_eq_true_eq, decide_eq_true_eq] at h
  obtain ⟨b, rfl⟩ := List.length_eq_one_iff.1 h.1
  exact ⟨b, rfl, h.2⟩

theorem validText_of_single (hm : ccsc.multibyte = false) (bs : List UInt8) :
    ValidText ccsc bs := by
  induction bs with
  | nil => exact .nil
  | cons b bs ih => exact .cons (c := [b]) (.byte hm) ih

theorem EncodedChar.validText (hc : EncodedChar ccsc c) (hbs : ValidText ccsc bs) :
    ValidText ccsc (c ++ bs) := by
  by_cases hm : ccsc.multibyte = true
  · cases hc with
    | multi _ hc => exact .cons hc hbs
    | single h => exact absurd hm (Bool.eq_false_iff.1 h)
    | utf8One | utf8Two | utf8Three | utf8Four | muleOne | mule => cases hm
  · exact validText_of_single (Bool.eq_false_iff.2 hm) _

theorem validText_flatten {chars : List (List UInt8)} (h : ∀ c ∈ chars, EncodedChar ccsc c) :
    ValidText ccsc chars.flatten := by
  induction chars with
  | nil => exact .nil
  | cons c chars ih =>
    exact (h c List.mem_cons_self).validText (ih fun d hd ↦ h d (List.mem_cons_of_mem _ hd))

/-- The walk over JOHAB characters that EUC_KR has too. -/
theorem walkAll_johab {chars : List (List UInt8)} (h : ∀ c ∈ chars, EncodedChar .johab c)
    (hsafe : ∀ c ∈ chars, JohabSafe c) (hst : st < 2) :
    WalkAll .johab (WalkAgreesAt .johab) st 0 chars.flatten := by
  induction chars generalizing st with
  | nil => trivial
  | cons c chars ih =>
    have hwalk := ((h c List.mem_cons_self).charWalk_iff hst).2 fun _ ↦ hsafe c List.mem_cons_self
    have hrest := fun st hst ↦ @ih st (fun d hd ↦ h d (List.mem_cons_of_mem _ hd))
      (fun d hd ↦ hsafe d (List.mem_cons_of_mem _ hd)) hst
    have htwo : ∀ d e : UInt8, 0x80 ≤ d → c = [d, e] →
        WalkAll .johab (WalkAgreesAt .johab) st 0 (c ++ chars.flatten) := by
      rintro d e hd rfl
      rw [isAscii_of_two_le (Nat.le_refl _)] at hwalk
      have hlen : mbLen .johab (d :: e :: chars.flatten) = 2 := by
        simp only [mbLen, if_pos hd]
      refine walkAll_lead _ hlen hd rfl ⟨?_, ?_⟩
      · rw [WalkAgreesAt, asciiAt_succ]
        exact hwalk.2.1
      · rw [owedAfter_succ]
        exact hrest _ hwalk.walkState_lt
    rw [List.flatten_cons]
    cases h c List.mem_cons_self with
    | single hm => cases hm
    | multi hm hc =>
      cases hc with
      | @ascii _ b hb =>
        have hzero : pgCSStat st b .johab = 0 := pgCSStat_ascii (.inr hst) hb
        have hlen := mbLen_ascii .johab hb chars.flatten
        change WalkAll _ _ st 0 (b :: chars.flatten)
        refine ⟨?_, ?_⟩
        · rw [WalkAgreesAt, hzero, asciiAt, hlen, List.headD_cons]
          simp [mbcsNonAscii, hb]
        · rw [hzero, owedAfter_zero, hlen]
          exact hrest 0 Nat.zero_lt_two
      | byte hset => cases hset
      | kana hset | sjis hset | eucKana hset | eucJis hset =>
        rcases hset with hset | hset <;> cases hset
      | gbk hset => rcases hset with hset | hset | hset <;> cases hset
      | euc hset => rcases hset with hset | hset | hset | hset | hset <;> cases hset
      | johabHangul hc hc' hd => exact htwo _ _ (by grind) rfl
      | johabHanja hc hd => exact htwo _ _ (by grind) rfl

/-- The walk over whole characters. -/
theorem walkAll_chars {chars : List (List UInt8)} (h : ∀ c ∈ chars, EncodedChar ccsc c)
    (hsafe : ccsc = .johab → ∀ c ∈ chars, JohabSafe c) :
    WalkAll ccsc (WalkAgreesAt ccsc) 0 0 chars.flatten := by
  by_cases hj : ccsc = .johab
  · subst hj
    exact walkAll_johab h (hsafe rfl) Nat.zero_lt_two
  · exact (validText_flatten h).walkAgrees hj (settled_zero ccsc)

end

/-! ## The text that is written -/

section

variable {conn : ConnectionClass} {escapeIn : Bool} {ccst : Nat} {bs : List UInt8}
  {c : List UInt8} {chars : List (List UInt8)}

/-- The text that the loop writes, from a byte on. -/
def likeText (conn : ConnectionClass) : Nat → Bool → List UInt8 → List UInt8
  | _, escapeIn, [] => if escapeIn then literalBackslash (ccGetEscape conn) else []
  | ccst, escapeIn, b :: bs =>
    let ccst := pgCSStat ccst b conn.ccsc
    let (bytes, escapeIn) := likeBytes (ccGetEscape conn) (mbcsNonAscii ccst b) b escapeIn
    bytes ++ likeText conn ccst escapeIn bs

/-- The characters of the pattern of `LIKE`. -/
def sentChars : Bool → List (List UInt8) → List (List UInt8)
  | escapeIn, [] => if escapeIn then [[searchPatternEscape]] else []
  | escapeIn, c :: cs =>
    if isAscii c = true then
      (if escapeIn = true ∧ c ≠ [percentSign] ∧ c ≠ [underscore] then [[searchPatternEscape]]
        else []) ++ c :: sentChars (c = [searchPatternEscape]) cs
    else c :: sentChars escapeIn cs

theorem likeText_nonAscii (h : CharWalk conn.ccsc false ccst c) (rest : List UInt8) :
    likeText conn ccst escapeIn (c ++ rest) =
        c ++ likeText conn (walkState conn.ccsc ccst c) escapeIn rest ∧
      escapedName conn false ccst c = c := by
  induction c generalizing ccst with
  | nil => exact ⟨rfl, rfl⟩
  | cons b bs ih =>
    obtain ⟨hnon, h⟩ := h
    obtain ⟨htext, hescaped⟩ := ih h
    rw [Bool.not_false] at hnon
    constructor
    · rw [List.cons_append, likeText, hnon]
      simp only [likeBytes, if_true, htext, walkState_cons, List.cons_append, List.nil_append]
    · rw [escapedName, escapedByte, hnon, if_pos rfl, hescaped, List.singleton_append]

/-- A backslash that is written for the literal. -/
theorem escapedName_backslash (conn : ConnectionClass) (hst : ccst < 2) (bs : List UInt8) :
    escapedName conn false ccst (searchPatternEscape :: bs) =
      literalBackslash (ccGetEscape conn) ++ escapedName conn false 0 bs := by
  have hzero : pgCSStat ccst searchPatternEscape conn.ccsc = 0 :=
    pgCSStat_ascii (.inr hst) (by decide)
  have hascii : mbcsNonAscii 0 searchPatternEscape = false := rfl
  rw [escapedName, hzero, escapedByte, hascii, if_neg Bool.false_ne_true, literalBackslash]
  by_cases hescape : searchPatternEscape = ccGetEscape conn
  · rw [if_pos (.inr hescape), if_pos hescape, ← hescape]
    rfl
  · rw [if_neg, if_neg hescape, if_neg fun h ↦ Bool.false_ne_true h.1]
    · rfl
    · rintro (h | h)
      · exact absurd h (by decide)
      · exact hescape h

/-- An ASCII byte in the literal. -/
theorem escapedName_ascii (conn : ConnectionClass) {b : UInt8} (h0 : b ≠ 0) (hb : b < 0x80)
    (hst : ccst < 2) (bs : List UInt8) :
    escapedName conn false ccst (b :: bs) =
      (if b = searchPatternEscape then literalBackslash (ccGetEscape conn)
        else if b = literalQuote then [b, b] else [b]) ++ escapedName conn false 0 bs := by
  by_cases hback : b = searchPatternEscape
  · rw [if_pos hback, hback, escapedName_backslash conn hst]
  · have hzero : pgCSStat ccst b conn.ccsc = 0 := pgCSStat_ascii (.inr hst) hb
    have hascii : mbcsNonAscii 0 b = false := mbcsNonAscii_eq_false.2 ⟨rfl, hb⟩
    have hescape : b ≠ ccGetEscape conn := by
      rcases ccGetEscape_eq conn with h | h <;> rw [h]
      · exact h0
      · exact hback
    rw [if_neg hback, escapedName, hzero, escapedByte, hascii, if_neg Bool.false_ne_true]
    simp only [hescape, or_false, Bool.false_eq_true, false_and, if_false]

/-- The backslash that is written in front of a byte, in the text and in the characters. -/
theorem likePending_append (conn : ConnectionClass) {b : UInt8} (h0 : b ≠ 0) (hb : b < 0x80)
    (hst : ccst < 2) (escapeIn : Bool) (bs : List UInt8) :
    likePending (ccGetEscape conn) b escapeIn ++ escapedName conn false 0 (b :: bs) =
      escapedName conn false ccst
        ((if escapeIn = true ∧ b ≠ percentSign ∧ b ≠ underscore then [searchPatternEscape] else []) ++
          b :: bs) := by
  have hstate : escapedName conn false 0 (b :: bs) = escapedName conn false ccst (b :: bs) := by
    rw [escapedName_ascii conn h0 hb Nat.zero_lt_two, escapedName_ascii conn h0 hb hst]
  rw [likePending]
  cases escapeIn with
  | false => rw [if_neg Bool.false_ne_true, if_neg fun h ↦ Bool.false_ne_true h.1, hstate]; rfl
  | true =>
    by_cases hwild : b = percentSign ∨ b = underscore
    · rw [if_pos rfl, if_pos hwild, if_neg, hstate]
      · rfl
      · rintro ⟨-, h⟩
        exact not_or.2 h hwild
    · rw [if_pos rfl, if_neg hwild, if_pos ⟨rfl, not_or.1 hwild⟩]
      exact (escapedName_backslash conn hst (b :: bs)).symm

/-- What is written for an ASCII byte. -/
theorem likeBytes_ascii (conn : ConnectionClass) {b : UInt8} (h0 : b ≠ 0) (hb : b < 0x80)
    (hst : ccst < 2) (escapeIn : Bool) (bs : List UInt8) :
    (likeBytes (ccGetEscape conn) false b escapeIn).1 ++ escapedName conn false 0 bs =
        escapedName conn false ccst ((if escapeIn = true ∧ b ≠ percentSign ∧ b ≠ underscore then
          [searchPatternEscape] else []) ++ b :: bs) ∧
      (likeBytes (ccGetEscape conn) false b escapeIn).2 = decide (b = searchPatternEscape) := by
  rw [← likePending_append conn h0 hb hst, escapedName_ascii conn h0 hb Nat.zero_lt_two,
    ← List.append_assoc, likeBytes, if_neg Bool.false_ne_true]
  split_ifs with hback hquote
  · exact ⟨rfl, (decide_eq_true hback).symm⟩
  · exact ⟨rfl, (decide_eq_false hback).symm⟩
  · exact ⟨rfl, (decide_eq_false hback).symm⟩

/-- The text is that of the characters, escaped for the literal. -/
theorem likeText_sent (hchars : ∀ c ∈ chars, EncodedChar conn.ccsc c)
    (hsafe : conn.ccsc = .johab → ∀ c ∈ chars, JohabSafe c) (h0 : 0 ∉ chars.flatten)
    (hst : ccst < 2) (escapeIn : Bool) :
    likeText conn ccst escapeIn chars.flatten =
      escapedName conn false ccst (sentChars escapeIn chars).flatten := by
  induction chars generalizing ccst escapeIn with
  | nil =>
    rw [sentChars, List.flatten_nil, likeText]
    cases escapeIn with
    | false => rfl
    | true =>
      rw [if_pos rfl, if_pos rfl]
      refine Eq.trans ?_ (escapedName_backslash conn hst []).symm
      rw [escapedName, List.append_nil]
  | cons c chars ih =>
    have hwalk := ((hchars c List.mem_cons_self).charWalk_iff hst).2 fun hj ↦
      hsafe hj c List.mem_cons_self
    rw [List.flatten_cons, List.mem_append, not_or] at h0
    have hrest := fun st hst escapeIn ↦ @ih st (fun d hd ↦ hchars d (List.mem_cons_of_mem _ hd))
      (fun hj d hd ↦ hsafe hj d (List.mem_cons_of_mem _ hd)) h0.2 hst escapeIn
    rw [List.flatten_cons, sentChars]
    by_cases hascii : isAscii c = true
    · obtain ⟨b, rfl, hb⟩ := exists_of_isAscii hascii
      have hb0 : b ≠ 0 := fun h ↦ h0.1 (h ▸ List.mem_cons_self)
      have hzero : pgCSStat ccst b conn.ccsc = 0 := pgCSStat_ascii (.inr hst) hb
      have hnon : mbcsNonAscii 0 b = false := mbcsNonAscii_eq_false.2 ⟨rfl, hb⟩
      obtain ⟨htext, hin⟩ := likeBytes_ascii conn hb0 hb hst escapeIn
        (sentChars (decide (b = searchPatternEscape)) chars).flatten
      rw [if_pos hascii, List.singleton_append, likeText, hzero, hnon]
      dsimp only
      rw [hin, hrest 0 Nat.zero_lt_two, htext]
      refine congrArg (escapedName conn false ccst) ?_
      rw [List.flatten_append, List.flatten_cons, List.singleton_append]
      simp only [List.cons.injEq, and_true, ne_eq]
      refine congrArg (· ++ _) ?_
      split_ifs <;> rfl
    · rw [Bool.eq_false_iff.2 hascii] at hwalk
      obtain ⟨htext, hescaped⟩ := @likeText_nonAscii conn escapeIn _ _ hwalk chars.flatten
      rw [if_neg hascii, List.flatten_cons, escapedName_append, hescaped, htext,
        hrest _ hwalk.walkState_lt]

end

/-! ## What the two patterns ask for -/

section

variable {c d : List UInt8} {chars cs : List (List UInt8)} {plain : Prop}
  {items : List (Wildcard (List UInt8))} {sent : Option (List (Wildcard (List UInt8)))}

/-- The item for a character that is not escaped. -/
def plainItem (c : List UInt8) : Wildcard (List UInt8) :=
  if c = [percentSign] then .any else if c = [underscore] then .one else .lit c

theorem likeItems_cons (h : c ≠ [searchPatternEscape]) (cs : List (List UInt8)) :
    likeItems (c :: cs) = (likeItems cs).map (plainItem c :: ·) := by
  cases cs with
  | nil =>
    simp only [likeItems, if_neg h, plainItem]
    split_ifs <;> rfl
  | cons d cs =>
    rw [likeItems, if_neg h, plainItem]
    split_ifs <;> rfl

theorem likeItems_escape (d : List UInt8) (cs : List (List UInt8)) :
    likeItems ([searchPatternEscape] :: d :: cs) = (likeItems cs).map (.lit d :: ·) := by
  rw [likeItems, if_pos rfl]

theorem patternItems_cons
    (h : c = [searchPatternEscape] → cs.head? ≠ some [percentSign] ∧ cs.head? ≠ some [underscore]) :
    patternItems (c :: cs) = plainItem c :: patternItems cs := by
  cases cs with
  | nil =>
    rw [patternItems, plainItem, patternItems]
    split_ifs <;> rfl
  | cons d cs =>
    rw [patternItems, if_neg, plainItem]
    · split_ifs <;> rfl
    · rintro ⟨hc, hd | hd⟩
      · exact (h hc).1 (congrArg some hd)
      · exact (h hc).2 (congrArg some hd)

theorem patternItems_escape (h : d = [percentSign] ∨ d = [underscore]) (cs : List (List UInt8)) :
    patternItems ([searchPatternEscape] :: d :: cs) = .lit d :: patternItems cs := by
  rw [patternItems, if_pos ⟨rfl, h⟩]

theorem backslashesPlain_cons (h : c ≠ [searchPatternEscape]) (cs : List (List UInt8)) :
    BackslashesPlain (c :: cs) ↔ BackslashesPlain cs := by
  cases cs with
  | nil => exact Iff.rfl
  | cons d cs => exact and_iff_right fun hc ↦ absurd hc h

/-- The patterns ask for different characters at some place, if the one of `LIKE` is one. -/
def Diverge (items : List (Wildcard (List UInt8)))
    (sent : Option (List (Wildcard (List UInt8)))) : Prop :=
  ∃ pre c d post, c ≠ d ∧ items = pre ++ .lit c :: post ∧
    ∀ items', sent = some items' → ∃ post', items' = pre ++ .lit d :: post'

/-- The patterns are the same under a condition, and ask for different characters else. -/
def SameIf (plain : Prop) (items : List (Wildcard (List UInt8)))
    (sent : Option (List (Wildcard (List UInt8)))) : Prop :=
  (plain → sent = some items) ∧ (¬plain → Diverge items sent)

theorem SameIf.cons (h : SameIf plain items sent) (item : Wildcard (List UInt8)) :
    SameIf plain (item :: items) (sent.map (item :: ·)) := by
  refine ⟨fun hplain ↦ by rw [h.1 hplain, Option.map_some], fun hplain ↦ ?_⟩
  obtain ⟨pre, c, d, post, hne, hitems, hsent⟩ := h.2 hplain
  refine ⟨item :: pre, c, d, post, hne, congrArg (item :: ·) hitems, fun items' h' ↦ ?_⟩
  obtain ⟨items'', h'', rfl⟩ := Option.map_eq_some_iff.1 h'
  obtain ⟨post', rfl⟩ := hsent items'' h''
  exact ⟨post', rfl⟩

theorem Diverge.core_ne (h : Diverge items (some items')) :
    Wildcard.core items ≠ Wildcard.core items' := by
  obtain ⟨pre, c, d, post, hne, rfl, hsent⟩ := h
  obtain ⟨post', rfl⟩ := hsent items' rfl
  rw [Wildcard.core_append, Wildcard.core_append]
  intro hcore
  exact hne (Option.some.inj (List.cons.inj (List.append_cancel_left hcore)).1)

/-- The pattern of `LIKE` against the search pattern: between two characters, and behind a
backslash. -/
theorem likeItems_sent (cs : List (List UInt8)) :
    SameIf (BackslashesPlain cs) (patternItems cs) (likeItems (sentChars false cs)) ∧
      SameIf (BackslashesPlain ([searchPatternEscape] :: cs))
        (patternItems ([searchPatternEscape] :: cs))
        (likeItems ([searchPatternEscape] :: sentChars true cs)) := by
  have hback : isAscii [searchPatternEscape] = true := by decide
  have hplainItem : plainItem [searchPatternEscape] = .lit [searchPatternEscape] := by decide
  induction cs with
  | nil => exact ⟨⟨fun _ ↦ rfl, fun h ↦ absurd trivial h⟩, ⟨fun _ ↦ rfl, fun h ↦ absurd trivial h⟩⟩
  | cons c cs ih =>
    obtain ⟨hfirst, hbehind⟩ := ih
    by_cases hc : c = [searchPatternEscape]
    · subst hc
      constructor
      · rw [sentChars, if_pos hback, if_neg fun h ↦ Bool.false_ne_true h.1, List.nil_append,
          decide_eq_true rfl]
        exact hbehind
      · have hplain : BackslashesPlain ([searchPatternEscape] :: [searchPatternEscape] :: cs) ↔
            BackslashesPlain ([searchPatternEscape] :: cs) := and_iff_right fun _ ↦ hback
        have hitems : patternItems ([searchPatternEscape] :: [searchPatternEscape] :: cs) =
            plainItem [searchPatternEscape] :: patternItems ([searchPatternEscape] :: cs) :=
          patternItems_cons fun _ ↦ ⟨fun h ↦ absurd (Option.some.inj h) (by decide),
            fun h ↦ absurd (Option.some.inj h) (by decide)⟩
        rw [sentChars, if_pos hback, if_pos ⟨rfl, by decide, by decide⟩, List.singleton_append,
          decide_eq_true rfl, likeItems_escape, hplain, hitems, hplainItem]
        exact hbehind.cons _
    · have hplain := backslashesPlain_cons hc cs
      have hdec : decide (c = [searchPatternEscape]) = false := decide_eq_false hc
      have hitems : patternItems (c :: cs) = plainItem c :: patternItems cs :=
        patternItems_cons fun h ↦ absurd h hc
      have hpair : BackslashesPlain ([searchPatternEscape] :: c :: cs) ↔
          isAscii c = true ∧ BackslashesPlain cs :=
        and_congr (forall_prop_of_true rfl) hplain
      by_cases hascii : isAscii c = true
      · have hpair' : BackslashesPlain ([searchPatternEscape] :: c :: cs) ↔ BackslashesPlain cs :=
          hpair.trans (and_iff_right hascii)
        constructor
        · rw [sentChars, if_pos hascii, if_neg fun h ↦ Bool.false_ne_true h.1, List.nil_append,
            hdec, likeItems_cons hc, hplain, hitems]
          exact hfirst.cons _
        · rw [sentChars, if_pos hascii, hdec, hpair']
          by_cases hwild : c = [percentSign] ∨ c = [underscore]
          · rw [if_neg (fun h ↦ not_or.2 h.2 hwild), List.nil_append, likeItems_escape,
              patternItems_escape hwild]
            exact hfirst.cons _
          · rw [if_pos ⟨rfl, not_or.1 hwild⟩, List.singleton_append, likeItems_escape,
              likeItems_cons hc, patternItems_cons, hplainItem, hitems]
            · exact (hfirst.cons _).cons _
            · exact fun _ ↦ ⟨fun h ↦ hwild (.inl (Option.some.inj h)),
                fun h ↦ hwild (.inr (Option.some.inj h))⟩
      · constructor
        · rw [sentChars, if_neg hascii, likeItems_cons hc, hplain, hitems]
          exact hfirst.cons _
        · -- The backslash is lost.
          have hnot : ¬BackslashesPlain ([searchPatternEscape] :: c :: cs) :=
            fun h ↦ hascii (hpair.1 h).1
          refine ⟨fun h ↦ absurd h hnot, fun _ ↦ ⟨[], [searchPatternEscape], c, _,
            fun h ↦ hc h.symm, patternItems_cons (fun _ ↦ ⟨fun h ↦ ?_, fun h ↦ ?_⟩), ?_⟩⟩
          · exact hascii (Option.some.inj h ▸ by decide)
          · exact hascii (Option.some.inj h ▸ by decide)
          · intro items' h'
            rw [sentChars, if_neg hascii, likeItems_escape] at h'
            obtain ⟨post', -, rfl⟩ := Option.map_eq_some_iff.1 h'
            exact ⟨post', rfl⟩

end

/-! ## The loop -/

section

variable {conn : ConnectionClass} {src mem done dest dest' : List UInt8} {escapeIn escapeIn' : Bool}
  {i n left outlen outlen' : Nat} {encstr : EncodedStr}

theorem length_literalBackslash_le (escapeInLiteral : UInt8) :
    (literalBackslash escapeInLiteral).length ≤ 2 := by
  rw [literalBackslash]
  split
  · exact Nat.le_refl _
  · exact Nat.le_succ _

/-- A byte needs four bytes, where a backslash in front has left two of them. -/
theorem length_likeBytes (escapeInLiteral : UInt8) (nonAscii : Bool) (tchar : UInt8)
    (escapeIn : Bool) :
    (likeBytes escapeInLiteral nonAscii tchar escapeIn).1.length +
        (if (likeBytes escapeInLiteral nonAscii tchar escapeIn).2 then 2 else 0) ≤
      4 + if escapeIn then 2 else 0 := by
  have hback := length_literalBackslash_le escapeInLiteral
  cases escapeIn with
  | false =>
    have hpending : likePending escapeInLiteral tchar false = [] := rfl
    rw [likeBytes, hpending]
    split_ifs <;> simp only [List.nil_append, List.length_cons, List.length_nil] at * <;> grind
  | true =>
    have hpending : (likePending escapeInLiteral tchar true).length ≤ 2 := by
      rw [likePending, if_pos rfl]
      split
      · exact Nat.zero_le _
      · exact hback
    rw [likeBytes]
    split_ifs <;> simp only [List.length_append, List.length_cons, List.length_nil] at * <;> grind

theorem constr_eq_walk (ccsc : CharSet) (src : List UInt8) :
    EncodedStr.constr ccsc src = EncodedStr.walk ccsc src 0 := rfl

/-- The loop and the end of the text, from the byte `i` on. -/
theorem likeLoop_eq (h0 : 0 ∉ src.take n) (hn : n ≤ src.length) (hleft : i + left = n)
    (hroom : done.length + (if escapeIn then 2 else 0) + 4 * left + 1 ≤ mem.length) :
    ((likeLoop (ccGetEscape conn) left (EncodedStr.walk conn.ccsc src i) escapeIn done.length
        (overwrite mem done)).bind fun (escapeIn, outlen, dest) ↦
      storeAll dest outlen
        ((if escapeIn then literalBackslash (ccGetEscape conn) else []) ++ [0])) =
      some (overwrite mem (done ++ (likeText conn (walkState conn.ccsc 0 (src.take i)) escapeIn
        ((src.take n).drop i) ++ [0]))) := by
  induction left generalizing i done escapeIn with
  | zero =>
    have hback := length_literalBackslash_le (ccGetEscape conn)
    rw [List.drop_eq_nil_of_le (by rw [List.length_take]; omega), likeLoop, likeText,
      Option.bind_some]
    refine storeAll_overwrite ?_
    cases escapeIn with
    | false =>
      simp only [Bool.false_eq_true, if_false] at hroom ⊢
      simp only [List.length_append, List.length_nil, List.length_singleton]
      omega
    | true =>
      simp only [if_true] at hroom ⊢
      simp only [List.length_append, List.length_singleton]
      omega
  | succ left ih =>
    have hlt : i < src.length := by omega
    have hdrop : (src.take n).drop i = src.getD i 0 :: (src.take n).drop (i + 1) := by
      rw [List.drop_eq_getElem_cons (by rw [List.length_take]; omega), List.getElem_take,
        List.getD_eq_getElem _ _ hlt]
    have hstate : pgCSStat (walkState conn.ccsc 0 (src.take i)) (src.getD i 0) conn.ccsc =
        walkState conn.ccsc 0 (src.take (i + 1)) := by
      rw [List.take_succ_eq_append_getElem hlt, walkState_append, walkState_cons, walkState_nil,
        List.getD_eq_getElem _ _ hlt]
    have hnext : (EncodedStr.walk conn.ccsc src i).nextchar =
        EncodedStr.walk conn.ccsc src (i + 1) := by
      rw [EncodedStr.walk, EncodedStr.walk, Function.iterate_succ_apply']
    obtain ⟨htchar, hnon⟩ := EncodedStr.walk_byte conn.ccsc h0 (by omega : i < n) hn
    rw [likeLoop, hnext, htchar, hnon, hdrop, likeText, hstate]
    dsimp only
    have hlength := length_likeBytes (ccGetEscape conn)
      (mbcsNonAscii (walkState conn.ccsc 0 (src.take (i + 1))) (src.getD i 0)) (src.getD i 0)
      escapeIn
    generalize likeBytes (ccGetEscape conn)
      (mbcsNonAscii (walkState conn.ccsc 0 (src.take (i + 1))) (src.getD i 0)) (src.getD i 0)
      escapeIn = step at hlength
    rw [storeAll_overwrite (by rw [List.length_append]; split at hlength <;> omega),
      Option.bind_some, ← List.length_append, ih (by omega)
        (by rw [List.length_append]; omega), List.append_assoc, List.append_assoc]

theorem length_likeLoop {escapeInLiteral : UInt8}
    (h : likeLoop escapeInLiteral left encstr escapeIn outlen dest =
      some (escapeIn', outlen', dest')) : dest'.length = dest.length := by
  induction left generalizing encstr escapeIn outlen dest with
  | zero =>
    cases h
    rfl
  | succ left ih =>
    rw [likeLoop] at h
    obtain ⟨dest'', hstore, h⟩ := Option.bind_eq_some_iff.1 h
    rw [ih h, length_storeAll hstore]

/-- The size of the memory is an `int`. -/
theorem length_adjustLikePattern {srclen : Int}
    (h : adjustLikePattern (some src) srclen conn = some (some dest)) :
    0 ≤ patternLength src srclen ∧ 4 * patternLength src srclen + 1 < 2 ^ 31 ∧
      (dest.length : Int) = 4 * patternLength src srclen + 1 := by
  rw [adjustLikePattern] at h
  by_cases hnull : srclen = -1
  · rw [if_pos hnull] at h
    cases h
  by_cases hneg : patternLength src srclen < 0
  · rw [if_neg hnull, if_pos hneg] at h
    cases h
  by_cases hint : 2 ^ 31 ≤ 4 * patternLength src srclen + 1
  · rw [if_neg hnull, if_neg hneg, if_pos hint] at h
    cases h
  rw [if_neg hnull, if_neg hneg, if_neg hint] at h
  obtain ⟨⟨escapeIn, outlen, dest'⟩, hloop, h⟩ := Option.bind_eq_some_iff.1 h
  obtain ⟨dest'', hstore, h⟩ := Option.map_eq_some_iff.1 h
  cases h
  rw [length_storeAll hstore, length_likeLoop hloop, List.length_replicate]
  omega

end

/-! ## The main result -/

section

variable {conn : ConnectionClass} {arg : PatternArg conn.ccsc}

theorem mem_sentChars {c : List UInt8} {escapeIn : Bool} {chars : List (List UInt8)}
    (h : c ∈ sentChars escapeIn chars) : c = [searchPatternEscape] ∨ c ∈ chars := by
  induction chars generalizing escapeIn with
  | nil =>
    rw [sentChars] at h
    split at h
    · exact .inl (List.mem_singleton.1 h)
    · cases h
  | cons d chars ih =>
    rw [sentChars] at h
    split at h
    · rcases List.mem_append.1 h with h | h
      · split at h
        · exact .inl (List.mem_singleton.1 h)
        · cases h
      · rcases List.mem_cons.1 h with rfl | h
        · exact .inr List.mem_cons_self
        · exact (ih h).imp_right (List.mem_cons_of_mem _)
    · rcases List.mem_cons.1 h with rfl | h
      · exact .inr List.mem_cons_self
      · exact (ih h).imp_right (List.mem_cons_of_mem _)

/-- The bytes at the head of a text tell how long its first character is. -/
theorem isChar_unique {ccsc : CharSet} {c d s t : List UInt8} (hc : IsChar ccsc c)
    (hd : IsChar ccsc d) (h : c ++ s = d ++ t) : c = d := by
  have hlen := hc.2
  have hlen' := hd.2
  suffices hlength : c.length = d.length from (List.append_inj h hlength).1
  cases c with
  | nil => cases hlen
  | cons b x =>
    cases d with
    | nil => cases hlen'
    | cons b' y =>
      obtain ⟨rfl, htail⟩ := List.cons.inj h
      rw [← hlen, ← hlen']
      by_cases hb : b < 0x80
      · rw [charLen_ascii ccsc hb, charLen_ascii ccsc hb]
      · by_cases hg : ccsc = .gb18030
        · -- The second byte tells two bytes from four.
          subst hg
          have hhigh : 0x80 ≤ b := UInt8.not_lt.1 hb
          cases x with
          | nil => simp only [charLen, mbLen, if_pos hhigh] at hlen; cases hlen
          | cons e x =>
            cases y with
            | nil => simp only [charLen, mbLen, if_pos hhigh] at hlen'; cases hlen'
            | cons e' y =>
              obtain ⟨rfl, -⟩ := List.cons.inj htail
              simp only [charLen, mbLen]
        · have hmb := mbLen_cons_congr hg b x y
          cases ccsc <;> first | exact hmb | rfl

/-- A text has its characters in one way only. -/
theorem chars_unique {ccsc : CharSet} {chars chars' : List (List UInt8)}
    (hc : ∀ c ∈ chars, IsChar ccsc c) (hc' : ∀ c ∈ chars', IsChar ccsc c)
    (h : chars.flatten = chars'.flatten) : chars = chars' := by
  have hne : ∀ {c : List UInt8}, IsChar ccsc c → c ≠ [] := by
    rintro c hc rfl
    cases hc.2
  induction chars generalizing chars' with
  | nil =>
    cases chars' with
    | nil => rfl
    | cons d chars' =>
      rw [List.flatten_nil, List.flatten_cons] at h
      exact absurd (List.append_eq_nil_iff.1 h.symm).1 (hne (hc' d List.mem_cons_self))
  | cons c chars ih =>
    cases chars' with
    | nil =>
      rw [List.flatten_nil, List.flatten_cons] at h
      exact absurd (List.append_eq_nil_iff.1 h).1 (hne (hc c List.mem_cons_self))
    | cons d chars' =>
      rw [List.flatten_cons, List.flatten_cons] at h
      obtain rfl := isChar_unique (hc c List.mem_cons_self) (hc' d List.mem_cons_self) h
      rw [ih (fun e he ↦ hc e (List.mem_cons_of_mem _ he))
        (fun e he ↦ hc' e (List.mem_cons_of_mem _ he)) (List.append_cancel_left h)]

theorem PatternArg.isChar_sent (arg : PatternArg conn.ccsc) :
    ∀ c ∈ sentChars false arg.chars, IsChar conn.ccsc c := by
  intro c hc
  rcases mem_sentChars hc with rfl | hc
  · exact isChar_ascii conn.ccsc (by decide)
  · exact arg.valid c hc

theorem PatternArg.zero_notMem_sent (arg : PatternArg conn.ccsc) :
    0 ∉ (sentChars false arg.chars).flatten := by
  intro h
  obtain ⟨c, hc, h⟩ := List.mem_flatten.1 h
  rcases mem_sentChars hc with rfl | hc
  · exact absurd (List.mem_singleton.1 h) (by decide)
  · exact arg.noNul (List.mem_flatten.2 ⟨c, hc, h⟩)

theorem PatternArg.zero_notMem_likeText (arg : PatternArg conn.ccsc)
    (hsafe : conn.ccsc = .johab → ∀ c ∈ arg.chars, JohabSafe c) :
    0 ∉ likeText conn 0 false arg.chars.flatten := by
  rw [likeText_sent (fun c hc ↦ (arg.valid c hc).1) hsafe arg.noNul Nat.zero_lt_two]
  exact fun h ↦ arg.zero_notMem_sent (mem_escapedName h)

/-- What is given to the server, and read back. -/
theorem PatternArg.lexLiteral_sent (arg : PatternArg conn.ccsc)
    (hsafe : conn.ccsc = .johab → ∀ c ∈ arg.chars, JohabSafe c) {ext : List UInt8}
    (hext : ext = [] ∨ ext = [literalExt] ∧ ccGetEscape conn ≠ 0) :
    lexLiteral conn.ccsc (ccGetEscape conn = 0)
      (ext ++ literalQuote :: (likeText conn 0 false arg.chars.flatten ++ [literalQuote])) =
        some ((sentChars false arg.chars).flatten, []) := by
  have hchars : ∀ c ∈ sentChars false arg.chars, EncodedChar conn.ccsc c :=
    fun c hc ↦ (arg.isChar_sent c hc).1
  have hsent : conn.ccsc = .johab → ∀ c ∈ sentChars false arg.chars, JohabSafe c := by
    intro hj c hc
    rcases mem_sentChars hc with rfl | hc
    · exact fun h ↦ absurd h (by decide)
    · exact hsafe hj c hc
  have hwhole := (validText_flatten hchars).wholeChars
  rw [likeText_sent (fun c hc ↦ (arg.valid c hc).1) hsafe arg.noNul Nat.zero_lt_two]
  exact lexLiteral_escaped hext arg.zero_notMem_sent hwhole
    ((walkAll_chars hchars hsent).quoteSafe _ hwhole)

theorem PatternArg.length_chars (arg : PatternArg conn.ccsc) :
    (arg.chars.flatten.length : Int) = srcLength arg.src arg.srclen ∧
      arg.chars.flatten.length ≤ arg.src.length := by
  have hproper := arg.proper
  have hstrlen : strlen arg.src ≤ arg.src.length := (List.takeWhile_prefix _).length_le
  have hle : 0 ≤ srcLength arg.src arg.srclen ∧
      srcLength arg.src arg.srclen ≤ arg.src.length := by
    rw [srcLength]
    split <;> omega
  rw [← arg.text, List.length_take]
  omega

/-- The length that the loop goes by is that of the pattern, if four times as much is an `int`. -/
theorem PatternArg.patternLength_eq (arg : PatternArg conn.ccsc)
    (hshort : 4 * arg.chars.flatten.length + 1 < 2 ^ 31) :
    patternLength arg.src arg.srclen = arg.chars.flatten.length := by
  obtain ⟨hlength, -⟩ := arg.length_chars
  rw [srcLength] at hlength
  rw [patternLength]
  split
  · next hnts =>
    rw [if_pos hnts] at hlength
    rw [← hlength]
    exact wrapSigned_of_lt (by decide) (by omega) (by omega)
  · next hnts =>
    rw [if_neg hnts] at hlength
    omega

/-- The text is stored in the new memory. -/
theorem PatternArg.adjustLikePattern_eq (arg : PatternArg conn.ccsc)
    (hshort : 4 * arg.chars.flatten.length + 1 < 2 ^ 31) :
    adjustLikePattern (some arg.src) arg.srclen conn =
      some (some (overwrite (List.replicate (4 * arg.chars.flatten.length + 1) 0)
        (likeText conn 0 false arg.chars.flatten ++ [0]))) := by
  obtain ⟨hlength, hle⟩ := arg.length_chars
  have hn := arg.patternLength_eq hshort
  have hproper := arg.proper
  have htake : arg.src.take arg.chars.flatten.length = arg.chars.flatten := by
    have htext := arg.text
    rwa [← hlength, Int.toNat_natCast] at htext
  have hloop := @likeLoop_eq conn arg.src (List.replicate (4 * arg.chars.flatten.length + 1) 0) []
    false 0 arg.chars.flatten.length arg.chars.flatten.length
    (by rw [htake]; exact arg.noNul) hle (by omega)
    (by
      rw [List.length_replicate, List.length_nil, if_neg Bool.false_ne_true]
      omega)
  rw [List.nil_append, List.take_zero, walkState_nil, List.drop_zero, htake, overwrite_nil,
    List.length_nil] at hloop
  rw [adjustLikePattern, if_neg (by omega), hn, if_neg (by omega), if_neg (by omega),
    show (4 * (arg.chars.flatten.length : Int) + 1).toNat = 4 * arg.chars.flatten.length + 1 by
      omega, Int.toNat_natCast, constr_eq_walk]
  exact Option.map_bind.symm.trans (congrArg (Option.map some) hloop)

/-- `E` stands in front of the literal only where backslashes are doubled. -/
theorem genOpestr_like (conn : ConnectionClass) :
    ∃ ext, genOpestr false conn = cstr "like ".toList ++ ext ∧
      (ext = [] ∨ ext = [literalExt] ∧ ccGetEscape conn ≠ 0) := by
  refine ⟨_, rfl, ?_⟩
  by_cases h : ccGetEscape conn ≠ 0 ∧ pgVersionGe conn 8 1 = true
  · exact .inr ⟨if_pos h, h.1⟩
  · exact .inl (if_neg h)

theorem likeRight_short (h : LikeRight conn arg) : 4 * arg.chars.flatten.length + 1 < 2 ^ 31 := by
  obtain ⟨dest, -, -, -, -, hdest, hlength, -⟩ := h
  obtain ⟨hnonneg, hint, hsize⟩ := length_adjustLikePattern hdest
  omega

theorem mem_plainItem {c d : List UInt8} (h : .lit c = plainItem d) : c = d := by
  rw [plainItem] at h
  split_ifs at h
  cases h
  rfl

theorem mem_of_likeItems {c : List UInt8} : ∀ {chars : List (List UInt8)}
    {items : List (Wildcard (List UInt8))}, likeItems chars = some items → .lit c ∈ items →
      c ∈ chars
  | [], items, h, hc => by
    cases h
    cases hc
  | d :: chars, items, h, hc => by
    by_cases hd : d = [searchPatternEscape]
    · subst hd
      cases chars with
      | nil =>
        rw [likeItems, if_pos rfl] at h
        cases h
      | cons e chars =>
        rw [likeItems_escape] at h
        obtain ⟨rest, hrest, rfl⟩ := Option.map_eq_some_iff.1 h
        rcases List.mem_cons.1 hc with hc | hc
        · cases hc
          exact List.mem_cons_of_mem _ List.mem_cons_self
        · exact List.mem_cons_of_mem _ (List.mem_cons_of_mem _ (mem_of_likeItems hrest hc))
    · rw [likeItems_cons hd] at h
      obtain ⟨rest, hrest, rfl⟩ := Option.map_eq_some_iff.1 h
      rcases List.mem_cons.1 hc with hc | hc
      · exact mem_plainItem hc ▸ List.mem_cons_self
      · exact List.mem_cons_of_mem _ (mem_of_likeItems hrest hc)

theorem mem_of_patternItems {c : List UInt8} : ∀ {chars : List (List UInt8)},
    .lit c ∈ patternItems chars → c ∈ chars
  | [], hc => by cases hc
  | d :: chars, hc => by
    by_cases hd : d = [searchPatternEscape] ∧
        (chars.head? = some [percentSign] ∨ chars.head? = some [underscore])
    · obtain ⟨rfl, hwild⟩ := hd
      cases chars with
      | nil => rcases hwild with h | h <;> cases h
      | cons e chars =>
        rw [patternItems_escape (hwild.imp Option.some.inj Option.some.inj)] at hc
        rcases List.mem_cons.1 hc with hc | hc
        · cases hc
          exact List.mem_cons_of_mem _ List.mem_cons_self
        · exact List.mem_cons_of_mem _ (List.mem_cons_of_mem _ (mem_of_patternItems hc))
    · rw [patternItems_cons fun h ↦ not_or.1 fun h' ↦ hd ⟨h, h'⟩] at hc
      rcases List.mem_cons.1 hc with hc | hc
      · exact mem_plainItem hc ▸ List.mem_cons_self
      · exact List.mem_cons_of_mem _ (mem_of_patternItems hc)

/-- A backslash that is lost changes the names that are matched. -/
theorem likeRight_plain (hsafe : conn.ccsc = .johab → ∀ c ∈ arg.chars, JohabSafe c)
    (h : LikeRight conn arg) : BackslashesPlain arg.chars := by
  have hshort := likeRight_short h
  obtain ⟨dest, ext, value, chars, items, hdest, -, hop, hlit, hvalue, hchars, hitems, hmatch⟩ := h
  obtain ⟨ext', hop', hext⟩ := genOpestr_like conn
  obtain rfl : ext' = ext := List.append_cancel_left (hop'.symm.trans hop)
  rw [arg.adjustLikePattern_eq hshort] at hdest
  cases hdest
  rw [takeWhile_stored (arg.zero_notMem_likeText hsafe), arg.lexLiteral_sent hsafe hext] at hlit
  obtain rfl : chars = sentChars false arg.chars := by
    refine chars_unique hchars arg.isChar_sent ?_
    rw [← hvalue]
    exact (congrArg Prod.fst (Option.some.inj hlit)).symm
  by_contra hplain
  have hdiverge := (likeItems_sent arg.chars).1.2 hplain
  rw [hitems] at hdiverge
  refine hdiverge.core_ne (@Wildcard.core_eq_of_matches _ _ _ (IsChar conn.ccsc) [0x61] [0x62]
    (by decide) (isChar_ascii _ (by decide)) (isChar_ascii _ (by decide))
    (fun c hc ↦ arg.valid c (mem_of_patternItems hc))
    (fun c hc ↦ hchars c (mem_of_likeItems hitems hc)) fun name hname ↦ (hmatch name hname).symm)

/-- A search pattern keeps its meaning if no backslash stands before a character that is not ASCII
and the size of the memory is an `int`; and, where the walk is right, only then. -/
theorem likeRight_of_plain (conn : ConnectionClass) (arg : PatternArg conn.ccsc) :
    ((conn.ccsc = .johab → ∀ c ∈ arg.chars, JohabSafe c) ∧ BackslashesPlain arg.chars ∧
        4 * arg.chars.flatten.length + 1 < 2 ^ 31 → LikeRight conn arg) ∧
      (LikeRight conn arg → 4 * arg.chars.flatten.length + 1 < 2 ^ 31) ∧
      ((conn.ccsc = .johab → ∀ c ∈ arg.chars, JohabSafe c) → LikeRight conn arg →
        BackslashesPlain arg.chars) := by
  refine ⟨?_, likeRight_short, likeRight_plain⟩
  rintro ⟨hsafe, hplain, hshort⟩
  obtain ⟨ext, hop, hext⟩ := genOpestr_like conn
  have hdest := arg.adjustLikePattern_eq hshort
  refine ⟨_, ext, _, sentChars false arg.chars, patternItems arg.chars, hdest, ?_, hop, ?_, rfl,
    arg.isChar_sent, (likeItems_sent arg.chars).1.1 hplain, fun _ _ ↦ Iff.rfl⟩
  · have hsize := (length_adjustLikePattern hdest).2.2
    rw [arg.patternLength_eq hshort] at hsize
    omega
  · rw [takeWhile_stored (arg.zero_notMem_likeText hsafe)]
    exact arg.lexLiteral_sent hsafe hext

end

/-- The connection of a server with standard strings. -/
def standardConn (ccsc : CharSet) : ConnectionClass := ⟨some "on", 16, 0, ccsc, false⟩

/-- A backslash and `é`, in UTF-8. -/
def backslashPattern : PatternArg .utf8 where
  src := [0x5c, 0xc3, 0xa9]
  srclen := -3
  proper := .inl rfl
  chars := [[0x5c], [0xc3, 0xa9]]
  text := by decide
  noNul := by decide
  valid c hc := by
    rcases List.mem_cons.1 hc with rfl | hc
    · exact isChar_ascii .utf8 (by decide)
    · rw [List.mem_singleton.1 hc]
      exact ⟨.utf8Two (by decide) (by decide) (by decide) (by decide), by decide⟩

/-- The pattern made of it ends with an unpaired backslash. -/
theorem not_likeRight :
    ¬∀ (conn : ConnectionClass) (arg : PatternArg conn.ccsc), LikeRight conn arg := by
  intro h
  have hplain := @likeRight_plain (standardConn .utf8) backslashPattern (fun h ↦ nomatch h) (h (standardConn .utf8) backslashPattern)
  exact absurd (hplain.1 rfl) (by decide)

end PsqlOdbc
