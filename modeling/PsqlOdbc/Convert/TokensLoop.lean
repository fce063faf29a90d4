import Mathlib.Data.List.TakeWhile
import Mathlib.Tactic.SplitIfs
import PsqlOdbc.Convert.TokensFollow

/-!
# The whole loop

Outside of quotes and comments one call may take more than a symbol: the rest of
`() VALUES ()`, and the comma behind a discarded parameter.  These bytes leave the rules idle
(`BlankRun`).  With that every call follows the rules, and the loop finds the markers and the
semicolons of `lexEvents`.
-/

namespace PsqlOdbc

/-! ## Bytes that leave the rules idle -/

/-- The rules are idle before the bytes and after them, and find nothing in them. -/
def BlankRun (ccsc : CharSet) (opener : Nat) (escape : UInt8) (w : List UInt8) : Prop :=
  ∀ prev text, lexEvents ccsc opener escape prev ⟨0, .idle, 0⟩ (w ++ text) =
    List.replicate w.length .other ++
      lexEvents ccsc opener escape (w.getLastD prev) ⟨0, .idle, 0⟩ text

section

variable {ccsc : CharSet} {opener : Nat} {escape : UInt8}

theorem List.getLastD_append {α : Type} (v w : List α) (a : α) :
    (v ++ w).getLastD a = w.getLastD (v.getLastD a) := by
  induction v generalizing a with
  | nil => rfl
  | cons b v ih => rw [List.cons_append, List.getLastD_cons, List.getLastD_cons, ih]

theorem BlankRun.append {v w : List UInt8} (hv : BlankRun ccsc opener escape v)
    (hw : BlankRun ccsc opener escape w) : BlankRun ccsc opener escape (v ++ w) := by
  intro prev text
  rw [List.append_assoc, hv, hw, List.length_append, List.replicate_add, List.append_assoc,
    List.getLastD_append]

/-- Space, a comma or parentheses. -/
def isBlank (c : UInt8) : Bool := isSpace c || c = comma || c = leftParen || c = rightParen

theorem lexIdle_blank {c : UInt8} (h : isBlank c = true) :
    c < 0x80 ∧ ∀ prev rest,
      lexIdle ccsc opener escape prev c rest = (.idle, 0, .other) ∧ isWordChar c = false := by
  simp only [isBlank, Bool.or_eq_true, decide_eq_true_eq] at h
  rcases h with ((h | rfl) | rfl) | rfl
  · exact ⟨isSpace_lt h, lexIdle_space h⟩
  all_goals refine ⟨by decide, fun _ _ ↦ ⟨?_, rfl⟩⟩
  all_goals
    rw [lexIdle, strnicmpEq_identity (by decide)]
    rfl

theorem blankRun_of_isBlank {w : List UInt8} (h : ∀ c ∈ w, isBlank c = true) :
    BlankRun ccsc opener escape w := by
  intro prev text
  by_cases hw : w = []
  · subst hw
    rfl
  · exact lexEvents_blank (Or.inl rfl) hw fun c hc ↦ lexIdle_blank (h c hc)

/-- A word between blanks. -/
theorem blankRun_word {u v w : List UInt8} (hu : ∀ c ∈ u, isBlank c = true)
    (hv : ∀ c ∈ v, c < 0x80 ∧ isAlnum c = true) (hw : ∀ c ∈ w, isBlank c = true) (hne : w ≠ []) :
    BlankRun ccsc opener escape (u ++ (v ++ w)) := by
  refine (blankRun_of_isBlank hu).append ?_
  intro prev text
  by_cases hv' : v = []
  · subst hv'
    exact blankRun_of_isBlank hw prev text
  · rw [List.append_assoc, lexEvents_word (Or.inl rfl) hv' hv,
      lexEvents_blank (Or.inr rfl) hne fun c hc ↦ lexIdle_blank (hw c hc), List.length_append,
      List.replicate_add, List.append_assoc, List.getLastD_append]

theorem strnicmpEq_split {s word : List UInt8} (h : strnicmpEq s word = true) :
    ∃ v text, s = v ++ text ∧ v.map toLower = word := by
  rw [strnicmpEq, decide_eq_true_eq] at h
  exact ⟨_, _, (List.take_append_drop word.length s).symm, h⟩

/-- A word is still one in lower case only if it was one. -/
theorem isAlnum_of_toLower {c : UInt8} (h : isAlnum (toLower c) = true) :
    c < 0x80 ∧ isAlnum c = true := by
  simp only [toLower, isAlnum, Bool.or_eq_true, Bool.and_eq_true, decide_eq_true_eq] at *
  split at h <;> grind

theorem isBlank_of_isSpace {c : UInt8} (h : isSpace c = true) : isBlank c = true := by
  rw [isBlank, h]
  rfl

/-- What `insert_without_target` accepts. -/
theorem insertWithoutTarget_blankRun {stmt : List UInt8} {endpos : Nat}
    (h : insertWithoutTarget stmt = some endpos) :
    ∃ w text, stmt = w ++ text ∧ w.length = endpos ∧ BlankRun ccsc opener escape w := by
  have hstmt : stmt.takeWhile isSpace ++ stmt.dropWhile isSpace = stmt :=
    List.takeWhile_append_dropWhile
  simp only [insertWithoutTarget] at h
  by_cases hword : strnicmpEq (stmt.dropWhile isSpace) (ascii "values") = true
  · obtain ⟨v, text, hv, hvalues⟩ := strnicmpEq_split hword
    have hlen : v.length = 6 := by
      have := congrArg List.length hvalues
      rw [List.length_map] at this
      exact this
    have htext : (stmt.dropWhile isSpace).drop 6 = text := by rw [hv, ← hlen, List.drop_left]
    have hrest : text.takeWhile isSpace ++ text.dropWhile isSpace = text :=
      List.takeWhile_append_dropWhile
    rw [if_neg (by rw [hword]; decide), htext] at h
    by_cases hspace : isSpace (text.headD 0) = true
    · rw [if_neg (by rw [hspace]; decide)] at h
      match hd : text.dropWhile isSpace with
      | [] | [_] =>
        rw [hd] at h
        cases h
      | c :: d :: tail =>
        rw [hd] at h
        by_cases hparens : c = leftParen ∧ d = rightParen ∧
            (tail = [] ∨ isSpace (tail.headD 0) ∨ tail.headD 0 = semicolon)
        · simp only [if_pos hparens, Option.some_inj] at h
          obtain ⟨rfl, rfl, -⟩ := hparens
          refine ⟨stmt.takeWhile isSpace ++ (v ++ (text.takeWhile isSpace ++
            [leftParen, rightParen])), tail, ?_, ?_, ?_⟩
          · rw [hd] at hrest
            conv_lhs => rw [← hstmt, hv, ← hrest]
            simp only [List.append_assoc, List.cons_append, List.nil_append]
          · have hall := congrArg List.length hstmt
            rw [← h, ← hall, hv]
            have hrest' := congrArg List.length hrest
            rw [hd] at hrest'
            simp only [List.length_append, List.length_cons, List.length_nil] at hrest' ⊢
            omega
          · refine blankRun_word (fun c hc ↦ isBlank_of_isSpace (List.mem_takeWhile_imp hc)) ?_ ?_
              (by simp)
            · intro c hc
              refine isAlnum_of_toLower ?_
              have hmem : toLower c ∈ ascii "values" := hvalues ▸ List.mem_map_of_mem hc
              exact (List.all_eq_true.1 (by decide) : ∀ b ∈ ascii "values", isAlnum b = true) _ hmem
            · intro c hc
              rcases List.mem_append.1 hc with hc | hc
              · exact isBlank_of_isSpace (List.mem_takeWhile_imp hc)
              · exact (List.all_eq_true.1 (by decide) : ∀ b ∈ [leftParen, rightParen], isBlank b = true) _ hc
        · simp only [if_neg hparens] at h
          cases h
    · rw [if_pos (by rw [Bool.not_eq_true] at hspace; rw [hspace]; rfl)] at h
      cases h
  · rw [if_pos (by rw [Bool.not_eq_true] at hword; rw [hword]; rfl)] at h
    cases h

end

/-! ## Outside of quotes and comments -/

/-- Behind a symbol that leaves the rules idle, more bytes are taken. -/
structure SkipsTo (qp : QueryParse) (qb : TokenBuild) (qp' : QueryParse) (qb' : TokenBuild) :
    Prop where
  same : SameText qp qb qp' qb'
  skipped : ∃ w, qp.advance.oldPtr = w ++ qp'.advance.oldPtr ∧ qp'.opos = qp.opos + w.length ∧
    BlankRun qp.ccsc 0 (ccGetEscape qb.conn) w
  mode : qp'.InMode .idle
  token : qp'.advance.TokenOk .idle
  resolved : qb'.resolved = qb.resolved
  ended : qb'.ended = qb.ended

/-- The loop has taken one symbol, and perhaps more bytes behind it. -/
def IdleOutcome (qp : QueryParse) (qb : TokenBuild) (out : Mode × Nat × Event)
    (qp' : QueryParse) (qb' : TokenBuild) : Prop :=
  Outcome qp qb out qp' qb' ∨
    ∃ qp1 qb1, Outcome qp qb out qp1 qb1 ∧ out.1 = .idle ∧ out.2.1 = 0 ∧ SkipsTo qp1 qb1 qp' qb'

/-- A finished token that begins with a parenthesis is nothing else. -/
def ParseToken.ParenOk (pt : ParseToken) : Prop :=
  ∀ token, pt.finishedToken = some token → token.head? = some leftParen → token = [leftParen]

section

variable {qp qp0 : QueryParse} {qb qb0 qb' : TokenBuild} {c : UInt8} {rest : List UInt8}
  {pt : ParseToken} {out : Mode × Nat × Event}

/-- The cursor moves on over bytes that begin no token. -/
theorem QueryParse.TokenOk.move (h : qp.advance.TokenOk .idle) (hc : qp.charAt qp.opos = c)
    (hparen : c ≠ leftParen) (hcr : c ≠ pgCarriageReturn) (n : Nat) :
    ({ qp with opos := n } : QueryParse).advance.TokenOk .idle where
  nonempty := h.nonempty
  paren hend hhead := by
    obtain ⟨-, -, hprev⟩ := h.paren hend hhead
    rw [QueryParse.prevChar_advance, hc] at hprev
    rcases hprev with hprev | ⟨hprev, -⟩
    · exact absurd hprev hparen
    · exact absurd hprev hcr
  quoted h' := by cases h'

theorem SkipsTo.of_opos {w : List UInt8} (h : Outcome qp0 qb0 out qp qb)
    (hout : out.1 = .idle) (hc : qp.charAt qp.opos = c) (hparen : c ≠ leftParen)
    (hcr : c ≠ pgCarriageReturn) (hold : ∃ text, qp.statement.drop (qp.opos + 1) = w ++ text)
    (hw : BlankRun qp.ccsc 0 (ccGetEscape qb.conn) w) (hconn : qb'.conn = qb.conn)
    (hres : qb'.resolved = qb.resolved) (hend : qb'.ended = qb.ended) :
    SkipsTo qp qb { qp with opos := qp.opos + w.length } qb' where
  same := ⟨rfl, rfl, rfl, rfl, hconn⟩
  skipped := by
    obtain ⟨text, hold⟩ := hold
    refine ⟨w, ?_, rfl, hw⟩
    rw [QueryParse.oldPtr, QueryParse.advance, hold, QueryParse.oldPtr, QueryParse.advance]
    simp only
    rw [Nat.add_right_comm, ← List.drop_drop, hold, List.drop_left]
  mode := by
    have hm := h.mode
    rw [hout] at hm
    exact hm
  token := by
    have ht := h.token
    rw [hout] at ht
    exact ht.move hc hparen hcr _
  resolved := hres
  ended := hend

/-- What is appended has nothing to do with the symbol. -/
theorem IdleOutcome.append {qp' : QueryParse} (h : IdleOutcome qp0 qb0 out qp' qb')
    (s : List UInt8) : IdleOutcome qp0 qb0 out qp' (qb'.appendData s) := by
  rcases h with h | ⟨qp1, qb1, h1, hmode, hskip, h⟩
  · exact Or.inl ⟨⟨h.same.statement, h.same.before, h.same.ccsc, h.same.ccst, h.same.conn⟩, h.opos,
      h.mode, h.token, h.resolved, h.ended⟩
  · exact Or.inr ⟨qp1, qb1, h1, hmode, hskip, ⟨⟨h.same.statement, h.same.before, h.same.ccsc,
      h.same.ccst, h.same.conn⟩, h.skipped, h.mode, h.token, h.resolved, h.ended⟩⟩

/-- The switch on the finished token. -/
theorem checkToken_outcome (h : Outcome qp0 qb0 out qp qb) (hfin : pt.ParenOk)
    (hout : c = rightParen → qp.charAt qp.opos = c ∧ out.1 = .idle ∧ out.2.1 = 0) :
    IdleOutcome qp0 qb0 out (checkToken pt qp qb c).1 (checkToken pt qp qb c).2.1 := by
  rw [checkToken]
  split
  · exact Or.inl h
  · next token htoken =>
    split
    · exact Or.inl (h.withFlags _ _ _ _ _ _ _ rfl rfl rfl)
    · split
      · simp only
        split
        · exact Or.inl (h.withFlags _ _ _ _ _ _ _ rfl rfl rfl)
        · exact Or.inl (h.withFlags _ _ _ _ _ _ _ rfl rfl rfl)
      · split
        · next hparens =>
          -- No token begins with a parenthesis and goes on.
          have hone := hfin token htoken (by rw [hparens.2]; rfl)
          rw [hparens.2] at hone
          exact absurd hone (by decide)
        · split
          · next hparen =>
            obtain ⟨-, -, rfl⟩ := hparen
            obtain ⟨hc, hmode, hskip⟩ := hout rfl
            split
            · next endpos hinsert =>
              obtain ⟨w, text, hold, rfl, hw⟩ := insertWithoutTarget_blankRun hinsert
              exact Or.inr ⟨qp, qb, h, hmode, hskip,
                .of_opos h hmode hc (by decide) (by decide) ⟨text, hold⟩ hw rfl rfl rfl⟩
            · exact Or.inl h
          · exact Or.inl h

theorem findTagLoop_le (ccsc : CharSet) (ccst pos : Nat) (tag : List UInt8) :
    findTagLoop ccsc ccst pos tag ≤ pos + tag.length + 1 := by
  induction tag generalizing ccst pos with
  | nil => exact Nat.zero_le _
  | cons c tag ih =>
    have hih := ih (pgCSStat ccst c ccsc) (pos + 1)
    rw [findTagLoop, List.length_cons]
    split
    · omega
    · split
      · omega
      · split
        · omega
        · exact Nat.zero_le _

/-- The tag is part of the text. -/
theorem findTag_le (ccsc : CharSet) (c : UInt8) (rest : List UInt8) :
    findTag (c :: rest) ccsc ≤ (c :: rest).length := by
  have h := findTagLoop_le ccsc 0 0 rest
  rw [Nat.zero_add] at h
  exact h

/-- What has been finished when the next token begins. -/
theorem ParseToken.ParenOk.orElse (hpt : pt.ParenOk) (htoken : qp.TokenOk .idle)
    {pt' : ParseToken} (h : pt'.finishedToken = (qp.openToken? <|> pt.finishedToken)) :
    pt'.ParenOk := by
  intro token ht hhead
  rw [h, QueryParse.openToken?] at ht
  cases hend : qp.prevTokenEnd with
  | true =>
    rw [hend, if_pos rfl] at ht
    exact hpt token ht hhead
  | false =>
    rw [hend, if_neg Bool.false_ne_true] at ht
    obtain rfl := Option.some_inj.1 ht
    exact (htoken.paren hend hhead).2.1

/-- A byte that is no marker and belongs to no escape. -/
theorem processPlain_outcome (hpt : pt.curcharProcessed = false) (hfin : pt.ParenOk)
    (hold : qp.oldPtr = c :: rest) (hmode : qp.InMode .idle) (htoken : qp.TokenOk .idle)
    (hescape : ¬(c = odbcEscapeStart ∨ strnicmpEq (c :: rest) (ascii "@@identity")))
    (hmarker : c ≠ paramMarker) :
    IdleOutcome qp qb (lexIdle qp.ccsc 0 (ccGetEscape qb.conn) qp.prevChar c rest)
      (processPlain pt qp qb c).1 (processPlain pt qp qb c).2 := by
  have hc := qp.charAt_of_oldPtr hold
  obtain ⟨hin, hlevel⟩ := hmode
  rw [processPlain]
  simp only [hold, pt.tokenFinish_zero qp hpt]
  split
  · next hdollar =>
    obtain ⟨rfl, hpos⟩ := hdollar
    refine Or.inl ?_
    rw [lexIdle, if_neg hescape, if_neg hmarker, if_pos rfl, if_pos hpos]
    refine .quiet ⟨rfl, rfl, rfl, rfl, rfl⟩ rfl ⟨by rw [hin], hlevel, ?_, ?_, hpos⟩
      (.of_end rfl rfl) rfl rfl
    · rw [← hold]
      rfl
    · exact List.length_take_of_le (findTag_le _ _ _)
  · next hdollar =>
    have hopened : ∀ opened, opened = (if c = dollarQuote then
          (⟨qp.openToken? <|> pt.finishedToken, false⟩,
            { qp with prevTokenEnd := true, taglen := 0 }, qb)
        else openToken pt qp qb c) →
        Outcome qp qb (lexIdle qp.ccsc 0 (ccGetEscape qb.conn) qp.prevChar c rest)
          opened.2.1 opened.2.2 ∧
        opened.1.finishedToken = (qp.openToken? <|> pt.finishedToken) := by
      rintro opened rfl
      by_cases hd : c = dollarQuote
      · rw [if_pos hd]
        refine ⟨?_, rfl⟩
        rw [lexIdle, if_neg hescape, if_neg hmarker, if_pos hd]
        simp only [if_neg fun h ↦ hdollar ⟨hd, h⟩]
        exact .quiet ⟨rfl, rfl, rfl, rfl, rfl⟩ rfl ⟨hin, hlevel⟩ (.of_end rfl rfl) rfl rfl
      · rw [if_neg hd]
        exact openToken_outcome hpt hold ⟨hin, hlevel⟩ hescape hmarker hd
    generalize hgen : (if c = dollarQuote then _ else openToken pt qp qb c) = opened
    obtain ⟨hout, hfinished⟩ := hopened opened hgen.symm
    have hchecked := checkToken_outcome (c := c) hout (hfin.orElse htoken hfinished) (by
      rintro rfl
      refine ⟨?_, rfl, rfl⟩
      have hopos : opened.2.1.opos = qp.opos := hout.opos
      rw [QueryParse.charAt, hout.same.statement, hopos]
      exact hc)
    split
    · exact hchecked
    · exact hchecked.append [c]

/-- A discarded parameter. -/
theorem discardParam_outcome (h : Outcome qp0 qb0 out qp qb) (hout : out.1 = .idle ∧ out.2.1 = 0)
    (hc : qp.charAt qp.opos = paramMarker) :
    IdleOutcome qp0 qb0 out (discardParam qp qb).1 (discardParam qp qb).2 := by
  rw [discardParam]
  split
  · split
    · exact Or.inl ⟨⟨h.same.statement, h.same.before, h.same.ccsc, h.same.ccst, h.same.conn⟩,
        h.opos, h.mode, h.token, h.resolved, h.ended⟩
    · split
      · simp only
        split
        · next hcomma =>
          set spaces := (qp.statement.drop (qp.opos + 1)).takeWhile isSpace with hspaces
          have hsplit : qp.statement.drop (qp.opos + 1) =
              spaces ++ (qp.statement.drop (qp.opos + 1)).dropWhile isSpace :=
            List.takeWhile_append_dropWhile.symm
          have hrest : (qp.statement.drop (qp.opos + 1)).dropWhile isSpace =
              comma :: ((qp.statement.drop (qp.opos + 1)).dropWhile isSpace).tail := by
            rw [QueryParse.charAt, List.getD_eq_getElem?_getD, ← List.getElem?_drop, hsplit,
              List.getElem?_append_right (Nat.le_refl _), Nat.sub_self] at hcomma
            cases hd : (qp.statement.drop (qp.opos + 1)).dropWhile isSpace with
            | nil =>
              rw [hd] at hcomma
              cases hcomma
            | cons d tail =>
              rw [hd] at hcomma
              obtain rfl : d = comma := hcomma
              rfl
          have hw : ∀ c ∈ spaces ++ [comma], isBlank c = true := by
            intro c hc
            rcases List.mem_append.1 hc with hc | hc
            · exact isBlank_of_isSpace (List.mem_takeWhile_imp hc)
            · rw [List.mem_singleton.1 hc]
              rfl
          have hlen : qp.opos + 1 + spaces.length = qp.opos + (spaces ++ [comma]).length := by
            rw [List.length_append, List.length_singleton]
            omega
          rw [hlen]
          refine Or.inr ⟨qp, qb, h, hout.1, hout.2, .of_opos h hout.1 hc (by decide) (by decide)
            ⟨((qp.statement.drop (qp.opos + 1)).dropWhile isSpace).tail, ?_⟩
            (blankRun_of_isBlank hw) rfl rfl rfl⟩
          rw [List.append_assoc, List.singleton_append, ← hrest]
          exact hsplit
        · exact Or.inl h
      · exact Or.inl h
  · exact Or.inl h

theorem namedNotation_eq (qp : QueryParse) (qb : TokenBuild) (ipara : Option IpdParam) :
    (namedNotation qp qb ipara).conn = qb.conn ∧
      (namedNotation qp qb ipara).resolved = qb.resolved ∧
      (namedNotation qp qb ipara).ended = qb.ended := by
  rw [namedNotation]
  split
  · split <;> exact ⟨rfl, rfl, rfl⟩
  · exact ⟨rfl, rfl, rfl⟩

theorem printParam_eq {hooks : TokenHooks} {paramNumber : Nat} {apara : Bool}
    {ipara : Option IpdParam} (h : printParam hooks qp qb paramNumber apara ipara = some qb') :
    qb'.conn = qb.conn ∧ qb'.resolved = qb.resolved ∧ qb'.ended = qb.ended := by
  have hnamed := namedNotation_eq qp qb ipara
  rw [printParam] at h
  split at h
  · cases h
    exact hnamed
  · split at h
    · cases h
      exact hnamed
    · obtain ⟨value, -, rfl⟩ := Option.map_eq_some_iff.1 h
      exact hnamed

/-- A marker. -/
theorem resolveOneParam_outcome {hooks : TokenHooks} {qp' : QueryParse}
    (hsame : SameText qp0 qb qp qb) (hopos : qp.opos = qp0.opos) (hmode : qp.InMode .idle)
    (htoken : qp.advance.TokenOk .idle) (hc : qp.charAt qp.opos = paramMarker)
    (h : TokenBuild.resolveOneParam hooks qp qb = some (qp', qb')) :
    IdleOutcome qp0 qb (.idle, 0, .marker) qp' qb' := by
  have hbase : ∀ qb' : TokenBuild, qb'.conn = qb.conn → qb'.resolved = qb.resolved ++ [qp.opos] →
      qb'.ended = qb.ended → Outcome qp0 qb (.idle, 0, .marker) qp qb' := by
    intro qb' hconn hres hend
    refine ⟨⟨hsame.statement, hsame.before, hsame.ccsc, hsame.ccst, hconn⟩, hopos, hmode, htoken,
      ?_, hend.trans (List.append_nil _).symm⟩
    rw [hres, hopos]
    rfl
  rw [TokenBuild.resolveOneParam] at h
  split at h
  · cases h
  · split at h
    · cases h
    · split at h
      · split at h
        · cases h
        · cases h
          exact Or.inl (hbase _ rfl rfl rfl)
      · split at h
        · cases h
        · split at h
          · have hdiscard := discardParam_outcome (hbase
              { qb with
                paramNumber := wrapInt 16 (qb.paramNumber + 1)
                resolved := qb.resolved ++ [qp.opos] } rfl rfl rfl) ⟨rfl, rfl⟩ hc
            rw [Option.some_inj.1 h] at hdiscard
            exact hdiscard
          · obtain ⟨qb1, hprint, heq⟩ := Option.map_eq_some_iff.1 h
            cases heq
            obtain ⟨hconn, hres, hend⟩ := printParam_eq hprint
            exact Or.inl (hbase _ hconn hres hend)

/-- The idle status. -/
theorem processIdle_outcome {hooks : TokenHooks} {qp' : QueryParse}
    (hpt : pt.curcharProcessed = false) (hfin : pt.ParenOk) (hold : qp.oldPtr = c :: rest)
    (hmode : qp.InMode .idle) (htoken : qp.TokenOk .idle)
    (hescape : ¬(c = odbcEscapeStart ∨ strnicmpEq (c :: rest) (ascii "@@identity")))
    (h : processIdle hooks pt qp qb c = some (qp', qb')) :
    IdleOutcome qp qb (lexIdle qp.ccsc 0 (ccGetEscape qb.conn) qp.prevChar c rest) qp' qb' := by
  have hc := qp.charAt_of_oldPtr hold
  obtain ⟨hbrace, hidentity⟩ := not_or.1 hescape
  rw [processIdle] at h
  by_cases hcr : qb.convertLf ∧ c = pgCarriageReturn ∧ qp.charAt (qp.opos + 1) = pgLinefeed
  · -- A carriage return before a linefeed is left out, and nothing else changes.
    rw [if_pos hcr] at h
    obtain ⟨-, rfl, hlf⟩ := hcr
    cases h
    rw [lexIdle, if_neg hescape]
    refine Or.inl (.quiet ⟨rfl, rfl, rfl, rfl, rfl⟩ rfl hmode ?_ rfl rfl)
    exact ⟨htoken.nonempty, fun hend hhead ↦ ⟨rfl, (htoken.paren hend hhead).2.1,
      Or.inr ⟨hc, hlf⟩⟩, htoken.quoted⟩
  · rw [if_neg hcr, if_neg hbrace] at h
    by_cases hend : c = odbcEscapeEnd
    · rw [if_pos hend] at h
      subst hend
      cases h
      rw [pt.tokenFinish_zero qp hpt, lexIdle, if_neg hescape]
      exact Or.inl (.quiet ⟨rfl, rfl, rfl, rfl, by rw [TokenBuild.endBrace]; split <;> rfl⟩ rfl
        hmode (.of_end rfl rfl) qb.endBrace_resolved qb.endBrace_ended)
    · rw [if_neg hend, if_neg (by rw [hold]; exact hidentity)] at h
      by_cases hmarker : c ≠ paramMarker
      · rw [if_pos hmarker] at h
        obtain ⟨hqp', hqb'⟩ := Prod.mk.inj (Option.some_inj.1 h)
        rw [← hqp', ← hqb']
        exact processPlain_outcome hpt hfin hold hmode htoken hescape hmarker
      · obtain rfl : c = paramMarker := not_not.1 hmarker
        rw [if_neg hmarker, pt.tokenRestart_eq qp hpt] at h
        rw [lexIdle, if_neg hescape]
        refine resolveOneParam_outcome ?_ ?_ ?_ ?_ ?_ h
        · exact ⟨rfl, rfl, rfl, rfl, rfl⟩
        · rfl
        · exact hmode
        · exact .of_start (c := paramMarker) rfl rfl fun h ↦ absurd h (by decide)
        · exact hc

end

/-! ## One call -/

section

variable {qp qp' qp1 : QueryParse} {qb qb' qb1 : TokenBuild} {s : LexState} {c : UInt8}
  {rest : List UInt8}

theorem headD_eq_of_ne_zero {c : UInt8} {rest : List UInt8} (h : rest.headD 0 = c) (hc : c ≠ 0) :
    1 ≤ rest.length := by
  cases rest with
  | nil => exact absurd h.symm hc
  | cons d rest => exact Nat.succ_pos _

/-- A symbol ends inside the text. -/
theorem lexIdle_skip_le {ccsc : CharSet} {opener : Nat} (hopener : opener ≤ 1)
    (escape prev : UInt8) :
    (lexIdle ccsc opener escape prev c rest).2.1 ≤ rest.length := by
  have htag := findTag_le ccsc c rest
  rw [List.length_cons] at htag
  rw [lexIdle]
  split
  · exact Nat.zero_le _
  · split
    · exact Nat.zero_le _
    · split
      · simp only
        split
        · exact Nat.sub_le_of_le_add htag
        · exact Nat.zero_le _
      · split
        · exact Nat.zero_le _
        · split
          · exact Nat.zero_le _
          · split
            · next hcomment =>
              exact Nat.le_trans hopener (headD_eq_of_ne_zero hcomment.2 (by decide))
            · split
              · next hline =>
                exact Nat.le_trans hopener (headD_eq_of_ne_zero hline.2 (by decide))
              · repeat' split
                all_goals exact Nat.zero_le _

theorem lexMode_skip_le {ccsc : CharSet} {opener : Nat} (hopener : opener ≤ 1)
    (escape prev : UInt8) (mode : Mode) :
    (lexMode ccsc opener escape prev c rest mode).2.1 ≤ rest.length := by
  cases mode with
  | idle => exact lexIdle_skip_le hopener escape prev
  | word =>
    rw [lexMode]
    split
    · exact Nat.zero_le _
    · exact lexIdle_skip_le hopener escape prev
  | escaped esc => exact Nat.zero_le _
  | dollar tag =>
    rw [lexMode]
    split
    · next h =>
      have hlen := congrArg List.length h.2
      rw [List.length_take, List.length_cons] at hlen
      exact Nat.sub_le_of_le_add (by omega)
    · exact Nat.zero_le _
  | literal esc | dquote | line =>
    rw [lexMode]
    repeat' split
    all_goals exact Nat.zero_le _
  | comment level =>
    simp only [lexMode]
    split_ifs with hopen hclose
    · exact headD_eq_of_ne_zero hopen.2 (by decide)
    · exact headD_eq_of_ne_zero hclose.2 (by decide)
    · exact headD_eq_of_ne_zero hclose.2 (by decide)
    · exact Nat.zero_le _

/-- Only the first bytes that have been taken are anything to the rules. -/
def RunsAs (first : List Event) (qp : QueryParse) (qb : TokenBuild) (s : LexState)
    (qp' : QueryParse) (qb' : TokenBuild) (s' : LexState) : Prop :=
  ∃ n, first.length + n = qp'.opos - qp.opos ∧
    lexEvents qp.ccsc 0 (ccGetEscape qb.conn) qp.prevChar s qp.oldPtr =
      (first ++ List.replicate n .other) ++
        lexEvents qp'.ccsc 0 (ccGetEscape qb'.conn) qp'.prevChar s' qp'.oldPtr

theorem RunsAs.append {first : List Event} {qp qp' qp'' : QueryParse} {qb qb' qb'' : TokenBuild}
    {s s' s'' : LexState} (h : RunsAs first qp qb s qp' qb' s') (hle : qp.opos ≤ qp'.opos)
    (h' : RunsAs [] qp' qb' s' qp'' qb'' s'') (hle' : qp'.opos ≤ qp''.opos) :
    RunsAs first qp qb s qp'' qb'' s'' := by
  obtain ⟨n, hn, heq⟩ := h
  obtain ⟨n', hn', heq'⟩ := h'
  rw [List.length_nil, Nat.zero_add] at hn'
  refine ⟨n + n', by omega, ?_⟩
  rw [heq, heq', List.nil_append, List.replicate_add, List.append_assoc, List.append_assoc,
    List.append_assoc]

/-- A symbol is taken as the rules say. -/
theorem Outcome.follows (hs : qp.Lexes s) (hold : qp.oldPtr = c :: rest)
    (hlt : qp.opos < qp.statement.length)
    (hascii : mbcsNonAscii (pgCSStat qp.ccst c qp.ccsc) c = false)
    (hsame : qp1.statement = qp.statement ∧ qp1.before = qp.before ∧ qp1.ccsc = qp.ccsc ∧
      qp1.opos = qp.opos ∧ qp1.ccst = 0)
    (hqb : qb1.conn = qb.conn ∧ qb1.resolved = qb.resolved ∧ qb1.ended = qb.ended)
    {out : Mode × Nat × Event}
    (hout : lexMode qp.ccsc 0 (ccGetEscape qb.conn) qp.prevChar c rest s.mode = out)
    (h : Outcome qp1 qb1 out qp' qb') :
    Follows qp qb s qp'.advance qb' ⟨0, out.1, 0⟩ ∧
      RunsAs [out.2.2] qp qb s qp'.advance qb' ⟨0, out.1, 0⟩ := by
  obtain ⟨hst, hbefore, hccsc, hopos, hccst⟩ := hsame
  obtain ⟨hconn, hres, hend⟩ := hqb
  have hskip : (lexMode qp.ccsc 0 (ccGetEscape qb.conn) qp.prevChar c rest s.mode).2.1 ≤
      rest.length := lexMode_skip_le (Nat.zero_le 1) _ _ _
  rw [hout] at hskip
  have hlen := congrArg List.length hold
  rw [QueryParse.oldPtr, List.length_drop, List.length_cons] at hlen
  have hpos : qp'.opos = qp.opos + out.2.1 := h.opos.trans (by rw [hopos])
  have hst' : qp'.advance.statement = qp.statement := h.same.statement.trans hst
  obtain ⟨ccst, mode, skip⟩ := s
  obtain rfl : skip = 0 := hs.skip
  obtain rfl : qp.ccst = ccst := hs.ccst
  -- The bytes of the symbol, behind its first one.
  obtain ⟨w, text, hrest, hw⟩ : ∃ w text, rest = w ++ text ∧ w.length = out.2.1 :=
    ⟨_, _, (List.take_append_drop out.2.1 rest).symm, List.length_take_of_le hskip⟩
  have hsplit : qp.oldPtr = (c :: w) ++ text := by rw [hold, hrest, List.cons_append]
  have hadvance : qp'.advance.opos = qp.opos + (c :: w).length := by
    change qp'.opos + 1 = _
    rw [hpos, List.length_cons, hw, Nat.add_assoc]
  have hprev := QueryParse.prevChar_of_append (List.cons_ne_nil c w) hsplit hst' hadvance
  have hptr := QueryParse.oldPtr_of_append hsplit hst' hadvance
  have hrun : lexEvents qp.ccsc 0 (ccGetEscape qb.conn) qp.prevChar ⟨qp.ccst, mode, 0⟩ qp.oldPtr =
      (out.2.2 :: List.replicate w.length .other) ++ lexEvents qp'.advance.ccsc 0
        (ccGetEscape qb'.conn) qp'.advance.prevChar ⟨0, out.1, 0⟩ qp'.advance.oldPtr := by
    have hccsc' : qp'.advance.ccsc = qp.ccsc := h.same.ccsc.trans hccsc
    rw [hold, lexEvents_cons, lexStep_ascii hascii, hout, hccsc', h.same.conn, hconn, hprev, hptr,
      List.getLastD_cons, hrest, ← hw, lexEvents_skip, List.cons_append]
  have htaken : (out.2.2 :: List.replicate w.length Event.other).length =
      qp'.advance.opos - qp.opos := by
    rw [hadvance, List.length_cons, List.length_cons, List.length_replicate]
    omega
  refine ⟨⟨hst', h.same.before.trans hbefore, h.same.ccsc.trans hccsc, h.same.conn.trans hconn,
    by omega, by rw [hadvance, List.length_cons]; omega, ⟨h.same.ccst.trans hccst, rfl, h.mode, h.token,
    fun _ ↦ rfl, fun _ h ↦ absurd rfl h⟩, _, htaken, hrun, ?_, ?_⟩, w.length, ?_, hrun⟩
  · rw [h.resolved, hres, hopos, eventsAt_symbol (by decide)]
  · rw [h.ended, hend, hopos, eventsAt_symbol (by decide)]
  · rw [← htaken, List.length_cons, List.length_nil, List.length_cons, List.length_replicate]
    exact Nat.add_comm _ _

/-- Where the statement ends at a semicolon, the rules are left idle. -/
theorem Outcome.behind (hqb : qb1.ended = qb.ended) {out : Mode × Nat × Event} {opener : Nat}
    {escape prev : UInt8} (hout : lexMode qp.ccsc opener escape prev c rest s.mode = out)
    (h : Outcome qp1 qb1 out qp' qb') (hended : qb'.ended ≠ qb.ended) :
    out = (.idle, 0, .delim) := by
  by_cases hdelim : out.2.2 = .delim
  · rw [← hout] at hdelim ⊢
    exact lexMode_delim hdelim
  · rw [h.ended, if_neg hdelim, List.append_nil, hqb] at hended
    exact absurd rfl hended

/-- The bytes behind a symbol leave the rules idle. -/
theorem SkipsTo.follows (h : SkipsTo qp qb qp' qb') (hccst : qp.ccst = 0)
    (hle : qp.advance.opos ≤ qp.statement.length) :
    Follows qp.advance qb ⟨0, .idle, 0⟩ qp'.advance qb' ⟨0, .idle, 0⟩ ∧
      RunsAs [] qp.advance qb ⟨0, .idle, 0⟩ qp'.advance qb' ⟨0, .idle, 0⟩ := by
  obtain ⟨w, hold, hpos, hw⟩ := h.skipped
  have hadvance : qp'.advance.opos = qp.advance.opos + w.length := by
    change qp'.opos + 1 = qp.opos + 1 + w.length
    rw [hpos, Nat.add_right_comm]
  have hlen := congrArg List.length hold
  rw [List.length_append, QueryParse.oldPtr, QueryParse.oldPtr, List.length_drop,
    List.length_drop] at hlen
  have hst : qp'.advance.statement = qp.advance.statement := h.same.statement
  have hprev : qp'.advance.prevChar = w.getLastD qp.advance.prevChar := by
    by_cases hne : w = []
    · subst hne
      have hopos : qp'.opos = qp.opos := hpos
      rw [QueryParse.prevChar_advance, QueryParse.prevChar_advance, QueryParse.charAt, hopos,
        h.same.statement]
      rfl
    · exact QueryParse.prevChar_of_append hne hold hst hadvance
  have hle' : qp'.advance.opos ≤ qp.advance.statement.length := by
    change qp.advance.opos ≤ qp.advance.statement.length at hle
    rw [hst] at hlen
    omega
  have hrun : lexEvents qp.advance.ccsc 0 (ccGetEscape qb.conn) qp.advance.prevChar ⟨0, .idle, 0⟩
      qp.advance.oldPtr = List.replicate w.length .other ++ lexEvents qp'.advance.ccsc 0
        (ccGetEscape qb'.conn) qp'.advance.prevChar ⟨0, .idle, 0⟩ qp'.advance.oldPtr := by
    have hccsc : qp'.advance.ccsc = qp.ccsc := h.same.ccsc
    have hrun := hw qp.advance.prevChar qp'.advance.oldPtr
    rw [← hold] at hrun
    rw [hccsc, h.same.conn, hprev]
    exact hrun
  have htaken : w.length = qp'.advance.opos - qp.advance.opos := by
    rw [hadvance, Nat.add_sub_cancel_left]
  refine ⟨⟨hst, h.same.before, h.same.ccsc, h.same.conn, by omega, hle',
    ⟨h.same.ccst.trans hccst, rfl, h.mode, h.token, fun _ ↦ rfl, fun h _ ↦ absurd rfl h⟩,
    _, (List.length_replicate ..).trans htaken, hrun, ?_, ?_⟩, w.length, ?_, hrun⟩
  · rw [h.resolved, eventsAt_replicate (by decide), List.append_nil]
  · rw [h.ended, eventsAt_replicate (by decide), List.append_nil]
  · rw [List.length_nil, Nat.zero_add, htaken]

/-- A call follows the rules, takes a byte at least, and leaves the rules idle behind a
semicolon. -/
structure Call (qp : QueryParse) (qb : TokenBuild) (s : LexState) (qp' : QueryParse)
    (qb' : TokenBuild) (s' : LexState) : Prop extends Follows qp qb s qp' qb' s' where
  lt : qp.opos < qp'.opos
  symbol : ∃ event, RunsAs [event] qp qb s qp' qb' s'
  behind : qb'.ended ≠ qb.ended → s' = ⟨0, .idle, 0⟩

/-- A byte of a multibyte character. -/
theorem nonAscii_follows (hs : qp.Lexes s) (hold : qp.oldPtr = c :: rest)
    (hlt : qp.opos < qp.statement.length)
    (hascii : mbcsNonAscii (pgCSStat qp.ccst c qp.ccsc) c = true)
    (hsame : qp'.statement = qp.statement ∧ qp'.before = qp.before ∧ qp'.ccsc = qp.ccsc ∧
      qp'.opos = qp.opos ∧ qp'.ccst = pgCSStat qp.ccst c qp.ccsc)
    (hqb : qb'.conn = qb.conn ∧ qb'.resolved = qb.resolved ∧ qb'.ended = qb.ended)
    (hmode : qp'.InMode (if s.mode = .idle then .word else s.mode))
    (htoken : qp'.advance.TokenOk (if s.mode = .idle then .word else s.mode))
    (hinside : qp'.prevTokenEnd = false ∨ qp'.tokenCurr = []) :
    ∃ s', Call qp qb s qp'.advance qb' s' := by
  obtain ⟨hst, hbefore, hccsc, hopos, hccst⟩ := hsame
  obtain ⟨hconn, hres, hend⟩ := hqb
  obtain ⟨ccst, mode, skip⟩ := s
  obtain rfl : skip = 0 := hs.skip
  obtain rfl : qp.ccst = ccst := hs.ccst
  have hadvance : qp'.advance.opos = qp.opos + [c].length := by
    change qp'.opos + 1 = _
    rw [hopos, List.length_singleton]
  have hsplit : qp.oldPtr = [c] ++ rest := hold
  have hst' : qp'.advance.statement = qp.statement := hst
  have hprev := QueryParse.prevChar_of_append (List.cons_ne_nil c []) hsplit hst' hadvance
  have hptr := QueryParse.oldPtr_of_append hsplit hst' hadvance
  refine ⟨⟨pgCSStat qp.ccst c qp.ccsc, if mode = .idle then .word else mode, 0⟩,
    ⟨hst, hbefore, hccsc, hconn, by omega, by rw [hadvance, List.length_singleton]; omega,
    ⟨hccst, rfl, hmode, htoken, fun h ↦ ?_, fun _ _ ↦ hinside⟩, ⟨[.other], ?_, ?_, ?_, ?_⟩⟩,
    hadvance ▸ Nat.lt_succ_self _, ⟨.other, 0, ?_, ?_⟩, fun h ↦ absurd hend h⟩
  · by_cases hm : mode = .idle
    · rw [if_pos hm] at h
      cases h
    · rw [if_neg hm] at h
      exact absurd h hm
  · rw [hadvance, Nat.add_sub_cancel_left]
    rfl
  · have hccsc' : qp'.advance.ccsc = qp.ccsc := hccsc
    rw [hold, lexEvents_cons, lexStep_nonAscii hascii, hprev, hptr, hconn, hccsc']
    rfl
  · rw [hres]
    exact (List.append_nil _).symm
  · rw [hend]
    exact (List.append_nil _).symm
  · rw [hadvance, Nat.add_sub_cancel_left]
    rfl
  · have hccsc' : qp'.advance.ccsc = qp.ccsc := hccsc
    rw [hold, lexEvents_cons, lexStep_nonAscii hascii, hprev, hptr, hconn, hccsc']
    rfl

theorem appendBestitem_eq (qb : TokenBuild) : qb.appendBestitem.conn = qb.conn ∧
    qb.appendBestitem.resolved = qb.resolved ∧ qb.appendBestitem.ended = qb.ended := by
  rw [TokenBuild.appendBestitem]
  split <;> exact ⟨rfl, rfl, rfl⟩

/-- The text of a keyset has nothing to do with the markers. -/
theorem keysetText_eq {opos : Int} (h : keysetText qp qb opos = some qb') :
    qb'.conn = qb.conn ∧ qb'.resolved = qb.resolved ∧ qb'.ended = qb.ended := by
  rw [keysetText] at h
  split at h
  · split at h
    · cases h
      exact appendBestitem_eq (qb.appendData _)
    · cases h
  · split at h
    · cases h
      exact appendBestitem_eq (qb.appendData _)
    · cases h
      exact ⟨rfl, rfl, rfl⟩

/-- Tokens and the walk have nothing to do with the mode. -/
theorem QueryParse.InMode.withToken {mode : Mode} (h : qp.InMode mode) (ccst : Nat) (e : Bool)
    (t : List UInt8) :
    ({ qp with ccst := ccst, prevTokenEnd := e, tokenCurr := t } : QueryParse).InMode mode :=
  h.congr rfl rfl rfl rfl rfl rfl

theorem QueryParse.InMode.idle_iff {mode : Mode} (h : qp.InMode mode) :
    qp.inStatus.idle = true ↔ mode = .idle := by
  cases mode <;> simp [QueryParse.InMode, InStatus.idle] at * <;> simp [h]

theorem QueryParse.InMode.word_iff {mode : Mode} (h : qp.InMode mode) :
    qp.inStatus.identKeyword = true ↔ mode = .word := by
  cases mode <;> simp [QueryParse.InMode] at * <;> simp [h]

/-- A byte of a multibyte character is no ASCII byte where the walk is between characters. -/
theorem le_of_nonAscii {ccsc : CharSet} (h : mbcsNonAscii (pgCSStat 0 c ccsc) c = true) :
    0x80 ≤ c := by
  by_contra hc
  have hlt := UInt8.not_le.1 hc
  rw [pgCSStat_ascii (settled_zero ccsc) hlt, mbcsNonAscii_eq_false.2 ⟨rfl, hlt⟩] at h
  cases h

theorem isNotSpace_of_high (h : 0x80 ≤ c) : isNotSpace c = true := by
  cases hs : isSpace c with
  | true => exact absurd (isSpace_lt hs) (UInt8.not_lt.2 h)
  | false =>
    rw [isNotSpace, hs]
    have hne : c ≠ 0 := by
      rintro rfl
      exact absurd h (by decide)
    simp [hne]

/-- A token that goes on in a mode that is not idle. -/
theorem QueryParse.TokenOk.head_continued {mode : Mode} {t : List UInt8} (h : qp.TokenOk mode)
    (hidle : mode ≠ .idle) (hc : qp.prevTokenEnd = true → c ≠ leftParen)
    (hhead : t.head? = ((if qp.prevTokenEnd then [] else qp.tokenCurr) ++ [c]).head?) :
    t.head? ≠ some leftParen := by
  rw [hhead]
  cases hend : qp.prevTokenEnd with
  | true =>
    rw [if_pos rfl, List.nil_append, List.head?_cons, ne_eq, Option.some_inj]
    exact hc hend
  | false =>
    rw [if_neg Bool.false_ne_true, List.head?_append_of_ne_nil _ (h.nonempty hend)]
    exact fun hparen ↦ hidle (h.paren hend hparen).1

/-- A byte of a multibyte character, in the loop. -/
theorem processNonAscii_follows (hs : qp.Lexes s) (hold : qp.oldPtr = c :: rest)
    (hlt : qp.opos < qp.statement.length)
    (hascii : mbcsNonAscii (pgCSStat qp.ccst c qp.ccsc) c = true)
    (hqb : qb'.conn = qb.conn ∧ qb'.resolved = qb.resolved ∧ qb'.ended = qb.ended)
    (hqp : qp1 = { qp with ccst := pgCSStat qp.ccst c qp.ccsc })
    (hqp' : qp' =
      if qp1.inStatus.idle then
        { (ptInitialize.tokenRestart qp1 c).2 with inStatus := { identKeyword := true } }
      else if qp1.tokenCurr ≠ [] then (ptInitialize.tokenContinue qp1 c).2
      else qp1) :
    ∃ s', Call qp qb s qp'.advance qb' s' := by
  have hidle := hs.mode.idle_iff
  by_cases hm : s.mode = .idle
  · have hhigh : 0x80 ≤ c := by
      rw [hs.ccst, hs.settled hm] at hascii
      exact le_of_nonAscii hascii
    have hns := isNotSpace_of_high hhigh
    have hne : c ≠ leftParen := by
      rintro rfl
      exact absurd hhigh (by decide)
    have hmode := hs.mode
    rw [hm] at hmode
    rw [if_pos (by rw [hqp]; exact hidle.2 hm), ptInitialize.tokenRestart_eq qp1 rfl, hns] at hqp'
    subst hqp hqp'
    refine nonAscii_follows hs hold hlt hascii ⟨rfl, rfl, rfl, rfl, rfl⟩ hqb ?_ ?_ (Or.inl rfl)
    · rw [if_pos hm]
      exact ⟨rfl, hmode.2⟩
    · exact .of_start (c := c) rfl rfl fun h ↦ absurd h hne
  · rw [if_neg (by rw [hqp]; exact fun h ↦ hm (hidle.1 h))] at hqp'
    by_cases hcurr : qp1.tokenCurr = []
    · rw [if_neg (not_not.2 hcurr)] at hqp'
      subst hqp' hqp
      refine nonAscii_follows hs hold hlt hascii ⟨rfl, rfl, rfl, rfl, rfl⟩ hqb ?_ ?_ (Or.inr hcurr)
      · rw [if_neg hm]
        exact hs.mode.withToken _ _ _
      · rw [if_neg hm]
        exact hs.token.stay hm rfl rfl id
    · obtain ⟨t, hcont, hne, hhead⟩ := ptInitialize.tokenContinue_eq qp1 rfl c
      rw [if_pos hcurr, hcont] at hqp'
      subst hqp' hqp
      have hc : qp.prevTokenEnd = true → c ≠ leftParen := by
        rintro hend rfl
        -- A trail byte goes on with a token that its lead byte has begun.
        by_cases h0 : qp.ccst = 0
        · rw [h0] at hascii
          exact absurd (le_of_nonAscii hascii) (by decide)
        · rcases hs.inside hm (hs.ccst ▸ h0) with h | h
          · rw [hend] at h
            cases h
          · exact hcurr h
      refine nonAscii_follows hs hold hlt hascii ⟨rfl, rfl, rfl, rfl, rfl⟩ hqb ?_ ?_ (Or.inl rfl)
      · rw [if_neg hm]
        exact hs.mode.withToken _ _ _
      · exact .of_head rfl hne (hs.token.head_continued hm hc hhead)

/-- What was taken outside of quotes and comments. -/
theorem IdleOutcome.follows (hs : qp.Lexes s) (hold : qp.oldPtr = c :: rest)
    (hlt : qp.opos < qp.statement.length)
    (hascii : mbcsNonAscii (pgCSStat qp.ccst c qp.ccsc) c = false)
    (hsame : qp1.statement = qp.statement ∧ qp1.before = qp.before ∧ qp1.ccsc = qp.ccsc ∧
      qp1.opos = qp.opos ∧ qp1.ccst = 0)
    (hqb : qb1.conn = qb.conn ∧ qb1.resolved = qb.resolved ∧ qb1.ended = qb.ended)
    {out : Mode × Nat × Event}
    (hout : lexMode qp.ccsc 0 (ccGetEscape qb.conn) qp.prevChar c rest s.mode = out)
    (h : IdleOutcome qp1 qb1 out qp' qb') :
    ∃ s', Call qp qb s qp'.advance qb' s' := by
  rcases h with h | ⟨qp2, qb2, h, hmode, hskip, hskips⟩
  · obtain ⟨hfollows, hruns⟩ := h.follows hs hold hlt hascii hsame hqb hout
    refine ⟨_, hfollows, ?_, ⟨_, hruns⟩, fun hended ↦ ?_⟩
    · have hopos := h.opos
      rw [hsame.2.2.2.1] at hopos
      exact Nat.lt_succ_of_le (hopos ▸ Nat.le_add_right _ _)
    · rw [h.behind hqb.2.2 hout hended]
  · obtain ⟨hfollows, hruns⟩ := h.follows hs hold hlt hascii hsame hqb hout
    rw [hmode] at hfollows hruns
    have hle := hfollows.le_length
    rw [← hfollows.statement] at hle
    obtain ⟨hrest, hskipped⟩ := hskips.follows (h.same.ccst.trans hsame.2.2.2.2) hle
    refine ⟨_, hfollows.trans hrest, Nat.lt_of_lt_of_le ?_ hrest.le,
      ⟨_, hruns.append hfollows.le hskipped hrest.le⟩, fun _ ↦ rfl⟩
    have hopos := h.opos
    rw [hsame.2.2.2.1] at hopos
    exact Nat.lt_succ_of_le (hopos ▸ Nat.le_add_right _ _)

/-- A byte outside of quotes and comments, in the loop. -/
theorem processIdle_follows {hooks : TokenHooks} {pt : ParseToken} (hs : qp.Lexes s)
    (hold : qp.oldPtr = c :: rest) (hlt : qp.opos < qp.statement.length)
    (hascii : mbcsNonAscii (pgCSStat qp.ccst c qp.ccsc) c = false)
    (hmode : s.mode = .idle ∨ s.mode = .word ∧ isWordChar c = false)
    (hescape : (lexMode qp.ccsc 0 (ccGetEscape qb.conn) qp.prevChar c rest s.mode).2.2 ≠ .escape)
    (hpt : pt.curcharProcessed = false) (hfin : pt.ParenOk)
    (hsame : qp1.statement = qp.statement ∧ qp1.before = qp.before ∧ qp1.ccsc = qp.ccsc ∧
      qp1.opos = qp.opos ∧ qp1.ccst = 0)
    (hin : qp1.InMode .idle) (htoken : qp1.TokenOk .idle)
    (hqb : qb1.conn = qb.conn ∧ qb1.resolved = qb.resolved ∧ qb1.ended = qb.ended)
    (h : processIdle hooks pt qp1 qb1 c = some (qp', qb')) :
    ∃ s', Call qp qb s qp'.advance qb' s' := by
  have hold1 : qp1.oldPtr = qp.oldPtr := by
    rw [QueryParse.oldPtr, QueryParse.oldPtr, hsame.1, hsame.2.2.2.1]
  have hprev1 : qp1.prevChar = qp.prevChar := by
    rw [QueryParse.prevChar, QueryParse.prevChar, QueryParse.charAt, QueryParse.charAt, hsame.1,
      hsame.2.1, hsame.2.2.2.1]
  have hout : lexMode qp.ccsc 0 (ccGetEscape qb.conn) qp.prevChar c rest s.mode =
      lexIdle qp.ccsc 0 (ccGetEscape qb.conn) qp.prevChar c rest := by
    rcases hmode with hm | ⟨hm, hc⟩
    · rw [hm, lexMode]
    · rw [hm, lexMode, if_neg (by rw [hc]; exact Bool.false_ne_true)]
  have hnone : ¬(c = odbcEscapeStart ∨ strnicmpEq (c :: rest) (ascii "@@identity")) := by
    intro hc
    rw [hout, lexIdle, if_pos hc] at hescape
    exact hescape rfl
  have hidle := processIdle_outcome hpt hfin (hold1.trans hold) hin htoken hnone h
  rw [hsame.2.2.1, hqb.1, hprev1] at hidle
  exact hidle.follows hs hold hlt hascii hsame hqb hout

/-- Every call follows the rules, outside of ODBC escapes. -/
theorem innerProcessTokens_follows {hooks : TokenHooks} (hs : qp.Lexes s)
    (hold : qp.oldPtr = c :: rest)
    (hescape : (lexStep qp.ccsc 0 (ccGetEscape qb.conn) qp.prevChar c rest s).2 ≠ .escape)
    (h : innerProcessTokens hooks qp qb = some (qp', qb')) :
    ∃ s', Call qp qb s qp'.advance qb' s' := by
  have hlt : qp.opos < qp.statement.length := by
    have hlen := congrArg List.length hold
    rw [QueryParse.oldPtr, List.length_drop, List.length_cons] at hlen
    omega
  rw [innerProcessTokens] at h
  simp only [qp.charAt_of_oldPtr hold] at h
  split at h
  · cases h
  obtain ⟨qb1, hkey, h⟩ := Option.bind_eq_some_iff.1 h
  have hqb := keysetText_eq hkey
  by_cases hascii : mbcsNonAscii (pgCSStat qp.ccst c qp.ccsc) c = true
  · rw [if_pos hascii] at h
    cases h
    exact processNonAscii_follows hs hold hlt hascii hqb rfl rfl
  rw [if_neg hascii] at h
  rw [Bool.not_eq_true] at hascii
  have h0 := (mbcsNonAscii_eq_false.1 hascii).1
  obtain ⟨ccst, mode, skip⟩ := s
  obtain rfl : skip = 0 := hs.skip
  obtain rfl : qp.ccst = ccst := hs.ccst
  rw [lexStep_ascii hascii] at hescape
  have hmode := hs.mode
  by_cases hw : mode = .word
  · subst hw
    have hnoparen : ∀ token, qp.openToken? = some token → token.head? ≠ some leftParen := by
      intro token htoken hhead
      rw [QueryParse.openToken?] at htoken
      split at htoken
      · cases htoken
      · next hend =>
        rw [Bool.not_eq_true] at hend
        cases htoken
        cases (hs.token.paren hend hhead).1
    by_cases hc : isWordChar c = true
    · -- The word goes on.
      have hchar : isAlnum c ∨ c = dollarQuote ∨ c = underscore := by
        rw [isWordChar, Bool.or_eq_true, Bool.or_eq_true, decide_eq_true_eq,
          decide_eq_true_eq, or_assoc] at hc
        exact hc
      rw [if_pos ⟨hmode.word_iff.2 rfl, hchar⟩] at h
      obtain ⟨t, hcont, hne, hhead⟩ := ptInitialize.tokenContinue_eq
        { qp with ccst := pgCSStat qp.ccst c qp.ccsc } rfl c
      rw [hcont] at h
      cases h
      have hout : Outcome { qp with ccst := pgCSStat qp.ccst c qp.ccsc } qb1 (.word, 0, .other)
          { qp with ccst := pgCSStat qp.ccst c qp.ccsc, prevTokenEnd := false, tokenCurr := t }
          (qb1.appendData [c]) := by
        refine .quiet ⟨rfl, rfl, rfl, rfl, rfl⟩ rfl hmode (.of_head rfl hne ?_) rfl rfl
        refine hs.token.head_continued (c := c) Mode.noConfusion (fun _ h ↦ ?_) hhead
        rw [h] at hc
        exact absurd hc (by decide)
      refine IdleOutcome.follows hs hold hlt hascii ?_ hqb ?_ (Or.inl hout)
      · exact ⟨rfl, rfl, rfl, rfl, h0⟩
      · rw [lexMode, if_pos hc]
    · have hchar : ¬(qp.inStatus.identKeyword = true ∧
          (isAlnum c ∨ c = dollarQuote ∨ c = underscore)) := by
        rintro ⟨-, h⟩
        rw [isWordChar, Bool.or_eq_true, Bool.or_eq_true, decide_eq_true_eq,
          decide_eq_true_eq, or_assoc] at hc
        exact hc h
      rw [if_neg hchar, if_pos (hmode.word_iff.2 rfl), ptInitialize.tokenFinish_zero _ rfl] at h
      rw [if_pos (by rw [hmode.1]; rfl)] at h
      have hc' : isWordChar c = false := Bool.not_eq_true _ ▸ hc
      refine processIdle_follows hs hold hlt hascii (Or.inr ⟨rfl, hc'⟩) hescape rfl
        ?_ ?_ ?_ ?_ hqb h
      · intro token htoken hhead
        have hfinished : (qp.openToken? <|> none) = some token := htoken
        exact absurd hhead (hnoparen token (by simpa using hfinished))
      · exact ⟨rfl, rfl, rfl, rfl, h0⟩
      · exact ⟨by rw [hmode.1], hmode.2⟩
      · exact .of_end rfl rfl
  · have hkeyword : qp.inStatus.identKeyword = false := by
      rw [← Bool.not_eq_true, hmode.word_iff]
      exact hw
    simp only [hkeyword, Bool.false_eq_true, false_and, if_false] at h
    have hmode' := hmode.withToken (pgCSStat qp.ccst c qp.ccsc) qp.prevTokenEnd qp.tokenCurr
    have htoken' : QueryParse.TokenOk { qp with ccst := pgCSStat qp.ccst c qp.ccsc } mode :=
      ⟨hs.token.nonempty, hs.token.paren, hs.token.quoted⟩
    by_cases hm : mode = .idle
    · subst hm
      rw [if_pos (hmode.idle_iff.2 rfl)] at h
      refine processIdle_follows hs hold hlt hascii (Or.inl rfl) hescape rfl
        ?_ ?_ hmode' htoken' hqb h
      · intro token htoken
        cases htoken
      · exact ⟨rfl, rfl, rfl, rfl, h0⟩
    · rw [if_neg fun h ↦ hm (hmode.idle_iff.1 h)] at h
      have hquoted := @processQuoted_outcome { qp with ccst := pgCSStat qp.ccst c qp.ccsc } qb1
        _ _ mode ptInitialize rfl 0 (ccGetEscape qb.conn) qp.prevChar hold hmode' htoken' hm hw
      rw [Option.some_inj.1 h] at hquoted
      refine IdleOutcome.follows hs hold hlt hascii ?_ hqb rfl (Or.inl hquoted)
      exact ⟨rfl, rfl, rfl, rfl, h0⟩

/-! ## The loop -/

/-- Nothing in the rest of the text is replaced by the driver. -/
def NoEscapes (qp : QueryParse) (qb : TokenBuild) (s : LexState) : Prop :=
  .escape ∉ lexEvents qp.ccsc 0 (ccGetEscape qb.conn) qp.prevChar s qp.oldPtr

theorem NoEscapes.of_follows (h : NoEscapes qp qb s) {s' : LexState}
    (hf : Follows qp qb s qp' qb' s') : NoEscapes qp' qb' s' := by
  obtain ⟨events, -, heq, -, -⟩ := hf.events
  intro hmem
  rw [NoEscapes, heq] at h
  exact h (List.mem_append_right _ hmem)

theorem Follows.refl (hs : qp.Lexes s) (hle : qp.opos ≤ qp.statement.length) :
    Follows qp qb s qp qb s :=
  ⟨rfl, rfl, rfl, rfl, Nat.le_refl _, hle, hs, [], (Nat.sub_self _).symm, rfl,
    (List.append_nil _).symm, (List.append_nil _).symm⟩

/-- A call of the loop. -/
theorem NoEscapes.call {hooks : TokenHooks} (hs : qp.Lexes s) (hnone : NoEscapes qp qb s)
    (hlt : qp.opos < qp.statement.length)
    (h : innerProcessTokens hooks qp qb = some (qp', qb')) :
    ∃ s', Call qp qb s qp'.advance qb' s' := by
  cases hold : qp.oldPtr with
  | nil => exact absurd (List.drop_eq_nil_iff.1 hold) (Nat.not_le.2 hlt)
  | cons c rest =>
    refine innerProcessTokens_follows hs hold ?_ h
    rw [NoEscapes, hold, lexEvents_cons] at hnone
    exact fun h ↦ hnone (h ▸ List.mem_cons_self)

/-- Every state the loop gets to follows the rules. -/
theorem Reaches.follows {hooks : TokenHooks} {qp0 : QueryParse} {qb0 : TokenBuild}
    {s0 : LexState} (hs : qp0.Lexes s0) (hle : qp0.opos ≤ qp0.statement.length)
    (hnone : NoEscapes qp0 qb0 s0) (h : Reaches hooks qp0 qb0 qp qb) :
    ∃ s, Follows qp0 qb0 s0 qp qb s := by
  induction h with
  | start => exact ⟨s0, .refl hs hle⟩
  | step _ hlt hcall ih =>
    obtain ⟨s, hf⟩ := ih
    obtain ⟨s', hf'⟩ := (hnone.of_follows hf).call hf.lexes hlt hcall
    exact ⟨s', hf.trans hf'.toFollows⟩

theorem mem_eventsAt {event : Event} {offset i : Nat} {events : List Event}
    (h : i ∈ eventsAt event offset events) : offset ≤ i ∧ i < offset + events.length := by
  induction events generalizing offset with
  | nil => cases h
  | cons e events ih =>
    rw [eventsAt] at h
    rw [List.length_cons]
    split at h
    · rcases List.mem_cons.1 h with rfl | h
      · exact ⟨Nat.le_refl _, by omega⟩
      · obtain ⟨h1, h2⟩ := ih h
        exact ⟨by omega, by omega⟩
    · obtain ⟨h1, h2⟩ := ih h
      exact ⟨by omega, by omega⟩

/-- Behind a semicolon the rules are idle. -/
theorem Reaches.behind {hooks : TokenHooks} {qp0 : QueryParse} {qb0 : TokenBuild}
    {s0 : LexState} (hs : qp0.Lexes s0) (hle : qp0.opos ≤ qp0.statement.length)
    (hnone : NoEscapes qp0 qb0 s0) (h : Reaches hooks qp0 qb0 qp qb) (hpos : 0 < qp.opos)
    (hstart : qb0.ended = []) (hended : qp.opos - 1 ∈ qb.ended) : qp.Lexes ⟨0, .idle, 0⟩ := by
  cases h with
  | start =>
    rw [hstart] at hended
    cases hended
  | @step qp1 _ qb1 _ h hlt hcall =>
    obtain ⟨s, hf⟩ := h.follows hs hle hnone
    obtain ⟨s', hf'⟩ := (hnone.of_follows hf).call hf.lexes hlt hcall
    by_cases hsame : qb.ended = qb1.ended
    · -- The semicolons found before are in front of the bytes of this call.
      obtain ⟨events, hlen, -, -, heq⟩ := hf.events
      rw [hsame, heq, hstart, List.nil_append] at hended
      have hlt' := (mem_eventsAt hended).2
      have hle' := hf.le
      have hcall' := hf'.lt
      omega
    · rw [← hf'.behind hsame]
      exact hf'.lexes

/-- At the end of the loop, all the markers and semicolons of the text have been found. -/
theorem Follows.all {s' : LexState} (h : Follows qp qb s qp' qb' s')
    (hend : qp'.statement.length ≤ qp'.opos) :
    qb'.resolved = qb.resolved ++ eventsAt .marker qp.opos
      (lexEvents qp.ccsc 0 (ccGetEscape qb.conn) qp.prevChar s qp.oldPtr) ∧
    qb'.ended = qb.ended ++ eventsAt .delim qp.opos
      (lexEvents qp.ccsc 0 (ccGetEscape qb.conn) qp.prevChar s qp.oldPtr) := by
  obtain ⟨events, -, heq, hres, hended⟩ := h.events
  have hnil : qp'.oldPtr = [] := List.drop_eq_nil_of_le hend
  rw [hnil, lexEvents, List.append_nil] at heq
  rw [heq]
  exact ⟨hres, hended⟩

end

end PsqlOdbc
