import PsqlOdbc.Convert.Escape

/-!
# The arguments of a function escape

`processParameters` rewrites the arguments and writes down where each of them begins and ends in
the new text.  It looks at the character the cursor stands on behind each call of
`inner_process_tokens`, and takes a comma or a parenthesis there for the last byte of the text.
-/

namespace PsqlOdbc

/-! ## The calls -/

/-- A call: the character behind it, outside of quotes and of multibyte characters, and the text it
has put in. -/
abbrev ArgCall := Option UInt8 × List UInt8

/-- The character `processParameters` looks at. -/
def seenChar (qp qp' : QueryParse) : Option UInt8 :=
  if mbcsNonAscii (pgCSStat qp.ccst qp.oldChar qp.ccsc) qp.oldChar ∨ !qp'.inStatus.idle then none
  else some qp'.oldChar

/-- Calls that only put text behind the text there is, and do not move the cursor back. -/
inductive Appends (hooks : TokenHooks) :
    QueryParse → TokenBuild → List ArgCall → QueryParse → TokenBuild → Prop
  | done (qp : QueryParse) (qb : TokenBuild) : Appends hooks qp qb [] qp qb
  | call {qp qp' qp'' : QueryParse} {qb qb' qb'' : TokenBuild} {calls : List ArgCall}
      (text : List UInt8) (hlt : qp.opos < qp.statement.length)
      (hcall : innerProcessTokens hooks qp qb = some (qp', qb'))
      (hsame : qp'.statement = qp.statement) (hle : qp.opos ≤ qp'.opos)
      (htext : qb'.queryStatement = qb.queryStatement ++ text)
      (rest : Appends hooks qp'.next qb' calls qp'' qb'') :
      Appends hooks qp qb ((seenChar qp qp', text) :: calls) qp'' qb''

/-- The loop over such calls; no result where it stops. -/
def ParamScan.seeCalls : ParamScan → Nat → List ArgCall → Option ParamScan
  | ps, _, [] => some ps
  | ps, newPos, (none, text) :: calls => ps.seeCalls (newPos + text.length) calls
  | ps, newPos, (some c, text) :: calls =>
    let seen := ps.see c (newPos + text.length)
    if seen.2 then none else seen.1.seeCalls (newPos + text.length) calls

/-- The arguments, between the commas outside of inner parentheses.  No result if the inner
parentheses do not match. -/
def splitArgs : Nat → List UInt8 → List ArgCall → Option (List (List UInt8))
  | depth, arg, [] => if depth = 0 then some [arg] else none
  | depth, arg, (seen, text) :: calls =>
    if seen = some comma ∧ depth = 0 then (splitArgs 0 [] calls).map (arg :: ·)
    else if seen = some leftParen then splitArgs (depth + 1) (arg ++ text) calls
    else if seen = some rightParen then
      if depth = 0 then none else splitArgs (depth - 1) (arg ++ text) calls
    else splitArgs depth (arg ++ text) calls

/-- A function with its arguments: the cursor is on the parenthesis in front of them. -/
structure FnArguments (hooks : TokenHooks) (qp : QueryParse) (qb : TokenBuild) where
  /-- The calls between the parentheses. -/
  body : List ArgCall
  /-- The calls between the closing parenthesis and the brace. -/
  tail : List ArgCall
  args : List (List UInt8)
  qpEnd : QueryParse
  qbEnd : TokenBuild
  qpLast : QueryParse
  qbLast : TokenBuild
  lastText : List UInt8
  opened : qp.oldChar = leftParen
  empty : qb.queryStatement = []
  appends : Appends hooks qp qb
    ((some leftParen, [leftParen]) :: (body ++ (some rightParen, [rightParen]) :: tail)) qpEnd qbEnd
  lt : qpEnd.opos < qpEnd.statement.length
  /-- The brace. -/
  last : innerProcessTokens hooks qpEnd qbEnd = some (qpLast, qbLast)
  last_seen : seenChar qpEnd qpLast = some odbcEscapeEnd
  last_text : qbLast.queryStatement = qbEnd.queryStatement ++ lastText
  split : splitArgs 0 [] body = some args
  /-- The cursor gets onto a comma only where the comma is copied. -/
  copied : ∀ call ∈ body, call.1 = some comma → call.2 = [comma]
  tail_plain : ∀ call ∈ tail,
    call.1 ≠ some leftParen ∧ call.1 ≠ some rightParen ∧ call.1 ≠ some odbcEscapeEnd

/-! ## Ranges -/

/-- The bytes of a range are `arg`, and stay so when text is put behind. -/
structure IsRange (text : List UInt8) (range : Int × Int) (arg : List UInt8) : Prop where
  nonneg : 0 ≤ range.1
  lt : range.2 < text.length
  slice : sliceData text range = arg

/-- What has been written down where `args` are behind the cursor and `arg` has been begun. -/
structure Recorded (text : List UInt8) (ps : ParamScan) (args : List (List UInt8))
    (arg : List UInt8) (depth : Nat) : Prop where
  inner : ps.innerParenthesis = depth + 1
  count : ps.paramCount = args.length
  length : ps.paramPos.length = args.length + 1
  ranges : ∀ (k : Nat) a, args[k]? = some a →
    ∃ range, ps.paramPos[k]? = some range ∧ IsRange text range a
  begun : ∃ start : Nat, ps.paramPos[args.length]? = some ((start : Int), -1) ∧ 0 < start ∧
    start ≤ text.length ∧ text.drop start = arg
  whole : text = leftParen :: (args.flatMap (· ++ [comma]) ++ arg)

section

variable {hooks : TokenHooks} {qp qp' : QueryParse} {qb qb' : TokenBuild} {calls : List ArgCall}
  {ps ps' : ParamScan} {text arg more : List UInt8} {args : List (List UInt8)} {depth : Nat}
  {range : Int × Int}

theorem intercalate_concat (c : UInt8) (args : List (List UInt8)) (arg : List UInt8) :
    [c].intercalate (args ++ [arg]) = args.flatMap (· ++ [c]) ++ arg := by
  induction args with
  | nil => exact List.intercalate_singleton
  | cons a args ih =>
    obtain ⟨b, rest, hrest⟩ : ∃ b rest, args ++ [arg] = b :: rest :=
      List.exists_cons_of_ne_nil (List.append_ne_nil_of_right_ne_nil _ (List.cons_ne_nil _ _))
    rw [List.cons_append, hrest, List.intercalate_cons_cons, ← hrest, ih, List.flatMap_cons,
      List.append_assoc, List.append_assoc, List.append_assoc]

/-! ## The loop -/

theorem Appends.text_eq (h : Appends hooks qp qb calls qp' qb') :
    qb'.queryStatement = qb.queryStatement ++ calls.flatMap (·.2) := by
  induction h with
  | done => rw [List.flatMap_nil, List.append_nil]
  | call text hlt hcall hsame hle htext rest ih =>
    rw [ih, htext, List.flatMap_cons, List.append_assoc]

theorem Appends.opos_le (h : Appends hooks qp qb calls qp' qb') :
    qp'.statement = qp.statement ∧ qp.opos + calls.length ≤ qp'.opos := by
  induction h with
  | done => exact ⟨rfl, le_rfl⟩
  | @call qp qp1 qp'' qb qb1 qb'' calls text hlt hcall hsame hle htext rest ih =>
    refine ⟨ih.1.trans hsame, ?_⟩
    have hnext : qp1.opos + 1 + calls.length ≤ qp''.opos := ih.2
    rw [List.length_cons]
    omega

/-- The loop goes through calls behind which it does not stop. -/
theorem Appends.loop (h : Appends hooks qp qb calls qp' qb') (fuel : Nat)
    (hsee : ps.seeCalls qb.npos calls = some ps') :
    processParametersLoop hooks (calls.length + fuel) qp qb ps =
      processParametersLoop hooks fuel qp' qb' ps' := by
  induction h generalizing ps with
  | done =>
    obtain rfl := Option.some.inj hsee
    rw [List.length_nil, Nat.zero_add]
  | @call qp qp1 qp'' qb qb1 qb'' calls text hlt hcall hsame hle htext rest ih =>
    have hnpos : qb1.npos = qb.npos + text.length := by
      rw [TokenBuild.npos, htext, List.length_append]
      rfl
    rw [List.length_cons, Nat.add_right_comm, processParametersLoop, if_pos hlt, hcall,
      Option.bind_some]
    dsimp only
    rw [seenChar] at hsee
    split at hsee
    · next hskip =>
      rw [if_pos hskip]
      rw [ParamScan.seeCalls, ← hnpos] at hsee
      exact ih hsee
    · next hskip =>
      rw [if_neg hskip]
      rw [ParamScan.seeCalls, ← hnpos] at hsee
      split at hsee
      · cases hsee
      · next hstop =>
        rw [if_neg hstop]
        exact ih hsee

/-! ## The ranges -/

theorem IsRange.append (h : IsRange text range arg) (more : List UInt8) :
    IsRange (text ++ more) range arg where
  nonneg := h.nonneg
  lt := by
    have := h.lt
    rw [List.length_append]
    omega
  slice := by
    have hlt := h.lt
    have hnonneg := h.nonneg
    rw [← h.slice, sliceData, sliceData]
    by_cases hle : range.1.toNat ≤ text.length
    · rw [List.drop_append_of_le_length hle, List.take_append_of_le_length]
      rw [List.length_drop]
      omega
    · rw [show (range.2 - range.1 + 1).toNat = 0 by omega, List.take_zero, List.take_zero]

/-- From `start` to the end of the text. -/
theorem isRange_drop {start : Nat} (hle : start ≤ text.length)
    (hdrop : text.drop start = arg) : IsRange text ((start : Int), (text.length : Int) - 1) arg where
  nonneg := Int.natCast_nonneg _
  lt := by
    dsimp only
    omega
  slice := by
    rw [sliceData]
    dsimp only
    rw [Int.toNat_natCast, hdrop, List.take_of_length_le]
    rw [← hdrop, List.length_drop]
    omega

/-- Text is put behind the argument that has been begun. -/
theorem Recorded.append (h : Recorded text ps args arg depth) {depth' : Nat}
    (hinner : ps'.innerParenthesis = depth' + 1) (hcount : ps'.paramCount = ps.paramCount)
    (hpos : ps'.paramPos = ps.paramPos) :
    Recorded (text ++ more) ps' args (arg ++ more) depth' where
  inner := hinner
  count := hcount.trans h.count
  length := hpos ▸ h.length
  ranges k a ha := by
    obtain ⟨range, hrange, hslice⟩ := h.ranges k a ha
    exact ⟨range, hpos ▸ hrange, hslice.append more⟩
  begun := by
    obtain ⟨start, hstart, hpos', hle, hdrop⟩ := h.begun
    refine ⟨start, hpos ▸ hstart, hpos', ?_, ?_⟩
    · rw [List.length_append]
      omega
    · rw [List.drop_append_of_le_length hle, hdrop]
  whole := by
    rw [h.whole, List.cons_append, List.append_assoc]

/-- The argument that has been begun is ended in front of the last byte of the text. -/
theorem Recorded.close_paramPos (h : Recorded text ps args arg depth) (to_ next : Int) :
    ∃ start : Nat, 0 < start ∧ start ≤ text.length ∧ text.drop start = arg ∧
      (ps.close to_ next).paramPos =
        ps.paramPos.take args.length ++ [((start : Int), to_), (next, -1)] := by
  obtain ⟨start, hstart, hpos, hle, hdrop⟩ := h.begun
  refine ⟨start, hpos, hle, hdrop, ?_⟩
  rw [ParamScan.close, h.count, List.getD_eq_getElem?_getD, hstart, Option.getD_some]

theorem Recorded.close_length (h : Recorded text ps args arg depth) (to_ next : Int) :
    (ps.close to_ next).paramPos.length = args.length + 2 := by
  obtain ⟨start, -, -, -, hclose⟩ := h.close_paramPos to_ next
  rw [hclose, List.length_append, List.length_take, h.length, min_eq_left (Nat.le_succ _)]
  rfl

theorem Recorded.close_last (h : Recorded text ps args arg depth) (to_ next : Int) :
    (ps.close to_ next).paramPos[args.length + 1]? = some (next, -1) := by
  obtain ⟨start, -, -, -, hclose⟩ := h.close_paramPos to_ next
  have hlen : (ps.paramPos.take args.length).length = args.length := by
    rw [List.length_take, h.length, min_eq_left (Nat.le_succ _)]
  rw [hclose, List.getElem?_append_right (by omega), hlen, Nat.add_sub_cancel_left]
  rfl

theorem Recorded.close_ranges (h : Recorded text ps args arg depth) (c : UInt8) (next : Int) {k : Nat}
    {a : List UInt8} (ha : (args ++ [arg])[k]? = some a) :
    ∃ range, (ps.close ((text ++ [c]).length - 2) next).paramPos[k]? = some range ∧
      IsRange (text ++ [c]) range a := by
  obtain ⟨start, hpos, hle, hdrop, hclose⟩ := h.close_paramPos ((text ++ [c]).length - 2) next
  have hlen : (ps.paramPos.take args.length).length = args.length := by
    rw [List.length_take, h.length, min_eq_left (Nat.le_succ _)]
  rw [hclose]
  rcases Nat.lt_trichotomy k args.length with hk | rfl | hk
  · rw [List.getElem?_append_left hk] at ha
    obtain ⟨range, hrange, hslice⟩ := h.ranges k a ha
    refine ⟨range, ?_, hslice.append [c]⟩
    rw [List.getElem?_append_left (hlen.symm ▸ hk), List.getElem?_take_of_lt hk, hrange]
  · rw [List.getElem?_append_right le_rfl, Nat.sub_self] at ha
    obtain rfl := Option.some.inj ha
    refine ⟨((start : Int), (text.length : Int) - 1), ?_, (isRange_drop hle hdrop).append [c]⟩
    have hto : (((text ++ [c]).length : Nat) : Int) - 2 = (text.length : Int) - 1 := by
      rw [List.length_append, List.length_singleton]
      omega
    rw [List.getElem?_append_right hlen.le, hlen, Nat.sub_self, hto]
    rfl
  · rw [List.getElem?_append_right hk.le] at ha
    rw [List.getElem?_eq_none (by rw [List.length_singleton]; omega)] at ha
    cases ha

/-- A comma ends the argument and begins the next one. -/
theorem Recorded.comma (h : Recorded text ps args arg 0) :
    Recorded (text ++ [PsqlOdbc.comma])
      (ps.close ((text ++ [PsqlOdbc.comma]).length - 2) (text ++ [PsqlOdbc.comma]).length)
      (args ++ [arg]) [] 0 where
  inner := h.inner
  count := by
    have hargs : (args ++ [arg]).length = args.length + 1 := List.length_append
    rw [hargs]
    exact congrArg (· + 1) h.count
  length := by
    rw [h.close_length, List.length_append]
    rfl
  ranges _ _ ha := h.close_ranges _ _ ha
  begun := by
    have hargs : (args ++ [arg]).length = args.length + 1 := List.length_append
    refine ⟨(text ++ [PsqlOdbc.comma]).length, ?_, ?_, le_rfl, List.drop_length⟩
    · rw [hargs]
      exact h.close_last _ _
    · rw [List.length_append]
      exact Nat.succ_pos _
  whole := by
    rw [h.whole, List.flatMap_append, List.flatMap_singleton, List.append_nil, List.cons_append,
      List.append_assoc]

theorem see_comma (newPos : Nat) : ps.see PsqlOdbc.comma newPos =
    (if ps.innerParenthesis = 1 then ps.close (newPos - 2) newPos else ps, false) := rfl

/-- Behind a parenthesis that is inside another one. -/
theorem see_inner (c : UInt8) (newPos : Nat) (hcomma : c = PsqlOdbc.comma → ps.innerParenthesis ≠ 1)
    (hinner : ps.innerParenthesis ≠ 0) (hclose : c = rightParen → ps.innerParenthesis ≠ 1) :
    ∃ ps', ps.see c newPos = (ps', false) ∧ ps'.paramCount = ps.paramCount ∧
      ps'.paramPos = ps.paramPos ∧
      ps'.innerParenthesis = if c = leftParen then ps.innerParenthesis + 1
        else if c = rightParen then ps.innerParenthesis - 1 else ps.innerParenthesis := by
  rw [ParamScan.see]
  split
  · next h =>
    rw [if_neg (hcomma h), h]
    exact ⟨ps, rfl, rfl, rfl, rfl⟩
  split
  · exact ⟨_, rfl, rfl, rfl, rfl⟩
  split
  · next h =>
    rw [if_neg (hclose h)]
    exact ⟨_, rfl, rfl, rfl, rfl⟩
  · rw [decide_eq_false fun h ↦ hinner h.2]
    exact ⟨ps, rfl, rfl, rfl, rfl⟩

/-- Between the parentheses. -/
theorem Recorded.body (h : Recorded text ps args arg depth) {rest : List (List UInt8)}
    (hsplit : splitArgs depth arg calls = some rest)
    (hcopied : ∀ call ∈ calls, call.1 = some PsqlOdbc.comma → call.2 = [PsqlOdbc.comma]) :
    ∃ ps' args' arg', ps.seeCalls text.length calls = some ps' ∧ args ++ rest = args' ++ [arg'] ∧
      Recorded (text ++ calls.flatMap (·.2)) ps' args' arg' 0 := by
  induction calls generalizing text ps args arg depth rest with
  | nil =>
    rw [splitArgs] at hsplit
    split at hsplit
    · next hdepth =>
      rw [← Option.some.inj hsplit]
      refine ⟨ps, args, arg, rfl, rfl, ?_⟩
      rw [List.flatMap_nil, List.append_nil, ← hdepth]
      exact h
    · cases hsplit
  | cons call calls ih =>
    obtain ⟨seen, more⟩ := call
    have hcopied' := fun call hcall ↦ hcopied call (List.mem_cons_of_mem _ hcall)
    have hlen : text.length + more.length = (text ++ more).length := List.length_append.symm
    rw [splitArgs] at hsplit
    rw [List.flatMap_cons, ← List.append_assoc]
    by_cases hcomma : seen = some PsqlOdbc.comma ∧ depth = 0
    · rw [if_pos hcomma] at hsplit
      obtain ⟨rfl, rfl⟩ := hcomma
      obtain rfl : more = [PsqlOdbc.comma] := hcopied _ List.mem_cons_self rfl
      obtain ⟨rest', hrest, rfl⟩ := Option.map_eq_some_iff.1 hsplit
      obtain ⟨ps', args', arg', hsee, hargs, hrecorded⟩ := ih h.comma hrest hcopied'
      refine ⟨ps', args', arg', ?_, ?_, hrecorded⟩
      · rw [ParamScan.seeCalls, hlen, see_comma, if_pos (show ps.innerParenthesis = 1 from h.inner)]
        exact hsee
      · rw [← hargs]
        exact List.append_cons _ _ _
    rw [if_neg hcomma] at hsplit
    cases seen with
    | none =>
      rw [if_neg (by simp), if_neg (by simp)] at hsplit
      obtain ⟨ps', args', arg', hsee, hargs, hrecorded⟩ :=
        ih (h.append h.inner rfl rfl) hsplit hcopied'
      refine ⟨ps', args', arg', ?_, hargs, hrecorded⟩
      rw [ParamScan.seeCalls, hlen]
      exact hsee
    | some c =>
      have hnext : ∀ depth', splitArgs depth' (arg ++ more) calls = some rest →
          (c = rightParen → depth ≠ 0) →
          ((depth' : Int) + 1 = if c = leftParen then ps.innerParenthesis + 1
            else if c = rightParen then ps.innerParenthesis - 1 else ps.innerParenthesis) →
          ∃ ps' args' arg', ps.seeCalls text.length ((some c, more) :: calls) = some ps' ∧
            args ++ rest = args' ++ [arg'] ∧
            Recorded (text ++ more ++ calls.flatMap (·.2)) ps' args' arg' 0 := by
        intro depth' hsplit hclose hdepth
        have hinner := h.inner
        obtain ⟨ps1, hsee1, hcount, hpos, hinner1⟩ := @see_inner ps c (text ++ more).length
          (fun hc ↦ by
            have hne : depth ≠ 0 := fun hd ↦ hcomma ⟨congrArg some hc, hd⟩
            omega)
          (by omega)
          (fun hc ↦ by
            have hne := hclose hc
            omega)
        obtain ⟨ps', args', arg', hsee, hargs, hrecorded⟩ :=
          ih (h.append (hinner1.trans hdepth.symm) hcount hpos) hsplit hcopied'
        refine ⟨ps', args', arg', ?_, hargs, hrecorded⟩
        rw [ParamScan.seeCalls, hlen, hsee1]
        exact hsee
      have hinner := h.inner
      by_cases hopen : c = leftParen
      · rw [if_pos (congrArg some hopen)] at hsplit
        refine hnext (depth + 1) hsplit ?_ ?_
        · intro hclose
          rw [hopen] at hclose
          exact absurd hclose (by decide)
        · rw [if_pos hopen, hinner]
          rfl
      rw [if_neg fun hc ↦ hopen (Option.some.inj hc)] at hsplit
      by_cases hclose : c = rightParen
      · rw [if_pos (congrArg some hclose)] at hsplit
        split at hsplit
        · cases hsplit
        · next hdepth =>
          refine hnext (depth - 1) hsplit (fun _ ↦ hdepth) ?_
          rw [if_neg hopen, if_pos hclose, hinner]
          omega
      · rw [if_neg fun hc ↦ hclose (Option.some.inj hc)] at hsplit
        refine hnext depth hsplit (fun hc ↦ absurd hc hclose) ?_
        rw [if_neg hopen, if_neg hclose, hinner]

theorem seeCalls_append {calls' : List ArgCall} (newPos : Nat)
    (h : ps.seeCalls newPos calls = some ps') :
    ps.seeCalls newPos (calls ++ calls') =
      ps'.seeCalls (newPos + (calls.flatMap (·.2)).length) calls' := by
  induction calls generalizing ps newPos with
  | nil =>
    obtain rfl := Option.some.inj h
    rfl
  | cons call calls ih =>
    obtain ⟨seen, more⟩ := call
    rw [List.flatMap_cons, List.length_append, ← Nat.add_assoc]
    cases seen with
    | none => exact ih _ h
    | some c =>
      rw [ParamScan.seeCalls] at h
      rw [List.cons_append, ParamScan.seeCalls]
      split at h
      · cases h
      · next hstop =>
        rw [if_neg hstop]
        exact ih _ h

/-- Behind the closing parenthesis. -/
theorem seeCalls_tail (newPos : Nat) (hinner : ps.innerParenthesis = 0)
    (htail : ∀ call ∈ calls,
      call.1 ≠ some leftParen ∧ call.1 ≠ some rightParen ∧ call.1 ≠ some odbcEscapeEnd) :
    ps.seeCalls newPos calls = some ps := by
  induction calls generalizing newPos with
  | nil => rfl
  | cons call calls ih =>
    obtain ⟨seen, more⟩ := call
    have htail' := fun call hcall ↦ htail call (List.mem_cons_of_mem _ hcall)
    cases seen with
    | none => exact ih _ htail'
    | some c =>
      obtain ⟨hopen, hclose, hend⟩ := htail _ List.mem_cons_self
      have hsee : ps.see c (newPos + more.length) = (ps, false) := by
        rw [ParamScan.see]
        split
        · rw [if_neg (by omega)]
        rw [if_neg fun h ↦ hopen (congrArg some h), if_neg fun h ↦ hclose (congrArg some h),
          decide_eq_false fun h ↦ hend (congrArg some h.1)]
      rw [ParamScan.seeCalls, hsee]
      exact ih _ htail'

end

/-! ## The table -/

/-- The table has the arguments that are given; the entries behind them are marked. -/
structure ParamTable (text : List UInt8) (paramPos : List (Int × Int)) (given : List (List UInt8)) :
    Prop where
  length : given.length < paramPos.length
  ranges : ∀ (k : Nat) arg, given[k]? = some arg →
    ∃ range, paramPos[k]? = some range ∧ IsRange text range arg
  absent : ∀ (k : Nat) range, given.length ≤ k → paramPos[k]? = some range → range.1 < 0

namespace FnArguments

variable {hooks : TokenHooks} {qp : QueryParse} {qb : TokenBuild} (a : FnArguments hooks qp qb)

/-- The arguments; there is none if there are only spaces between the parentheses. -/
def given : List (List UInt8) :=
  if a.args.length = 1 ∧ !(a.args.headD []).any isNotSpace then [] else a.args

/-- All of them. -/
def all : List UInt8 := [comma].intercalate a.args

/-- The loop writes down the arguments, and a last entry that is marked. -/
theorem loop : ∃ ps : ParamScan,
    processParametersLoop hooks (qp.statement.length + 1) qp qb ⟨0, 0, [], 0⟩ =
        some (a.qpLast, a.qbLast, ps) ∧
      ps.paramCount = a.args.length ∧ ps.paramPos.length = a.args.length + 1 ∧
      (∀ (k : Nat) arg, a.args[k]? = some arg → ∃ range, ps.paramPos[k]? = some range ∧
        IsRange a.qbLast.queryStatement range arg) ∧
      ps.paramPos[a.args.length]? = some (-1, -1) ∧
      sliceData a.qbLast.queryStatement (1, ps.outputCount - 2) = a.all := by
  -- The parenthesis in front.
  let ps0 : ParamScan := ⟨1, 0, [(1, -1)], 0⟩
  have hbegun : Recorded [leftParen] ps0 [] [] 0 := by
    refine ⟨rfl, rfl, rfl, fun _ _ h ↦ (nomatch h), ⟨1, rfl, ?_, ?_, rfl⟩, rfl⟩
    · exact Nat.one_pos
    · exact le_rfl
  obtain ⟨ps1, args, arg, hsee, hargs, hrecorded⟩ := hbegun.body a.split a.copied
  rw [List.nil_append] at hargs
  generalize htext : [leftParen] ++ a.body.flatMap (·.2) = text at hrecorded
  -- The parenthesis behind.
  let ps2 : ParamScan :=
    { ps1.close ((text ++ [rightParen]).length - 2) (-1) with
      innerParenthesis := 0
      outputCount := (text ++ [rightParen]).length }
  have hclose : ps1.see rightParen (text ++ [rightParen]).length = (ps2, false) := by
    have hinner : ps1.innerParenthesis = 1 := hrecorded.inner
    rw [ParamScan.see, if_neg (by decide), if_neg (by decide), if_pos rfl, if_pos hinner, hinner]
    rfl
  have hcalls : ParamScan.seeCalls ⟨0, 0, [], 0⟩ qb.npos
      ((some leftParen, [leftParen]) :: (a.body ++ (some rightParen, [rightParen]) :: a.tail)) =
      some ps2 := by
    have hnpos : qb.npos = 0 := by
      rw [TokenBuild.npos, a.empty]
      rfl
    have hlen : [leftParen].length + (a.body.flatMap (·.2)).length + [rightParen].length =
        (text ++ [rightParen]).length := by
      rw [← htext, List.length_append, List.length_append]
    have hfirst : ParamScan.seeCalls ⟨0, 0, [], 0⟩ 0
        ((some leftParen, [leftParen]) :: (a.body ++ (some rightParen, [rightParen]) :: a.tail)) =
        ps0.seeCalls [leftParen].length (a.body ++ (some rightParen, [rightParen]) :: a.tail) := rfl
    rw [hnpos, hfirst, seeCalls_append _ hsee, ParamScan.seeCalls, hlen, hclose]
    exact seeCalls_tail _ rfl a.tail_plain
  have hlast : a.qbEnd.queryStatement = text ++ [rightParen] ++ a.tail.flatMap (·.2) := by
    rw [a.appends.text_eq, a.empty, List.nil_append, List.flatMap_cons, List.flatMap_append,
      List.flatMap_cons, ← htext]
    simp only [List.append_assoc]
  have hfinal : a.qbLast.queryStatement =
      text ++ [rightParen] ++ (a.tail.flatMap (·.2) ++ a.lastText) := by
    rw [a.last_text, hlast, List.append_assoc]
  refine ⟨ps2, ?_, ?_, ?_, ?_, ?_, ?_⟩
  · obtain ⟨hstatement, hopos⟩ := a.appends.opos_le
    have hlt := a.lt
    rw [hstatement] at hlt
    generalize hlength : ((some leftParen, [leftParen]) ::
      (a.body ++ (some rightParen, [rightParen]) :: a.tail)).length = n at hopos
    obtain ⟨fuel, hfuel⟩ : ∃ fuel, qp.statement.length + 1 = n + (fuel + 1) :=
      ⟨qp.statement.length - n, by omega⟩
    rw [hfuel, ← hlength, a.appends.loop _ hcalls, processParametersLoop, if_pos a.lt, a.last,
      Option.bind_some]
    dsimp only
    have hseen := a.last_seen
    rw [seenChar] at hseen
    split at hseen
    · cases hseen
    next hskip =>
    rw [if_neg hskip, Option.some.inj hseen]
    rfl
  · rw [hargs, List.length_append]
    exact congrArg (· + 1) hrecorded.count
  · rw [hargs, List.length_append]
    exact hrecorded.close_length _ _
  · intro k b hb
    rw [hargs] at hb
    obtain ⟨range, hrange, hslice⟩ := hrecorded.close_ranges rightParen (-1) hb
    exact ⟨range, hrange, hfinal ▸ hslice.append _⟩
  · rw [hargs, List.length_append]
    exact hrecorded.close_last _ _
  · have hpos : 1 ≤ text.length := by
      rw [hrecorded.whole]
      exact Nat.succ_pos _
    have hdrop : text.drop 1 = a.all := by
      rw [hrecorded.whole, List.drop_one, List.tail_cons, all, hargs, intercalate_concat]
    have hrange := ((isRange_drop hpos hdrop).append [rightParen]).append
      (a.tail.flatMap (·.2) ++ a.lastText)
    have hcount : ((text ++ [rightParen]).length : Int) - 2 = (text.length : Int) - 1 := by
      rw [List.length_append, List.length_singleton]
      omega
    rw [hfinal, show ps2.outputCount = (text ++ [rightParen]).length from rfl, hcount]
    exact hrange.slice

/-- `processParameters` makes a table of the arguments. -/
theorem processParameters_eq : ∃ paramPos outputCount,
    processParameters hooks qp qb = some (a.qpLast, a.qbLast, paramPos, outputCount) ∧
      paramPos.length = a.args.length + 1 ∧
      ParamTable a.qbLast.queryStatement paramPos a.given ∧
      sliceData a.qbLast.queryStatement (1, (outputCount : Int) - 2) = a.all := by
  obtain ⟨ps, hloop, hcount, hlength, hranges, hlast, hall⟩ := a.loop
  have hmarked : ps.paramPos.getD ps.paramCount (-1, -1) = (-1, -1) := by
    rw [hcount, List.getD_eq_getElem?_getD, hlast]
    rfl
  have habsent : ∀ (k : Nat) range, a.args.length ≤ k → ps.paramPos[k]? = some range →
      range.1 < 0 := by
    intro k range hk hrange
    obtain ⟨hlt, -⟩ := List.getElem?_eq_some_iff.1 hrange
    obtain rfl : k = a.args.length := by omega
    rw [hlast] at hrange
    rw [← Option.some.inj hrange]
    decide
  rw [processParameters, hloop, Option.bind_some]
  dsimp only
  rw [hmarked, if_neg (by decide), hcount]
  have hblank : (a.args.length = 1 ∧
      ¬(sliceData a.qbLast.queryStatement (ps.paramPos.getD 0 (-1, -1))).any isNotSpace = true) ↔
      (a.args.length = 1 ∧ (!(a.args.headD []).any isNotSpace) = true) := by
    refine and_congr_right fun hone ↦ ?_
    obtain ⟨arg, harg⟩ := List.length_eq_one_iff.1 hone
    obtain ⟨range, hrange, hslice⟩ := hranges 0 arg (by rw [harg]; rfl)
    rw [List.getD_eq_getElem?_getD, hrange, Option.getD_some, hslice.slice, harg, List.headD_cons,
      Bool.not_eq_true, Bool.not_eq_true']
  by_cases hnone : a.args.length = 1 ∧ (!(a.args.headD []).any isNotSpace) = true
  · rw [if_pos (hblank.2 hnone)]
    refine ⟨_, _, rfl, ?_, ⟨?_, ?_, ?_⟩, hall⟩
    · rw [List.length_set, hlength]
    · rw [given, if_pos hnone, List.length_set, hlength]
      exact Nat.succ_pos _
    · intro k arg hk
      rw [given, if_pos hnone] at hk
      cases hk
    · intro k range _ hrange
      cases k with
      | zero =>
        rw [List.getElem?_set_self (by rw [hlength]; exact Nat.succ_pos _)] at hrange
        rw [← Option.some.inj hrange]
        decide
      | succ k =>
        rw [List.getElem?_set_ne (Nat.succ_ne_zero k).symm] at hrange
        exact habsent _ _ (by omega) hrange
  · rw [if_neg (mt hblank.1 hnone)]
    have hgiven : a.given = a.args := by rw [given, if_neg hnone]
    rw [hgiven]
    exact ⟨_, _, rfl, hlength, ⟨by omega, hranges, habsent⟩, hall⟩

end FnArguments

end PsqlOdbc
