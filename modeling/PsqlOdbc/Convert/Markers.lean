import PsqlOdbc.Convert.LexersAgree

/-!
# The markers of a statement

Where the driver reads a statement as the server does, `inner_process_tokens` resolves the question
marks outside of quotes and comments, and copies those inside.
-/

namespace PsqlOdbc

/-! ## Events by their offsets -/

theorem eventsAt_seen {event : Event} (h : event.seen = event) (hother : event ≠ .other)
    (offset : Nat) (events : List Event) :
    eventsAt event offset (events.map Event.seen) = eventsAt event offset events := by
  induction events generalizing offset with
  | nil => rfl
  | cons e events ih =>
    have hiff : e.seen = event ↔ e = event := by
      constructor
      · intro he
        cases e <;> first | exact he | exact absurd he.symm hother
      · rintro rfl
        exact h
    rw [List.map_cons, eventsAt, eventsAt, ih]
    by_cases he : e = event
    · rw [if_pos he, if_pos (hiff.2 he)]
    · rw [if_neg he, if_neg fun h ↦ he (hiff.1 h)]

/-- The offsets in the first events. -/
theorem eventsAt_filter_lt (event : Event) (offset : Nat) (as bs : List Event) :
    (eventsAt event offset (as ++ bs)).filter (· < offset + as.length) =
      eventsAt event offset as := by
  rw [eventsAt_append, List.filter_append, List.filter_eq_self.2, List.filter_eq_nil_iff.2,
    List.append_nil]
  · intro i hi hlt
    exact absurd (of_decide_eq_true hlt) (Nat.not_lt.2 (mem_eventsAt hi).1)
  · exact fun i hi ↦ decide_eq_true (mem_eventsAt hi).2

theorem mem_eventsAt_iff {event : Event} {offset i : Nat} {events : List Event} :
    i ∈ eventsAt event offset events ↔ offset ≤ i ∧ events[i - offset]? = some event := by
  induction events generalizing offset with
  | nil => simp [eventsAt]
  | cons e events ih =>
    rw [eventsAt]
    by_cases hi : i = offset
    · subst hi
      have hnot : i ∉ eventsAt event (i + 1) events := fun h ↦ by
        have hle := (mem_eventsAt h).1
        omega
      by_cases he : e = event
      · rw [if_pos he, Nat.sub_self, he]
        simp
      · rw [if_neg he, Nat.sub_self, List.getElem?_cons_zero, Option.some_inj]
        exact ⟨fun h ↦ absurd h hnot, fun h ↦ absurd h.2 he⟩
    · have hcons : (offset ≤ i ∧ (e :: events)[i - offset]? = some event) ↔
          (offset + 1 ≤ i ∧ events[i - (offset + 1)]? = some event) := by
        constructor
        · rintro ⟨hle, h⟩
          have hlt : offset + 1 ≤ i := by omega
          have hsub : i - offset = i - (offset + 1) + 1 := by omega
          rw [hsub, List.getElem?_cons_succ] at h
          exact ⟨hlt, h⟩
        · rintro ⟨hle, h⟩
          have hsub : i - offset = i - (offset + 1) + 1 := by omega
          rw [hsub, List.getElem?_cons_succ]
          exact ⟨by omega, h⟩
      rw [hcons, ← ih]
      split
      · rw [List.mem_cons]
        exact ⟨fun h ↦ h.resolve_left hi, Or.inr⟩
      · exact Iff.rfl

/-! ## Question marks that are copied -/

section

variable {hooks : TokenHooks} {qp qp' : QueryParse} {qb qb' : TokenBuild} {s : LexState}
  {c : UInt8} {rest : List UInt8}

/-- A question mark in quotes or a comment, on its way through `processQuoted`. -/
theorem processQuoted_marker (pt : ParseToken) (qp : QueryParse) (qb : TokenBuild) :
    (processQuoted pt qp qb paramMarker).2 = qb.appendData [paramMarker] := by
  have hne : paramMarker ≠ dollarQuote ∧ paramMarker ≠ slash ∧ paramMarker ≠ asterisk := by decide
  rw [processQuoted]
  split
  · rfl
  · split
    · rw [if_neg fun h ↦ hne.1 h.1]
    · split
      · rfl
      · split
        · rfl
        · split
          · simp only
            rw [if_neg fun h ↦ hne.2.1 h.1, if_neg fun h ↦ hne.2.2 h.1]
          · rfl

/-- Only quotes and comments have question marks inside. -/
theorem lexMode_inside {ccsc : CharSet} {opener : Nat} {escape prev : UInt8} {mode : Mode}
    (h : (lexMode ccsc opener escape prev c rest mode).2.2 = .inside) :
    c = paramMarker ∧ mode ≠ .idle ∧ mode ≠ .word := by
  have hidle : (lexIdle ccsc opener escape prev c rest).2.2 ≠ .inside := by
    intro hin
    rw [lexIdle] at hin
    simp only at hin
    repeat' split at hin
    all_goals cases hin
  have hevent : insideEvent c = .inside → c = paramMarker := by
    intro he
    rw [insideEvent] at he
    by_contra hne
    rw [if_neg hne] at he
    cases he
  cases mode with
  | idle => exact absurd h hidle
  | word =>
    rw [lexMode] at h
    split at h
    · cases h
    · exact absurd h hidle
  | escaped esc => exact ⟨hevent h, Mode.noConfusion, Mode.noConfusion⟩
  | literal esc | dquote | line | dollar tag | comment level =>
    rw [lexMode] at h
    repeat' split at h
    all_goals first | cases h | exact ⟨hevent h, Mode.noConfusion, Mode.noConfusion⟩

/-- A question mark in quotes or a comment is copied. -/
theorem innerProcessTokens_inside (hs : qp.Lexes s) (hold : qp.oldPtr = c :: rest)
    (hin : (lexStep qp.ccsc 0 (ccGetEscape qb.conn) qp.prevChar c rest s).2 = .inside)
    (h : innerProcessTokens hooks qp qb = some (qp', qb')) :
    ∃ front, keysetText qp qb (wrapInt 32 qp.opos) = some front ∧
      qb' = front.appendData [paramMarker] := by
  obtain ⟨ccst, mode, skip⟩ := s
  obtain rfl : skip = 0 := hs.skip
  obtain rfl : qp.ccst = ccst := hs.ccst
  rw [innerProcessTokens] at h
  simp only [qp.charAt_of_oldPtr hold] at h
  split at h
  · cases h
  obtain ⟨qb1, hkey, h⟩ := Option.bind_eq_some_iff.1 h
  refine ⟨qb1, hkey, ?_⟩
  cases hascii : mbcsNonAscii (pgCSStat qp.ccst c qp.ccsc) c with
  | true =>
    rw [lexStep_nonAscii hascii] at hin
    cases hin
  | false =>
    rw [lexStep_ascii hascii] at hin
    obtain ⟨rfl, hidle, hword⟩ := lexMode_inside hin
    have hkeyword : qp.inStatus.identKeyword = false := by
      rw [← Bool.not_eq_true, hs.mode.word_iff]
      exact hword
    rw [if_neg (by rw [hascii]; exact Bool.false_ne_true)] at h
    simp only [hkeyword, Bool.false_eq_true, false_and, if_false] at h
    rw [if_neg fun h ↦ hidle (hs.mode.idle_iff.1 h)] at h
    rw [← processQuoted_marker ptInitialize { qp with ccst := pgCSStat qp.ccst paramMarker qp.ccsc },
      Option.some_inj.1 h]

end

/-! ## The whole statement -/

section

variable {hooks : TokenHooks} {conn : ConnectionClass} {statement : List UInt8} {before : UInt8}
  {statementType : StatementType} {qp : QueryParse} {qb0 qb : TokenBuild}

/-- What the server says about the bytes of a statement. -/
def serverEvents (conn : ConnectionClass) (statement : List UInt8) : List Event :=
  Server.lexEvents conn.ccsc (ccGetEscape conn = 0) ⟨0, .space, 0⟩ statement

/-- What the driver says is what the server says. -/
theorem lexEvents_server (htext : 0 ∉ statement)
    (hwalk : WalkAll conn.ccsc (WalkAgreesAt conn.ccsc) 0 0 statement)
    (halike : ReadsAlike conn.ccsc (ccGetEscape conn) before ⟨0, .space, 0⟩ statement) :
    (lexEvents conn.ccsc 0 (ccGetEscape conn) before ⟨0, .idle, 0⟩ statement).map Event.seen =
        serverEvents conn statement ∧
      .escape ∉ lexEvents conn.ccsc 0 (ccGetEscape conn) before ⟨0, .idle, 0⟩ statement := by
  have hreads : Reads conn.ccsc ⟨0, .space, 0⟩ ⟨0, .idle, 0⟩ statement :=
    ⟨rfl, .space, hwalk, fun h ↦ absurd rfl h⟩
  obtain ⟨hevents, hnone, hover⟩ := lexEvents_reads htext (ccGetEscape_eq conn) hreads halike
  rw [lexEvents_opened (.same _ _) hover]
  exact ⟨hevents, hnone⟩

/-- Where the driver reads every byte as the server does, in every state the loop gets to the
question marks outside of quotes and comments have been resolved, and no others, and those inside
have been copied. -/
theorem innerProcessTokens_markers (htext : 0 ∉ statement) (hconn : qb0.conn = conn)
    (hstart : qb0.resolved = [])
    (hwalk : WalkAll conn.ccsc (WalkAgreesAt conn.ccsc) 0 0 statement)
    (halike : ReadsAlike conn.ccsc (ccGetEscape conn) before ⟨0, .space, 0⟩ statement)
    (hreach : Reaches hooks (qpInitialize conn statement before statementType) qb0 qp qb) :
    qb.resolved = (eventsAt .marker 0 (serverEvents conn statement)).filter (· < qp.opos) ∧
      ∀ i ∈ eventsAt .inside 0 (serverEvents conn statement), i < qp.opos →
        ∃ qp1 qb1 qp2 front, Reaches hooks (qpInitialize conn statement before statementType) qb0
            qp1 qb1 ∧ qp1.opos = i ∧ keysetText qp1 qb1 (wrapInt 32 i) = some front ∧
          innerProcessTokens hooks qp1 qb1 = some (qp2, front.appendData [paramMarker]) := by
  obtain ⟨hseen, hnone⟩ := lexEvents_server htext hwalk halike
  have hnone' : NoEscapes (qpInitialize conn statement before statementType) qb0 ⟨0, .idle, 0⟩ := by
    rw [NoEscapes, hconn]
    exact hnone
  have hseenAt : ∀ event, event.seen = event → event ≠ .other →
      eventsAt event 0 (serverEvents conn statement) = eventsAt event 0
        (lexEvents conn.ccsc 0 (ccGetEscape conn) before ⟨0, .idle, 0⟩ statement) := by
    intro event h hother
    rw [← hseen, eventsAt_seen h hother]
  rw [hseenAt .marker rfl Event.noConfusion, hseenAt .inside rfl Event.noConfusion]
  constructor
  · obtain ⟨s, hf⟩ := hreach.follows qpInitialize_lexes (Nat.zero_le _) hnone'
    obtain ⟨events, hlen, heq, hres, -⟩ := hf.events
    have hsplit : lexEvents conn.ccsc 0 (ccGetEscape conn) before ⟨0, .idle, 0⟩ statement =
        events ++ lexEvents qp.ccsc 0 (ccGetEscape qb.conn) qp.prevChar s qp.oldPtr := by
      rw [hconn] at heq
      exact heq
    have hpos : qp.opos = 0 + events.length := by
      rw [hlen]
      exact (Nat.zero_add _).symm
    rw [hsplit, hpos, eventsAt_filter_lt, hres, hstart, List.nil_append]
    rfl
  · intro i hi hlt
    induction hreach with
    | start => exact absurd hlt (Nat.not_lt_zero i)
    | @step qp1 qp2 qb1 qb2 hreach hlt' hcall ih =>
      by_cases hbefore : i < qp1.opos
      · exact ih hbefore
      -- The question mark is the byte this call begins with.
      obtain ⟨s, hf⟩ := hreach.follows qpInitialize_lexes (Nat.zero_le _) hnone'
      obtain ⟨s', hcall'⟩ := (hnone'.of_follows hf).call hf.lexes hlt' hcall
      obtain ⟨events, hlen, heq, -, -⟩ := hf.events
      obtain ⟨event, n, hn, hrun⟩ := hcall'.symbol
      have hsplit : lexEvents conn.ccsc 0 (ccGetEscape conn) before ⟨0, .idle, 0⟩ statement =
          events ++ lexEvents qp1.ccsc 0 (ccGetEscape qb1.conn) qp1.prevChar s qp1.oldPtr := by
        rw [hconn] at heq
        exact heq
      have hpos : events.length = qp1.opos := hlen
      have hle : qp1.opos ≤ i := Nat.not_lt.1 hbefore
      have hget := (mem_eventsAt_iff.1 hi).2
      rw [hsplit, Nat.sub_zero, List.getElem?_append_right (by omega), hpos] at hget
      have hsymbol : i - qp1.opos = 0 ∧ event = .inside := by
        rw [hrun, List.getElem?_append_left (by
          rw [List.length_append, List.length_replicate]
          omega)] at hget
        cases hj : i - qp1.opos with
        | zero =>
          rw [hj] at hget
          exact ⟨rfl, Option.some_inj.1 hget⟩
        | succ j =>
          rw [hj, List.singleton_append, List.getElem?_cons_succ] at hget
          have hmem := List.mem_of_getElem? hget
          cases List.eq_of_mem_replicate hmem
      have hi' : qp1.opos = i := by omega
      cases hold : qp1.oldPtr with
      | nil => exact absurd (List.drop_eq_nil_iff.1 hold) (Nat.not_le.2 hlt')
      | cons c rest =>
        rw [hold, lexEvents_cons, List.singleton_append, List.cons_append, List.cons.injEq] at hrun
        obtain ⟨front, hkey, hcopied⟩ := innerProcessTokens_inside hf.lexes hold
          (hrun.1.trans hsymbol.2) hcall
        rw [hcopied] at hcall
        rw [hi'] at hkey
        exact ⟨qp1, qb1, qp2, front, hreach, hi', hkey, hcall⟩

end

/-- One question mark is copied, the other one resolved. -/
theorem innerProcessTokens_markers_both :
    ∃ r, processTokens oneHooks 40
        (qpInitialize utf8Connection (ascii "SELECT '?', ?") 0 .select) twoParameters = some r ∧
      r.2.resolved = (eventsAt .marker 0
        (serverEvents utf8Connection (ascii "SELECT '?', ?"))).filter (· < r.1.opos) ∧
      ∀ i ∈ eventsAt .inside 0 (serverEvents utf8Connection (ascii "SELECT '?', ?")), i < r.1.opos →
        ∃ qp1 qb1 qp2 front, Reaches oneHooks (qpInitialize utf8Connection (ascii "SELECT '?', ?") 0
            .select) twoParameters qp1 qb1 ∧ qp1.opos = i ∧
          keysetText qp1 qb1 (wrapInt 32 i) = some front ∧
          innerProcessTokens oneHooks qp1 qb1 = some (qp2, front.appendData [paramMarker]) := by
  have hsome : (processTokens oneHooks 40 (qpInitialize utf8Connection
      (ascii "SELECT '?', ?") 0 .select) twoParameters).isSome = true := by decide
  obtain ⟨r, hr⟩ := Option.isSome_iff_exists.1 hsome
  have htext : 0 ∉ ascii "SELECT '?', ?" := by decide
  have hwalk : WalkAll .utf8 (WalkAgreesAt .utf8) 0 0 (ascii "SELECT '?', ?") := by
    repeat' first | exact trivial | exact rfl | constructor
  have halike : ReadsAlike .utf8 (ccGetEscape utf8Connection) 0 ⟨0, .space, 0⟩
      (ascii "SELECT '?', ?") := by decide
  exact ⟨r, hr, innerProcessTokens_markers htext rfl rfl hwalk halike
    (reaches_of_processTokens .start hr).1⟩

/-- A question mark inside of a literal with a lower-case prefix, of a dollar quote whose tag has an
underscore, and of a comment, is taken for a marker. -/
theorem innerProcessTokens_markers_inside :
    (eventsAt .inside 0 (serverEvents utf8Connection (ascii "SELECT e'\\'?'")) = [11] ∧
      (processTokens oneHooks 40 (qpInitialize utf8Connection (ascii "SELECT e'\\'?'") 0 .select)
        twoParameters).map (·.2.resolved) = some [11]) ∧
    (eventsAt .inside 0 (serverEvents utf8Connection (ascii "SELECT $a_b$?$a_b$")) = [12] ∧
      (processTokens oneHooks 40 (qpInitialize utf8Connection (ascii "SELECT $a_b$?$a_b$") 0 .select)
        twoParameters).map (·.2.resolved) = some [12]) ∧
    (eventsAt .inside 0 (serverEvents utf8Connection (ascii "SELECT 1 /*/?*/")) = [12] ∧
      (processTokens oneHooks 40 (qpInitialize utf8Connection (ascii "SELECT 1 /*/?*/") 0 .select)
        twoParameters).map (·.2.resolved) = some [12]) := by
  decide

end PsqlOdbc
