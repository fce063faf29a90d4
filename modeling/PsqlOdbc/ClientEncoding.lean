import PsqlOdbc.Convert.Identifiers
import PsqlOdbc.Drvconn
import PsqlOdbc.Lib.CString

/-!
# The client encoding in the connection settings (`multibyte.c`)

`check_client_encoding` looks through the settings of a connection for the last command that sets
`client_encoding`.  It counts the words it has seen, and after each of them the loop goes on one
character further, whatever that character is.  `lastEncoding` reads the same text command by
command.  Where blanks stand between the words, both find the same name, unless the text ends in a
word or a value: then the loop goes on behind the terminator (`checkClientEncoding_iff`).
-/

namespace PsqlOdbc

/-! ## The loop of the driver -/

/-- What the loop keeps; `in_quote` is never set.  `found` is the text between `sptr` and
`sptr + len`. -/
structure EncodingScan where
  allowedCmd : Bool
  step : Nat
  found : PgName
  deriving DecidableEq, Repr

/-- The characters of a value that is not quoted. -/
def valueChar (c : UInt8) : Bool := c ≠ semicolon && isNotSpace c

/-- What is done with the characters from `cptr` on, and how far `cptr` is moved, the step of the
loop included. -/
def encodingStep (s : EncodingScan) (c : UInt8) (cs : List UInt8) : EncodingScan × Nat :=
  let cptr := c :: cs
  if c = semicolon then ({ s with allowedCmd := true, step := 0 }, 1)
  else if !s.allowedCmd then (s, 1)
  else if isSpace c then (s, 1)
  else
    match s.step with
    | 0 =>
      if strnicmpEq cptr (ascii "set") then ({ s with step := 1 }, 4)
      else ({ s with allowedCmd := false }, 1)
    | 1 =>
      if strnicmpEq cptr (ascii "client_encoding") then
        ({ s with step := 2 }, if cptr[15]? = some equalsSign then 15 else 16)
      else ({ s with allowedCmd := false }, 1)
    | 2 =>
      if strnicmpEq cptr (ascii "to") then ({ s with step := 3 }, 3)
      else if strnicmpEq cptr (ascii "=") then ({ s with step := 3 }, 1)
      else ({ s with allowedCmd := false }, 1)
    | 3 =>
      if c = literalQuote then
        let name := cs.takeWhile (· ≠ literalQuote)
        ({ s with found := some name, step := 4 }, name.length + 2)
      else
        let name := cptr.takeWhile valueChar
        let len := name.length
        ({ s with found := some name, step := 4 },
          if cptr[len]? = some semicolon then len else len + 1)
    | _ => (s, 1)

/-- The loop of `check_client_encoding`, which passes over `skip` characters first.  It has no
result if that takes it behind the terminator. -/
def encodingLoop : Nat → EncodingScan → List UInt8 → Option PgName
  | skip, s, [] => if skip = 0 then some s.found else none
  | skip + 1, s, _ :: cs => encodingLoop skip s cs
  | 0, s, c :: cs =>
    let moved := encodingStep s c cs
    encodingLoop (moved.2 - 1) moved.1 cs

/-- `check_client_encoding`. -/
def checkClientEncoding (connSettings : PgName) : Option PgName :=
  match connSettings with
  | none => some none
  | some t => encodingLoop 0 ⟨true, 0, none⟩ t

/-! ## The commands -/

/-- What is behind a word in any letter case. -/
def behindKeyword (word t : List UInt8) : Option (List UInt8) :=
  if strnicmpEq t word then some (t.drop word.length) else none

def skipBlanks (t : List UInt8) : List UInt8 := t.dropWhile isSpace

def startsBlank (t : List UInt8) : Bool := t.head?.any isSpace

/-- A value, quoted or not, and what is behind it. -/
def encodingValue : List UInt8 → Option (List UInt8 × List UInt8)
  | [] => none
  | c :: cs =>
    if c = literalQuote then
      if literalQuote ∈ cs then
        some (cs.takeWhile (· ≠ literalQuote), (cs.dropWhile (· ≠ literalQuote)).tail)
      else none
    else if c = semicolon then none
    else some ((c :: cs).takeWhile valueChar, (c :: cs).dropWhile valueChar)

/-- What is assigned behind the name of the setting. -/
def assignedEncoding (t : List UInt8) : Option (List UInt8 × List UInt8) :=
  match behindKeyword (ascii "=") (skipBlanks t) with
  | some value => encodingValue (skipBlanks value)
  | none =>
    if startsBlank t then
      (behindKeyword (ascii "to") (skipBlanks t)).bind fun value ↦
        if startsBlank value ∨ value.head? = some literalQuote then encodingValue (skipBlanks value)
        else none
    else none

/-- The name that the command at the beginning of a text sets the encoding to, and what is behind
it. -/
def encodingCommand (t : List UInt8) : Option (List UInt8 × List UInt8) :=
  (behindKeyword (ascii "set") (skipBlanks t)).bind fun u ↦
    if startsBlank u then
      (behindKeyword (ascii "client_encoding") (skipBlanks u)).bind assignedEncoding
    else none

/-- What is behind the next semicolon that is not in quotes. -/
def behindSeparator : Bool → List UInt8 → Option (List UInt8)
  | _, [] => none
  | inQuote, c :: t =>
    if c = literalQuote then behindSeparator (!inQuote) t
    else if c = semicolon ∧ inQuote = false then some t
    else behindSeparator inQuote t

/-- What is behind the command that sets the encoding, if it is one. -/
def commandRest (t : List UInt8) : List UInt8 := (encodingCommand t).elim t Prod.snd

theorem length_behindSeparator {inQuote : Bool} {t u : List UInt8}
    (h : behindSeparator inQuote t = some u) : u.length < t.length := by
  induction t generalizing inQuote with
  | nil => cases h
  | cons c t ih =>
    rw [behindSeparator] at h
    split at h
    · exact Nat.lt_succ_of_lt (ih h)
    · split at h
      · cases h
        exact Nat.lt_succ_self _
      · exact Nat.lt_succ_of_lt (ih h)

theorem behindKeyword_suffix {word t u : List UInt8} (h : behindKeyword word t = some u) :
    u <:+ t := by
  rw [behindKeyword] at h
  split at h
  · cases h
    exact List.drop_suffix _ _
  · cases h

theorem encodingValue_suffix {t name u : List UInt8} (h : encodingValue t = some (name, u)) :
    u <:+ t := by
  cases t with
  | nil => cases h
  | cons c cs =>
    rw [encodingValue] at h
    split at h
    · split at h
      · cases h
        exact ((List.tail_suffix _).trans (List.dropWhile_suffix _)).trans (List.suffix_cons c cs)
      · cases h
    · split at h
      · cases h
      · cases h
        exact List.dropWhile_suffix _

theorem skipBlanks_suffix (t : List UInt8) : skipBlanks t <:+ t := List.dropWhile_suffix _

theorem assignedEncoding_suffix {t name u : List UInt8}
    (h : assignedEncoding t = some (name, u)) : u <:+ t := by
  rw [assignedEncoding] at h
  split at h
  · next value hvalue =>
    exact (encodingValue_suffix h).trans ((skipBlanks_suffix _).trans
      ((behindKeyword_suffix hvalue).trans (skipBlanks_suffix _)))
  · split at h
    · obtain ⟨value, hvalue, h⟩ := Option.bind_eq_some_iff.1 h
      split at h
      · exact (encodingValue_suffix h).trans ((skipBlanks_suffix _).trans
          ((behindKeyword_suffix hvalue).trans (skipBlanks_suffix _)))
      · cases h
    · cases h

theorem commandRest_suffix (t : List UInt8) : commandRest t <:+ t := by
  rw [commandRest]
  cases h : encodingCommand t with
  | none => exact List.suffix_rfl
  | some r =>
    obtain ⟨u, hu, h⟩ := Option.bind_eq_some_iff.1 h
    split at h
    · obtain ⟨v, hv, h⟩ := Option.bind_eq_some_iff.1 h
      exact (assignedEncoding_suffix h).trans ((behindKeyword_suffix hv).trans
        ((skipBlanks_suffix _).trans ((behindKeyword_suffix hu).trans (skipBlanks_suffix _))))
    · cases h

/-- The texts from the beginning of each command on. -/
def commandStarts (t : List UInt8) : List (List UInt8) :=
  t :: match _h : behindSeparator false (commandRest t) with
    | some u => commandStarts u
    | none => []
termination_by t.length
decreasing_by exact Nat.lt_of_lt_of_le (length_behindSeparator _h) (commandRest_suffix t).length_le

/-- The name in the last command that sets the encoding. -/
def lastEncoding (t : List UInt8) : PgName :=
  ((commandStarts t).filterMap fun u ↦ (encodingCommand u).map Prod.fst).getLast?

/-! ## What the loop takes in another way -/

/-- Behind a word there is a character other than a blank, and it is a semicolon, or the loop finds
what it looks for behind it. -/
def gapRuns (next : List UInt8 → Bool) : List UInt8 → Bool
  | [] => false
  | x :: t => !isSpace x && (x = semicolon || next (skipBlanks t))

/-- Behind the name of the setting. -/
def assignedRuns (t : List UInt8) : Bool :=
  if t.head? = some equalsSign ∨ startsBlank t then
    if strnicmpEq (skipBlanks t) (ascii "=") then false
    else
      (behindKeyword (ascii "to") (skipBlanks t)).any fun value ↦
        value.head? = some literalQuote || gapRuns (fun r ↦ r.head?.any (· ≠ semicolon)) value
  else gapRuns (fun r ↦ strnicmpEq r (ascii "to") || strnicmpEq r (ascii "=")) t

/-- A character that stands in the place of a blank is passed over in the command at the beginning
of a text, and the next word is found behind it. -/
def runsTogether (t : List UInt8) : Bool :=
  (behindKeyword (ascii "set") (skipBlanks t)).any fun u ↦
    if startsBlank u then (behindKeyword (ascii "client_encoding") (skipBlanks u)).any assignedRuns
    else gapRuns (fun r ↦ strnicmpEq r (ascii "client_encoding")) u

/-- What is behind the next semicolon. -/
def behindSemicolon : List UInt8 → Option (List UInt8)
  | [] => none
  | c :: t => if c = semicolon then some t else behindSemicolon t

/-- The next semicolon is in quotes. -/
def hidesSeparator (t : List UInt8) : Bool :=
  behindSeparator false t ≠ behindSemicolon t

/-- The text ends in a value. -/
def valueEnds : List UInt8 → Bool
  | [] => false
  | c :: cs =>
    if c = literalQuote then literalQuote ∉ cs
    else c ≠ semicolon && (c :: cs).dropWhile valueChar = []

def assignedEnds (t : List UInt8) : Bool :=
  t = [] ||
    if strnicmpEq (skipBlanks t) (ascii "=") then valueEnds (skipBlanks ((skipBlanks t).drop 1))
    else
      startsBlank t && (behindKeyword (ascii "to") (skipBlanks t)).any fun value ↦
        value = [] || startsBlank value && valueEnds (skipBlanks value)

/-- The text ends in the command at its beginning: in one of its words, or in its value. -/
def endsInside (t : List UInt8) : Bool :=
  (behindKeyword (ascii "set") (skipBlanks t)).any fun u ↦
    u = [] || startsBlank u &&
      (behindKeyword (ascii "client_encoding") (skipBlanks u)).any assignedEnds

/-! ## Steps of the loop -/

section

variable {c : UInt8} {cs t word : List UInt8} {acc : PgName} {s : EncodingScan} {k n : Nat}

/-- Passing over characters, which must be there. -/
theorem encodingLoop_skip (n : Nat) (s : EncodingScan) (t : List UInt8) :
    encodingLoop n s t = if n ≤ t.length then encodingLoop 0 s (t.drop n) else none := by
  induction t generalizing n with
  | nil =>
    cases n with
    | zero => rfl
    | succ n => rfl
  | cons c t ih =>
    cases n with
    | zero => rfl
    | succ n =>
      rw [encodingLoop, ih, List.length_cons, List.drop_succ_cons]
      simp only [Nat.succ_le_succ_iff]

/-- All of the characters passed over are there. -/
theorem encodingLoop_over (u : List UInt8) (s : EncodingScan) (t : List UInt8) :
    encodingLoop u.length s (u ++ t) = encodingLoop 0 s t := by
  rw [encodingLoop_skip, List.length_append, if_pos (Nat.le_add_right _ _), List.drop_left]

/-- The loop goes on behind the terminator. -/
theorem encodingLoop_past (h : t.length < n) : encodingLoop n s t = none := by
  rw [encodingLoop_skip, if_neg (Nat.not_le.2 h)]

theorem encodingLoop_moved {state : EncodingScan} (h : encodingStep s c cs = (state, n + 1)) :
    encodingLoop 0 s (c :: cs) = encodingLoop n state cs := by
  rw [encodingLoop, h]
  rfl

/-- Looking for the next command. -/
def rescan (acc : PgName) (t : List UInt8) : Option PgName :=
  (behindSemicolon t).elim (some acc) (encodingLoop 0 ⟨true, 0, acc⟩)

theorem rescan_cons (h : c ≠ semicolon) : rescan acc (c :: t) = rescan acc t := by
  rw [rescan, behindSemicolon, if_neg h, rescan]

theorem rescan_append {u : List UInt8} (h : semicolon ∉ u) :
    rescan acc (u ++ t) = rescan acc t := by
  induction u with
  | nil => rfl
  | cons c u ih =>
    rw [List.cons_append, rescan_cons fun hc ↦ h (hc ▸ List.mem_cons_self),
      ih (List.not_mem_of_not_mem_cons h)]

/-- The rest of a command is passed over. -/
theorem encodingLoop_passed (h : s.allowedCmd = false ∨ s.step = 4) :
    encodingLoop 0 s t = rescan s.found t := by
  induction t with
  | nil => rfl
  | cons c t ih =>
    by_cases hc : c = semicolon
    · subst hc
      rfl
    · have hstep : encodingStep s c t = (s, 1) := by
        rw [encodingStep]
        dsimp only
        rw [if_neg hc]
        rcases h with h | h
        · rw [h]
          rfl
        · obtain ⟨allowedCmd, step, found⟩ := s
          cases h
          split
          · rfl
          · split <;> rfl
      rw [encodingLoop, hstep, rescan_cons hc]
      exact ih

/-- Blanks are passed over. -/
theorem encodingLoop_skipBlanks (s : EncodingScan) (t : List UInt8) :
    encodingLoop 0 s t = encodingLoop 0 s (skipBlanks t) := by
  induction t with
  | nil => rfl
  | cons c t ih =>
    by_cases hc : isSpace c = true
    · have hsemi : c ≠ semicolon := by
        rintro rfl
        exact absurd hc (by decide)
      have hstep : encodingStep s c t = (s, 1) := by
        rw [encodingStep]
        dsimp only
        rw [if_neg hsemi, if_pos hc, ite_self]
      rw [encodingLoop, hstep, skipBlanks, List.dropWhile_cons_of_pos hc]
      exact ih
    · rw [skipBlanks, List.dropWhile_cons_of_neg hc]

theorem semicolon_notMem_blanks (t : List UInt8) :
    ∃ u, t = u ++ skipBlanks t ∧ semicolon ∉ u := by
  refine ⟨t.takeWhile isSpace, List.takeWhile_append_dropWhile.symm, ?_⟩
  intro hmem
  exact absurd (List.mem_takeWhile_imp hmem) (by decide)

theorem rescan_skipBlanks (acc : PgName) (t : List UInt8) :
    rescan acc (skipBlanks t) = rescan acc t := by
  obtain ⟨u, hu, hmem⟩ := semicolon_notMem_blanks t
  conv_rhs => rw [hu]
  exact (rescan_append hmem).symm

/-- A word and what is behind it. -/
theorem behindKeyword_eq_some (h : strnicmpEq t word = true) :
    behindKeyword word t = some (t.drop word.length) := by
  rw [behindKeyword, if_pos h]

theorem behindKeyword_eq_none (h : ¬strnicmpEq t word = true) : behindKeyword word t = none := by
  rw [behindKeyword, if_neg h]

/-- A word has as many characters, and no other than those of the word in any case. -/
theorem take_of_strnicmpEq (h : strnicmpEq t word = true) :
    word.length ≤ t.length ∧ (t.take word.length).map toLower = word := by
  rw [strnicmpEq, decide_eq_true_eq] at h
  refine ⟨?_, h⟩
  have hlen := congrArg List.length h
  rw [List.length_map, List.length_take] at hlen
  omega

theorem rescan_drop_word (h : strnicmpEq t word = true) (hword : semicolon ∉ word) :
    rescan acc (t.drop word.length) = rescan acc t := by
  conv_rhs => rw [← List.take_append_drop word.length t]
  refine (rescan_append ?_).symm
  intro hmem
  refine hword ?_
  rw [← (take_of_strnicmpEq h).2]
  exact List.mem_map.2 ⟨semicolon, hmem, rfl⟩

/-- No word begins with a semicolon or a blank. -/
theorem head_of_strnicmpEq {w : UInt8} {ws : List UInt8}
    (h : strnicmpEq (c :: cs) (w :: ws) = true) (hw : 0x30 ≤ w ∧ w ≠ semicolon) :
    c ≠ semicolon ∧ isSpace c = false := by
  have hc : toLower c = w := (List.cons.inj (take_of_strnicmpEq h).2).1
  constructor
  · rintro rfl
    exact hw.2 hc.symm
  · rw [Bool.eq_false_iff]
    intro hspace
    have hle := le_of_isSpace hspace
    have hlower : toLower c = c := by
      rw [toLower, if_neg]
      intro hupper
      rw [Bool.and_eq_true, decide_eq_true_eq] at hupper
      exact absurd (UInt8.le_trans hupper.1 hle) (by decide)
    rw [hlower] at hc
    exact absurd (UInt8.le_trans (hc ▸ hw.1) hle) (by decide)

/-- A word is found at its step: what the loop makes of a text that does not begin with a blank. -/
theorem encodingLoop_at {w : UInt8} {ws : List UInt8} (n : Nat) (state : EncodingScan)
    (hw : 0x30 ≤ w ∧ w ≠ semicolon) (h : strnicmpEq (c :: cs) (w :: ws) = true)
    (hstep : c ≠ semicolon → isSpace c = false →
      encodingStep ⟨true, k, acc⟩ c cs = (state, n + 1)) :
    encodingLoop 0 ⟨true, k, acc⟩ (c :: cs) =
      if n + 1 ≤ (c :: cs).length then encodingLoop 0 state ((c :: cs).drop (n + 1)) else none := by
  obtain ⟨hsemi, hspace⟩ := head_of_strnicmpEq h hw
  rw [encodingLoop_moved (hstep hsemi hspace), encodingLoop_skip, List.drop_succ_cons,
    List.length_cons]
  simp only [Nat.succ_le_succ_iff]

/-- Text that does not begin with the word looked for. -/
theorem encodingLoop_other
    (hstep : ∀ c cs, skipBlanks t = c :: cs → c ≠ semicolon → isSpace c = false →
      encodingStep ⟨true, k, acc⟩ c cs = (⟨false, k, acc⟩, 1)) :
    encodingLoop 0 ⟨true, k, acc⟩ t = rescan acc t := by
  rw [encodingLoop_skipBlanks, ← rescan_skipBlanks]
  cases ht : skipBlanks t with
  | nil => rfl
  | cons c cs =>
    have hspace : isSpace c = false := by
      have h := List.head?_dropWhile_not isSpace t
      rw [show t.dropWhile isSpace = c :: cs from ht] at h
      exact h
    by_cases hc : c = semicolon
    · rw [hc]
      rfl
    · rw [encodingLoop, hstep c cs ht hc hspace, rescan_cons hc]
      exact encodingLoop_passed (Or.inl rfl)

theorem encodingLoop_zero (t : List UInt8) :
    encodingLoop 0 ⟨true, 0, acc⟩ t =
      (behindKeyword (ascii "set") (skipBlanks t)).elim (rescan acc t) fun u ↦
        if u = [] then none else encodingLoop 0 ⟨true, 1, acc⟩ (u.drop 1) := by
  have hword : ascii "set" = 0x73 :: [0x65, 0x74] := by decide
  by_cases h : strnicmpEq (skipBlanks t) (ascii "set") = true
  · rw [behindKeyword_eq_some h, Option.elim_some, encodingLoop_skipBlanks, hword]
    cases ht : skipBlanks t with
    | nil =>
      rw [ht] at h
      exact absurd h (by decide)
    | cons c cs =>
      rw [ht] at h
      rw [encodingLoop_at 3 ⟨true, 1, acc⟩ (by decide) (hword ▸ h), List.drop_drop]
      · simp only [List.drop_eq_nil_iff, List.length_cons, List.length_nil]
        split <;> split <;> first | rfl | omega
      · intro hsemi hspace
        simp [encodingStep, hsemi, hspace, h]
  · rw [behindKeyword_eq_none h, Option.elim_none]
    apply encodingLoop_other
    intro c cs ht hsemi hspace
    rw [ht] at h
    simp [encodingStep, hsemi, hspace, h]

theorem encodingLoop_one (t : List UInt8) :
    encodingLoop 0 ⟨true, 1, acc⟩ t =
      (behindKeyword (ascii "client_encoding") (skipBlanks t)).elim (rescan acc t) fun u ↦
        if u = [] then none
        else encodingLoop 0 ⟨true, 2, acc⟩ (if u.head? = some equalsSign then u else u.drop 1) := by
  have hword : ∃ ws, ascii "client_encoding" = 0x63 :: ws := ⟨_, rfl⟩
  have hlen : (ascii "client_encoding").length = 15 := by decide
  by_cases h : strnicmpEq (skipBlanks t) (ascii "client_encoding") = true
  · rw [behindKeyword_eq_some h, Option.elim_some, encodingLoop_skipBlanks, hlen]
    obtain ⟨ws, hword⟩ := hword
    cases ht : skipBlanks t with
    | nil =>
      rw [ht] at h
      exact absurd h (by decide)
    | cons c cs =>
      rw [ht] at h
      by_cases hequals : (c :: cs)[15]? = some equalsSign
      · have hroom : 15 < (c :: cs).length := by
          by_contra hle
          rw [List.getElem?_eq_none (Nat.not_lt.1 hle)] at hequals
          cases hequals
        rw [encodingLoop_at 14 ⟨true, 2, acc⟩ (by decide) (hword ▸ h),
          if_pos (Nat.le_of_lt hroom), List.head?_drop, if_pos hequals, if_neg]
        · rw [List.drop_eq_nil_iff]
          exact Nat.not_le.2 hroom
        · intro hsemi hspace
          simp [encodingStep, hsemi, hspace, h, hequals]
      · rw [encodingLoop_at 15 ⟨true, 2, acc⟩ (by decide) (hword ▸ h),
          List.head?_drop, if_neg hequals, List.drop_drop]
        · simp only [List.drop_eq_nil_iff]
          split <;> split <;> first | rfl | omega
        · intro hsemi hspace
          have hnext : ¬cs[14]? = some equalsSign := hequals
          simp [encodingStep, hsemi, hspace, h, hnext]
  · rw [behindKeyword_eq_none h, Option.elim_none]
    apply encodingLoop_other
    intro c cs ht hsemi hspace
    rw [ht] at h
    simp [encodingStep, hsemi, hspace, h]

theorem encodingLoop_two (t : List UInt8) :
    encodingLoop 0 ⟨true, 2, acc⟩ t =
      if strnicmpEq (skipBlanks t) (ascii "=") then
        encodingLoop 0 ⟨true, 3, acc⟩ ((skipBlanks t).drop 1)
      else (behindKeyword (ascii "to") (skipBlanks t)).elim (rescan acc t) fun u ↦
        if u = [] then none else encodingLoop 0 ⟨true, 3, acc⟩ (u.drop 1) := by
  have hword : ascii "to" = [0x74, 0x6f] := by decide
  have hequals : ascii "=" = [equalsSign] := by decide
  by_cases he : strnicmpEq (skipBlanks t) (ascii "=") = true
  · rw [if_pos he, encodingLoop_skipBlanks]
    cases ht : skipBlanks t with
    | nil =>
      rw [ht] at he
      exact absurd he (by decide)
    | cons c cs =>
      rw [ht] at he
      have hto : strnicmpEq (c :: cs) (ascii "to") = false := by
        rw [Bool.eq_false_iff]
        intro hto
        rw [hword] at hto
        rw [hequals] at he
        have h1 := (List.cons.inj (take_of_strnicmpEq hto).2).1
        have h2 := (List.cons.inj (take_of_strnicmpEq he).2).1
        rw [h1] at h2
        exact absurd h2 (by decide)
      rw [encodingLoop_at 0 ⟨true, 3, acc⟩ (by decide) (hequals ▸ he),
        if_pos (show 0 + 1 ≤ (c :: cs).length from Nat.succ_pos _)]
      intro hsemi hspace
      simp [encodingStep, hsemi, hspace, he, hto]
  · rw [if_neg he]
    by_cases h : strnicmpEq (skipBlanks t) (ascii "to") = true
    · rw [behindKeyword_eq_some h, Option.elim_some, encodingLoop_skipBlanks, hword]
      cases ht : skipBlanks t with
      | nil =>
        rw [ht] at h
        exact absurd h (by decide)
      | cons c cs =>
        rw [ht] at h
        rw [encodingLoop_at 2 ⟨true, 3, acc⟩ (by decide) (hword ▸ h),
          List.drop_drop]
        · simp only [List.drop_eq_nil_iff, List.length_cons, List.length_nil]
          split <;> split <;> first | rfl | omega
        · intro hsemi hspace
          simp [encodingStep, hsemi, hspace, h]
    · rw [behindKeyword_eq_none h, Option.elim_none]
      apply encodingLoop_other
      intro c cs ht hsemi hspace
      rw [ht] at h he
      simp [encodingStep, hsemi, hspace, h, he]

/-- The value: the text ends in it, or the loop looks for the next command behind it. -/
theorem encodingLoop_three (t : List UInt8) :
    encodingLoop 0 ⟨true, 3, acc⟩ t =
      if valueEnds (skipBlanks t) then none
      else (encodingValue (skipBlanks t)).elim (rescan acc t) fun v ↦ rescan (some v.1) v.2 := by
  rw [encodingLoop_skipBlanks, ← rescan_skipBlanks]
  cases ht : skipBlanks t with
  | nil => rfl
  | cons c cs =>
    have hspace : isSpace c = false := by
      have h := List.head?_dropWhile_not isSpace t
      rw [show t.dropWhile isSpace = c :: cs from ht] at h
      exact h
    rw [valueEnds, encodingValue]
    by_cases hsemi : c = semicolon
    · subst hsemi
      rfl
    by_cases hquote : c = literalQuote
    · have hstep : encodingStep ⟨true, 3, acc⟩ c cs =
          (⟨true, 4, some (cs.takeWhile (· ≠ literalQuote))⟩,
            (cs.takeWhile (· ≠ literalQuote)).length + 1 + 1) := by
        rw [encodingStep]
        dsimp only
        rw [if_neg hsemi, if_neg (by decide), hspace, if_neg Bool.false_ne_true]
        exact if_pos hquote
      rw [encodingLoop_moved hstep, if_pos hquote, if_pos hquote]
      rcases Lib.exists_split literalQuote cs with hmem | ⟨u, r, rfl, hu⟩
      · have htake : cs.takeWhile (· ≠ literalQuote) = cs := by
          rw [List.takeWhile_eq_self_iff]
          intro x hx
          exact decide_eq_true fun heq ↦ hmem (heq ▸ hx)
        rw [htake, encodingLoop_past (Nat.lt_succ_self _), if_pos (decide_eq_true hmem)]
      · have hfree : ∀ x ∈ u, decide (x ≠ literalQuote) = true := by
          intro x hx
          exact decide_eq_true fun heq ↦ hu (heq ▸ hx)
        have hmem : literalQuote ∈ u ++ literalQuote :: r := by simp
        have htake : (u ++ literalQuote :: r).takeWhile (· ≠ literalQuote) = u := by
          rw [List.takeWhile_append_of_pos hfree, List.takeWhile_cons_of_neg (by simp),
            List.append_nil]
        have hdrop : (u ++ literalQuote :: r).dropWhile (· ≠ literalQuote) = literalQuote :: r := by
          rw [List.dropWhile_append_of_pos hfree, List.dropWhile_cons_of_neg (by simp)]
        have hover := encodingLoop_over (u ++ [literalQuote]) ⟨true, 4, some u⟩ r
        rw [List.length_append, List.append_assoc] at hover
        rw [htake, hdrop, if_pos hmem, if_neg (by simp), Option.elim_some]
        exact hover.trans (encodingLoop_passed (Or.inr rfl))
    · generalize hname : (c :: cs).takeWhile valueChar = name
      have hsplit : name ++ (c :: cs).dropWhile valueChar = c :: cs := by
        rw [← hname, List.takeWhile_append_dropWhile]
      generalize hrest : (c :: cs).dropWhile valueChar = rest at hsplit
      have hstep : encodingStep ⟨true, 3, acc⟩ c cs = (⟨true, 4, some name⟩,
          if rest.head? = some semicolon then name.length else name.length + 1) := by
        rw [encodingStep]
        dsimp only
        rw [if_neg hsemi, if_neg (by decide), hspace, if_neg Bool.false_ne_true]
        refine (if_neg hquote).trans ?_
        rw [hname, ← hsplit, List.getElem?_append_right (Nat.le_refl _), Nat.sub_self,
          List.head?_eq_getElem?]
      rw [if_neg hquote, if_neg hquote, if_neg hsemi, Option.elim_some]
      cases rest with
      | nil =>
        rw [List.append_nil] at hsplit
        rw [hsplit] at hstep
        rw [encodingLoop_moved hstep, List.length_cons, encodingLoop_past (Nat.lt_succ_self _)]
        simp [hsemi]
      | cons x r =>
        rw [if_neg (by simp)]
        cases name with
        | nil =>
          obtain ⟨rfl, rfl⟩ := List.cons.inj hsplit
          rw [List.head?_cons, if_neg (by simpa using hsemi)] at hstep
          rw [encodingLoop_moved hstep, List.length_nil, encodingLoop_passed (Or.inr rfl),
            rescan_cons hsemi]
        | cons c' name =>
          rw [List.cons_append] at hsplit
          obtain ⟨rfl, rfl⟩ := List.cons.inj hsplit
          by_cases hx : x = semicolon
          · rw [hx, List.head?_cons, if_pos rfl] at hstep
            rw [hx, encodingLoop_moved hstep, encodingLoop_over, encodingLoop_passed (Or.inr rfl)]
          · rw [List.head?_cons, if_neg (by simpa using hx)] at hstep
            have hover := encodingLoop_over (name ++ [x]) ⟨true, 4, some (c' :: name)⟩ r
            rw [List.length_append, List.append_assoc] at hover
            rw [encodingLoop_moved hstep, rescan_cons hx]
            exact hover.trans (encodingLoop_passed (Or.inr rfl))

end

/-! ## Commands -/

section

variable {x : UInt8} {t u v w word : List UInt8} {acc : PgName} {s : EncodingScan}

theorem encodingLoop_blank (h : isSpace x = true) :
    encodingLoop 0 s (x :: w) = encodingLoop 0 s w := by
  rw [encodingLoop_skipBlanks, skipBlanks, List.dropWhile_cons_of_pos h]
  exact (encodingLoop_skipBlanks s w).symm

theorem skipBlanks_cons (h : isSpace x = false) : skipBlanks (x :: w) = x :: w :=
  List.dropWhile_cons_of_neg (by rw [h]; decide)

theorem startsBlank_cons (x : UInt8) (w : List UInt8) : startsBlank (x :: w) = isSpace x := rfl

theorem rescan_behindKeyword (acc : PgName) (hword : semicolon ∉ word)
    (h : behindKeyword word (skipBlanks t) = some u) :
    rescan acc u = rescan acc t := by
  rw [behindKeyword] at h
  split at h
  · next hmatch =>
    cases h
    rw [rescan_drop_word hmatch hword, rescan_skipBlanks]
  · cases h

theorem gapRuns_eq_false {next : List UInt8 → Bool} (hx : ¬isSpace x = true)
    (h : gapRuns next (x :: w) = false) : x ≠ semicolon ∧ next (skipBlanks w) = false := by
  rwa [gapRuns, Bool.eq_false_iff.2 hx, Bool.not_false, Bool.true_and, Bool.or_eq_false_iff,
    decide_eq_false_iff_not] at h

/-- What comes of a command: the text ends in it, it has no name, or it has. -/
def commandOutcome (acc : PgName) (t : List UInt8) (ends : Bool)
    (command : Option (List UInt8 × List UInt8)) : Option PgName :=
  if ends then none else command.elim (rescan acc t) fun v ↦ rescan (some v.1) v.2

/-- The loop at a value. -/
theorem encodingLoop_value (hu : rescan acc u = rescan acc t) :
    encodingLoop 0 ⟨true, 3, acc⟩ u =
      commandOutcome acc t (valueEnds (skipBlanks u)) (encodingValue (skipBlanks u)) := by
  rw [encodingLoop_three, hu, commandOutcome]

/-- The loop behind the name of the setting. -/
theorem encodingLoop_assigned (hruns : assignedRuns v = false) :
    (if v = [] then none
      else encodingLoop 0 ⟨true, 2, acc⟩ (if v.head? = some equalsSign then v else v.drop 1)) =
      commandOutcome acc v (assignedEnds v) (assignedEncoding v) := by
  have hequals : ascii "=" = [equalsSign] := by decide
  cases v with
  | nil => rfl
  | cons x w =>
    rw [if_neg (List.cons_ne_nil x w), List.head?_cons]
    rw [assignedRuns, List.head?_cons, startsBlank_cons] at hruns
    rw [assignedEnds, assignedEncoding, startsBlank_cons]
    by_cases hx : some x = some equalsSign ∨ isSpace x = true
    · -- The loop goes on at the name's end.
      have hloop : encodingLoop 0 ⟨true, 2, acc⟩
          (if some x = some equalsSign then x :: w else (x :: w).drop 1) =
            encodingLoop 0 ⟨true, 2, acc⟩ (x :: w) := by
        split
        · rfl
        · next hne => exact (encodingLoop_blank (hx.resolve_left hne)).symm
      rw [if_pos hx] at hruns
      rw [hloop, encodingLoop_two]
      by_cases he : strnicmpEq (skipBlanks (x :: w)) (ascii "=") = true
      · have hbehind : behindKeyword (ascii "=") (skipBlanks (x :: w)) =
            some ((skipBlanks (x :: w)).drop 1) := behindKeyword_eq_some he
        rw [if_pos he, hbehind, if_pos he]
        exact encodingLoop_value (rescan_behindKeyword acc (by decide) hbehind)
      · have hspace : isSpace x = true := by
          refine hx.resolve_left fun heq ↦ he ?_
          rw [Option.some_inj.1 heq, hequals]
          rfl
        rw [if_neg he] at hruns
        rw [if_neg he, behindKeyword_eq_none he, if_neg he, hspace, if_pos rfl]
        cases hto : behindKeyword (ascii "to") (skipBlanks (x :: w)) with
        | none => rfl
        | some value =>
          have hrescan := rescan_behindKeyword acc (by decide) hto
          rw [hto, Option.any_some, Bool.or_eq_false_iff, decide_eq_false_iff_not] at hruns
          rw [Option.elim_some, Option.any_some, Option.bind_some]
          cases value with
          | nil => rfl
          | cons y z =>
            rw [if_neg (List.cons_ne_nil y z), List.drop_succ_cons, List.drop_zero,
              startsBlank_cons]
            by_cases hy : isSpace y = true
            · rw [← encodingLoop_blank hy, encodingLoop_value hrescan, hy, if_pos (Or.inl rfl)]
              rfl
            · have hquote : y ≠ literalQuote := fun heq ↦ hruns.1 (congrArg some heq)
              obtain ⟨hsemi, hnext⟩ := gapRuns_eq_false hy hruns.2
              -- Nothing but the end of the command is behind the character passed over.
              have hnone : valueEnds (skipBlanks z) = false ∧
                  encodingValue (skipBlanks z) = none := by
                cases hz : skipBlanks z with
                | nil => exact ⟨rfl, rfl⟩
                | cons c cs =>
                  rw [hz, List.head?_cons, Option.any_some, decide_eq_false_iff_not,
                    not_not] at hnext
                  rw [hnext]
                  exact ⟨rfl, rfl⟩
              have hvalue : ¬(false = true ∨ (y :: z).head? = some literalQuote) := by
                rintro (h | h)
                · cases h
                · exact hquote (Option.some_inj.1 h)
              rw [encodingLoop_three, hnone.1, hnone.2, Bool.eq_false_iff.2 hy, commandOutcome,
                ← hrescan, rescan_cons hsemi]
              dsimp only
              rw [if_neg hvalue]
              rfl
    · rw [if_neg hx] at hruns
      rw [not_or] at hx
      obtain ⟨hsemi, hnext⟩ := gapRuns_eq_false hx.2 hruns
      rw [Bool.or_eq_false_iff] at hnext
      have hspace := Bool.eq_false_iff.2 hx.2
      have he : ¬strnicmpEq (x :: w) (ascii "=") = true := by
        intro he
        rw [hequals] at he
        have heq := (List.cons.inj (take_of_strnicmpEq he).2).1
        refine hx.1 (congrArg some ?_)
        rw [toLower] at heq
        split at heq
        · next hupper =>
          rw [Bool.and_eq_true, decide_eq_true_eq, decide_eq_true_eq] at hupper
          refine absurd heq fun heq ↦ ?_
          have hx' : x = equalsSign - 0x20 := by rw [← heq, UInt8.add_sub_cancel]
          rw [hx'] at hupper
          exact absurd hupper.1 (by decide)
        · exact heq
      rw [if_neg hx.1, List.drop_succ_cons, List.drop_zero, encodingLoop_two, hnext.2,
        behindKeyword_eq_none (by rw [hnext.1]; decide), skipBlanks_cons hspace, if_neg he,
        behindKeyword_eq_none he, hspace, commandOutcome, rescan_cons hsemi]
      rfl

/-- The loop at a command. -/
theorem encodingLoop_command (hruns : runsTogether t = false) :
    encodingLoop 0 ⟨true, 0, acc⟩ t = commandOutcome acc t (endsInside t) (encodingCommand t) := by
  rw [encodingLoop_zero]
  rw [runsTogether] at hruns
  rw [endsInside, encodingCommand]
  cases hset : behindKeyword (ascii "set") (skipBlanks t) with
  | none => rfl
  | some u =>
    have hrescan := rescan_behindKeyword acc (by decide) hset
    rw [hset, Option.any_some] at hruns
    rw [Option.elim_some, Option.any_some, Option.bind_some]
    cases u with
    | nil => rfl
    | cons x w =>
      rw [startsBlank_cons] at hruns
      rw [if_neg (List.cons_ne_nil x w), List.drop_succ_cons, List.drop_zero, startsBlank_cons]
      by_cases hx : isSpace x = true
      · rw [if_pos hx] at hruns
        rw [← encodingLoop_blank hx, encodingLoop_one, hrescan, if_pos hx, hx]
        cases hname : behindKeyword (ascii "client_encoding") (skipBlanks (x :: w)) with
        | none => rfl
        | some v =>
          have hrescan' := rescan_behindKeyword acc (by decide) hname
          rw [hname, Option.any_some] at hruns
          rw [Option.elim_some, Option.any_some, Option.bind_some, encodingLoop_assigned hruns,
            commandOutcome, commandOutcome, hrescan', hrescan]
          rfl
      · rw [if_neg hx] at hruns
        obtain ⟨hsemi, hnext⟩ := gapRuns_eq_false hx hruns
        rw [encodingLoop_one, behindKeyword_eq_none (by rw [hnext]; decide), if_neg hx,
          Bool.eq_false_iff.2 hx, commandOutcome, ← hrescan, rescan_cons hsemi]
        rfl

end

/-! ## Runs -/

/-- Blanks stand between the words of each command, and the semicolon the loop finds behind it is
not in quotes. -/
def PlainSettings (t : List UInt8) : Prop :=
  ∀ u ∈ commandStarts t, runsTogether u = false ∧ hidesSeparator (commandRest u) = false

section

variable {t u : List UInt8} {acc : PgName}

theorem commandStarts_last (h : behindSeparator false (commandRest t) = none) :
    commandStarts t = [t] := by
  rw [commandStarts]
  split
  · next u hu =>
    rw [h] at hu
    cases hu
  · rfl

theorem commandStarts_cons (h : behindSeparator false (commandRest t) = some u) :
    commandStarts t = t :: commandStarts u := by
  rw [commandStarts]
  split
  · next v hv =>
    rw [h] at hv
    cases hv
    rfl
  · next hnone =>
    rw [h] at hnone
    cases hnone

theorem lastEncoding_last (h : behindSeparator false (commandRest t) = none) :
    lastEncoding t = (encodingCommand t).map Prod.fst := by
  rw [lastEncoding, commandStarts_last h, List.filterMap_cons]
  cases encodingCommand t with
  | none => rfl
  | some v => rfl

/-- A later name takes the place of the first. -/
theorem lastEncoding_cons (h : behindSeparator false (commandRest t) = some u) :
    lastEncoding t = (lastEncoding u).or ((encodingCommand t).map Prod.fst) := by
  rw [lastEncoding, lastEncoding, commandStarts_cons h, List.filterMap_cons]
  cases encodingCommand t with
  | none => exact Option.or_none.symm
  | some v =>
    rw [Option.map_some, List.getLast?_cons]
    cases List.getLast? _ with
    | none => rfl
    | some name => rfl

theorem encodingCommand_outcome (acc : PgName) (t : List UInt8) :
    commandOutcome acc t false (encodingCommand t) =
      rescan (((encodingCommand t).map Prod.fst).or acc) (commandRest t) := by
  rw [commandRest]
  cases encodingCommand t with
  | none => rfl
  | some v => rfl

/-- What the loop finds in the settings: the last name, or none before it runs over the end. -/
theorem encodingLoop_run (acc : PgName) (hplain : PlainSettings t) :
    encodingLoop 0 ⟨true, 0, acc⟩ t =
      if (commandStarts t).any endsInside then none else some ((lastEncoding t).or acc) := by
  induction hn : t.length using Nat.strong_induction_on generalizing t acc with
  | h n ih =>
    have hmem : t ∈ commandStarts t := by
      rw [commandStarts]
      exact List.mem_cons_self
    obtain ⟨hruns, hhides⟩ := hplain t hmem
    rw [encodingLoop_command hruns]
    cases hends : endsInside t with
    | true =>
      rw [commandStarts, List.any_cons, hends, Bool.true_or, if_pos rfl]
      rfl
    | false =>
      rw [encodingCommand_outcome, rescan]
      rw [hidesSeparator, decide_eq_false_iff_not, not_not] at hhides
      rw [← hhides]
      cases hnext : behindSeparator false (commandRest t) with
      | none =>
        rw [commandStarts_last hnext, List.any_cons, hends, List.any_nil, Bool.or_false,
          if_neg Bool.false_ne_true, Option.elim_none, lastEncoding_last hnext]
      | some u =>
        have hlt : u.length < n :=
          hn ▸ Nat.lt_of_lt_of_le (length_behindSeparator hnext) (commandRest_suffix t).length_le
        have hrest : PlainSettings u := by
          intro v hv
          apply hplain v
          rw [commandStarts_cons hnext]
          exact List.mem_cons_of_mem t hv
        rw [commandStarts_cons hnext, List.any_cons, hends, Bool.false_or, Option.elim_some,
          ih u.length hlt _ hrest rfl, lastEncoding_cons hnext, Option.or_assoc]

end

/-- Where the words of the commands stand apart, the name found is that of the last command, unless
the settings end inside one: then the loop has passed the terminator. -/
theorem checkClientEncoding_iff {t : List UInt8} (hplain : PlainSettings t) :
    checkClientEncoding (some t) = some (lastEncoding t) ↔
      ∀ u ∈ commandStarts t, endsInside u = false := by
  have hrun := encodingLoop_run none hplain
  rw [Option.or_none] at hrun
  rw [checkClientEncoding, hrun]
  constructor
  · intro h u hu
    rw [Bool.eq_false_iff]
    intro hends
    rw [if_pos (List.any_eq_true.2 ⟨u, hu, hends⟩)] at h
    cases h
  · intro h
    rw [if_neg]
    intro hany
    obtain ⟨u, hu, hends⟩ := List.any_eq_true.1 hany
    rw [h u hu] at hends
    cases hends

/-- Settings whose last command ends in a semicolon. -/
theorem checkClientEncoding_iff_semicolon :
    PlainSettings (ascii "Set Client_Encoding='utf8' ;set datestyle to iso;") ∧
      (checkClientEncoding (some (ascii "Set Client_Encoding='utf8' ;set datestyle to iso;")) =
          some (lastEncoding (ascii "Set Client_Encoding='utf8' ;set datestyle to iso;")) ↔
        ∀ u ∈ commandStarts (ascii "Set Client_Encoding='utf8' ;set datestyle to iso;"),
          endsInside u = false) := by
  have hplain : PlainSettings (ascii "Set Client_Encoding='utf8' ;set datestyle to iso;") := by
    have hstarts : commandStarts (ascii "Set Client_Encoding='utf8' ;set datestyle to iso;") =
        [ascii "Set Client_Encoding='utf8' ;set datestyle to iso;", ascii "set datestyle to iso;",
          []] := by
      rw [commandStarts_cons (u := ascii "set datestyle to iso;") (by decide),
        commandStarts_cons (u := []) (by decide), commandStarts_last (by decide)]
    rw [PlainSettings, hstarts]
    exact List.forall_mem_cons.2 ⟨by decide, List.forall_mem_cons.2 ⟨by decide,
      List.forall_mem_singleton.2 (by decide)⟩⟩
  exact ⟨hplain, checkClientEncoding_iff hplain⟩

/-- The text ends in the value: the loop passes the terminator. -/
theorem not_checkClientEncoding_unfinished :
    checkClientEncoding (some (ascii "set client_encoding to utf8")) ≠
      some (lastEncoding (ascii "set client_encoding to utf8")) := by
  have hpast : checkClientEncoding (some (ascii "set client_encoding to utf8")) = none := by decide
  rw [hpast]
  exact nofun

end PsqlOdbc
