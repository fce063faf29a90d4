import PsqlOdbc.CommentSettings

/-!
# The last setting in comments

The flags of the loop follow the places of a text (`TracksPlace`) up to one of three slips: the
first character of a quoted value is not looked at; an equals sign at the end of a comment leaves
the step for the next comment; and a value that does not end leaves its beginning with the length of
another one.  The value that is found is the last one of the text if there is no slip, or if the
only one does no harm (`meetsFrom`).
-/

namespace PsqlOdbc

variable {attr : List UInt8}

/-! ## Where values begin -/

/-- A value is being read. -/
def Place.isOpen : Place → Bool
  | .quoted _ => true
  | .value _ => true
  | _ => false

/-- A value that is found from a place at `q` on can begin at `n`. -/
def Place.Begins (q n : Nat) : Place → Prop
  | .quoted b => n = b ∨ q < n
  | .value b => n = b ∨ q < n
  | .assigned => q ≤ n
  | _ => q < n

/-- A value ends where it is read, or the next place is behind this one. -/
theorem begins_of_nextPlace {p n : Nat} {c : UInt8} {rest : List UInt8} {place : Place}
    (h : (∃ m ∈ (nextPlace attr p c rest place).2.2, m.1 = n) ∨
      (nextPlace attr p c rest place).2.1.Begins (p + 1 + (nextPlace attr p c rest place).1) n) :
    place.Begins p n := by
  cases place <;> simp only [nextPlace] at h <;> split_ifs at h <;>
    simp [Place.Begins] at h ⊢ <;> omega

/-- What is found from a place on begins there or behind it. -/
theorem begins_of_mem_itemsFrom {rest : List UInt8} {skip p : Nat} {place : Place} {m : Nat × Nat}
    (h : m ∈ itemsFrom attr skip p rest place) : place.Begins (p + skip) m.1 := by
  induction rest generalizing skip p place with
  | nil => cases skip <;> cases h
  | cons c rest ih =>
    cases skip with
    | succ skip =>
      have hbegins := ih (h : m ∈ itemsFrom attr skip (p + 1) rest place)
      rwa [show p + 1 + skip = p + (skip + 1) by omega] at hbegins
    | zero =>
      refine @begins_of_nextPlace attr p m.1 c rest place ?_
      rcases List.mem_append.1 h with h | h
      · exact Or.inl ⟨m, h, rfl⟩
      · exact Or.inr (ih h)

/-! ## The flags -/

/-- The step outside of values. -/
def stepOf (pending : Bool) : Nat := if pending then 1 else 0

/-- The flags are those of the place; `pending` is whether an equals sign at the end of a comment
has left its step. -/
def Place.Flags (pending : Bool) (s : Extraction) : Place → Prop
  | .outside => s.inQuote = false ∧ s.inComment = false ∧ s.step = stepOf pending
  | .literal => s.inQuote = true ∧ s.inComment = false ∧ s.step = stepOf pending
  | .start => s.inQuote = false ∧ s.inComment = true ∧ s.allowedCmd = true ∧ s.step = stepOf pending
  | .word => pending = false ∧ s.inQuote = false ∧ s.inComment = true ∧ s.allowedCmd = false ∧
      s.step = 0
  | .assigned => pending = false ∧ s.inQuote = false ∧ s.inComment = true ∧
      s.allowedCmd = true ∧ s.step = 1
  | .quoted b => pending = false ∧ s.inQuote = true ∧ s.inComment = true ∧
      s.allowedCmd = true ∧ s.step = 2 ∧ s.sptr = some b
  | .value b => pending = false ∧ s.inQuote = false ∧ s.inComment = true ∧
      s.allowedCmd = true ∧ s.step = 2 ∧ s.sptr = some b

/-- The values that have been found begin before the place, and before the value that is read. -/
def Place.Behind (p : Nat) (before : List (Nat × Nat)) : Place → Prop
  | .quoted b => b < p ∧ ∀ m ∈ before, m.1 < b
  | .value b => b < p ∧ ∀ m ∈ before, m.1 < b
  | _ => ∀ m ∈ before, m.1 < p

/-- The variables of the loop at a place, with the values `before` it. -/
structure TracksPlace (p : Nat) (place : Place) (pending : Bool) (before : List (Nat × Nat))
    (s : Extraction) : Prop where
  flags : place.Flags pending s
  behind : place.Behind p before
  found : place.isOpen = false → s.found = before.getLast?
  len : s.len = 0 ↔ before = []
  measured : ∀ m ∈ s.measured, m ∈ before

/-- The loop ends with the last of these values, and has computed the lengths of no others. -/
def EndsWith (all : List (Nat × Nat)) (o : Option Extraction) : Prop :=
  ∃ s, o = some s ∧ s.found = all.getLast? ∧ ∀ m ∈ s.measured, m ∈ all

/-- The text from a place on does not bring the loop to a slip, or only to one that does no harm: an
empty value in quotes that is the only value, and with no quote behind it. -/
def meetsFrom (attr : List UInt8) :
    Nat → Nat → List UInt8 → Place → Bool → Bool → Prop
  | _, _, [], place, _, _ => place.isOpen = false
  | skip + 1, p, _ :: rest, place, pending, found =>
    meetsFrom attr skip (p + 1) rest place pending found
  | 0, p, c :: rest, place, pending, found =>
    let next := nextPlace attr p c rest place
    if place = .start ∧ pending = true then
      if commentEnds c rest then meetsFrom attr 1 (p + 1) rest .outside true found
      else if isSeparator c then meetsFrom attr 0 (p + 1) rest .start false found
      else False
    else if place = .assigned then
      if commentEnds c rest then meetsFrom attr 1 (p + 1) rest .outside true found
      else if c = literalQuote then
        match rest with
        | [] => False
        | d :: later =>
          if d = literalQuote then
            found = false ∧ literalQuote ∉ later ∧ itemsFrom attr 0 (p + 2) later .start = []
          else meetsFrom attr 0 (p + 1) (d :: later) (.quoted (p + 1)) false found
      else meetsFrom attr next.1 (p + 1) rest next.2.1 false found
    else meetsFrom attr next.1 (p + 1) rest next.2.1 pending (found || next.2.2 ≠ [])

section

variable {rest : List UInt8} {c : UInt8} {p b : Nat} {place : Place} {pending : Bool}
  {before : List (Nat × Nat)} {s : Extraction}

theorem endValue_of_ne (h : s.step ≠ stepLast) (cptr : Nat) : s.endValue cptr = s := if_neg h

theorem endValue_of_eq (h : s.step = stepLast) (hb : s.sptr = some b) (cptr : Nat) :
    s.endValue cptr =
      { s with
        len := cptr - b
        step := 0
        measured := (b, cptr - b) :: s.measured } := by
  rw [Extraction.endValue, if_pos h, hb, Option.getD_some]

theorem stepOf_ne (pending : Bool) : stepOf pending ≠ stepLast := by
  cases pending <;> decide

theorem Place.behind_iff (hopen : place.isOpen = false) :
    place.Behind p before ↔ ∀ m ∈ before, m.1 < p := by
  cases place with
  | quoted b => exact Bool.noConfusion hopen
  | value b => exact Bool.noConfusion hopen
  | outside | literal | start | word | assigned => exact Iff.rfl

/-- Nothing has been found in a step from `p` on. -/
theorem Place.Behind.next {place place' : Place} (h : place.Behind p before)
    (hopen : place.isOpen = false) (hopen' : place'.isOpen = false) :
    place'.Behind (p + 1) before := by
  rw [Place.behind_iff hopen] at h
  rw [Place.behind_iff hopen']
  exact fun m hm ↦ Nat.lt_succ_of_lt (h m hm)

/-- A value has been read up to `p`. -/
structure ReadsValue (p b : Nat) (before : List (Nat × Nat)) (s : Extraction) : Prop where
  begins : b < p
  behind : ∀ m ∈ before, m.1 < b
  step : s.step = stepLast
  sptr : s.sptr = some b
  measured : ∀ m ∈ s.measured, m ∈ before

/-- Where a value ends, it has been found. -/
theorem ReadsValue.ends (h : ReadsValue p b before s) {place : Place} (hopen : place.isOpen = false)
    {s' : Extraction} (hs' : s'.sptr = (s.endValue p).sptr ∧ s'.len = (s.endValue p).len ∧
      s'.measured = (s.endValue p).measured) (hflags : place.Flags pending s') :
    TracksPlace (p + 1) place pending (before ++ [(b, p - b)]) s' := by
  obtain ⟨hsptr, hlen, hmeasured⟩ := hs'
  rw [endValue_of_eq h.step h.sptr] at hsptr hlen hmeasured
  have hbegins := h.begins
  refine ⟨hflags, ?_, ?_, ?_, ?_⟩
  · have hlt : ∀ m ∈ before ++ [(b, p - b)], m.1 < p + 1 := by
      intro m hm
      rcases List.mem_append.1 hm with hm | hm
      · have hm' := h.behind m hm
        omega
      · rw [List.mem_singleton.1 hm]
        omega
    exact (Place.behind_iff hopen).2 hlt
  · intro _
    rw [Extraction.found, hsptr, hlen, h.sptr, Option.map_some, List.getLast?_concat]
  · rw [hlen]
    refine iff_of_false ?_ (List.append_ne_nil_of_right_ne_nil _ (List.cons_ne_nil _ _))
    exact Nat.sub_ne_zero_of_lt hbegins
  · intro m hm
    rw [hmeasured] at hm
    rcases List.mem_cons.1 hm with rfl | hm
    · exact List.mem_append_right _ (List.mem_singleton_self _)
    · exact List.mem_append_left _ (h.measured m hm)

/-- Where none ends, nothing else has been found. -/
theorem TracksPlace.keeps (h : TracksPlace p place pending before s) (hopen : place.isOpen = false)
    {place' : Place} {pending' : Bool} (hopen' : place'.isOpen = false) {s' : Extraction}
    (hs' : s'.sptr = s.sptr ∧ s'.len = s.len ∧ s'.measured = s.measured)
    (hflags : place'.Flags pending' s') : TracksPlace (p + 1) place' pending' before s' := by
  obtain ⟨hsptr, hlen, hmeasured⟩ := hs'
  refine ⟨hflags, h.behind.next hopen hopen', ?_, ?_, ?_⟩
  · intro _
    rw [Extraction.found, hsptr, hlen]
    exact h.found hopen
  · rw [hlen]
    exact h.len
  · rw [hmeasured]
    exact h.measured

end

/-! ## The loop -/

section

variable {rest : List UInt8} {c : UInt8} {p b skip : Nat} {s s' : Extraction}

theorem extractLoop_of_inQuote (hquote : s.inQuote = true) :
    extractLoop attr 0 p (c :: rest) s =
      extractLoop attr 0 (p + 1) rest
        (if c = literalQuote then { s.endValue p with inQuote := false } else s) := by
  by_cases hc : c = literalQuote <;> simp [extractLoop, hquote, hc]

theorem extractLoop_of_outside (hquote : s.inQuote = false) (hcomment : s.inComment = false) :
    extractLoop attr 0 p (c :: rest) s =
      if commentBegins c rest then
        extractLoop attr 1 (p + 1) rest
          { s with
            inComment := true
            allowedCmd := true }
      else if c = literalQuote then extractLoop attr 0 (p + 1) rest { s with inQuote := true }
      else extractLoop attr 0 (p + 1) rest s := by
  simp [extractLoop, hquote, hcomment]

theorem extractLoop_of_commentEnds (hquote : s.inQuote = false) (hcomment : s.inComment = true)
    (hends : commentEnds c rest = true) :
    extractLoop attr 0 p (c :: rest) s =
      extractLoop attr 1 (p + 1) rest
        { s.endValue p with
          inComment := false
          allowedCmd := false } := by
  simp [extractLoop, hquote, hcomment, hends]

theorem extractLoop_of_isSeparator (hquote : s.inQuote = false) (hcomment : s.inComment = true)
    (hends : ¬commentEnds c rest = true) (hseparator : isSeparator c = true) :
    extractLoop attr 0 p (c :: rest) s =
      extractLoop attr 0 (p + 1) rest
        { s.endValue p with
          allowedCmd := true
          step := 0 } := by
  simp [extractLoop, hquote, hcomment, hends, hseparator]

theorem extractLoop_of_not_allowedCmd (hquote : s.inQuote = false) (hcomment : s.inComment = true)
    (hends : ¬commentEnds c rest = true) (hseparator : ¬isSeparator c = true)
    (hallowed : s.allowedCmd = false) :
    extractLoop attr 0 p (c :: rest) s = extractLoop attr 0 (p + 1) rest s := by
  simp [extractLoop, hquote, hcomment, hends, hseparator, hallowed]

/-- In a comment, where something can begin. -/
structure Reading (c : UInt8) (rest : List UInt8) (s : Extraction) : Prop where
  inQuote : s.inQuote = false
  inComment : s.inComment = true
  ends : ¬commentEnds c rest = true
  separator : ¬isSeparator c = true
  allowedCmd : s.allowedCmd = true

theorem extractLoop_of_step_zero (h : Reading c rest s) (hstep : s.step = 0) :
    extractLoop attr 0 p (c :: rest) s =
      if assigns attr (c :: rest) then
        extractLoop attr attr.length (p + 1) rest { s with step := 1 }
      else extractLoop attr 0 (p + 1) rest { s with allowedCmd := false } := by
  simp [extractLoop, h.inQuote, h.inComment, h.ends, h.separator, h.allowedCmd, hstep]

theorem extractLoop_of_step_one (h : Reading c rest s) (hstep : s.step = 1)
    (hc : c ≠ literalQuote) :
    extractLoop attr 0 p (c :: rest) s =
      extractLoop attr 0 (p + 1) rest
        { s with
          sptr := some p
          step := 2 } := by
  simp [extractLoop, h.inQuote, h.inComment, h.ends, h.separator, h.allowedCmd, hstep, hc]

theorem extractLoop_of_step_one_nil (h : Reading literalQuote [] s) (hstep : s.step = 1) :
    extractLoop attr 0 p [literalQuote] s = none := by
  simp [extractLoop, h.inQuote, h.inComment, h.ends, h.separator, h.allowedCmd, hstep]

theorem extractLoop_of_step_one_cons {d : UInt8} {later : List UInt8}
    (h : Reading literalQuote (d :: later) s) (hstep : s.step = 1) :
    extractLoop attr 0 p (literalQuote :: d :: later) s =
      extractLoop attr 0 (p + 2) later
        { s with
          inQuote := true
          sptr := some (p + 1)
          step := 2 } := by
  simp [extractLoop, h.inQuote, h.inComment, h.ends, h.separator, h.allowedCmd, hstep]

theorem extractLoop_of_step_two (h : Reading c rest s) (hstep : s.step = 2) :
    extractLoop attr 0 p (c :: rest) s = extractLoop attr 0 (p + 1) rest s := by
  simp [extractLoop, h.inQuote, h.inComment, h.ends, h.separator, h.allowedCmd, hstep]

/-! ## Beginnings that are none -/

theorem measured_endValue (s : Extraction) (cptr : Nat) {m : Nat × Nat} (hm : m ∈ s.measured) :
    m ∈ (s.endValue cptr).measured := by
  unfold Extraction.endValue
  split_ifs
  · exact List.mem_cons_of_mem _ hm
  · exact hm

theorem measured_endValue_self (hstep : s.step = 2) (hb : s.sptr = some b) (cptr : Nat) :
    (b, cptr - b) ∈ (s.endValue cptr).measured := by
  rw [endValue_of_eq hstep hb]
  exact List.mem_cons_self

/-- A length that has been computed stays. -/
theorem measured_extractLoop (h : extractLoop attr skip p rest s = some s') {m : Nat × Nat}
    (hm : m ∈ s.measured) : m ∈ s'.measured := by
  fun_induction extractLoop attr skip p rest s with
  | case1 skip p s => cases h; exact hm
  | case3 _ _ _ _ ih => exact ih h (measured_endValue _ _ hm)
  | case5 _ _ _ _ _ _ ih => exact ih h (measured_endValue _ _ hm)
  | case9 _ _ _ _ _ _ _ _ ih => exact ih h (measured_endValue _ _ hm)
  | case13 => cases h
  | case2 | case4 | case6 | case7 | case8 | case10 | case11 | case12 | case14 | case15 | case16 =>
    rename_i ih
    exact ih h hm

/-- From a beginning, the loop computes a length, or it has the beginning still at its end. -/
theorem found_extractLoop (h : extractLoop attr skip p rest s = some s') (hstep : s.step = 2)
    (hb : s.sptr = some b) : s'.found = s.found ∨ ∃ k, (b, k) ∈ s'.measured := by
  fun_induction extractLoop attr skip p rest s with
  | case1 skip p s => cases h; exact Or.inl rfl
  | case3 _ _ _ _ ih =>
    exact Or.inr ⟨_, measured_extractLoop h (measured_endValue_self hstep hb _)⟩
  | case5 _ _ _ _ _ _ ih =>
    exact Or.inr ⟨_, measured_extractLoop h (measured_endValue_self hstep hb _)⟩
  | case9 _ _ _ _ _ _ _ _ ih =>
    exact Or.inr ⟨_, measured_extractLoop h (measured_endValue_self hstep hb _)⟩
  | case11 | case12 | case14 | case15 => omega
  | case13 => cases h
  | case2 | case4 | case6 | case7 | case8 | case10 | case16 =>
    rename_i ih
    exact ih h hstep hb

/-- A beginning that none of the values has is a slip. -/
theorem not_endsWith_of_ne {all : List (Nat × Nat)} (hstep : s.step = 2) (hb : s.sptr = some b)
    (hne : ∀ m ∈ all, m.1 ≠ b) : ¬EndsWith all (extractLoop attr skip p rest s) := by
  rintro ⟨s', hs', hfound, hmeasured⟩
  rcases found_extractLoop hs' hstep hb with hkeep | ⟨k, hk⟩
  · rw [hkeep, Extraction.found, hb, Option.map_some] at hfound
    exact hne _ (List.mem_of_getLast? hfound.symm) rfl
  · exact hne _ (hmeasured _ hk) rfl

/-- Without a quote, nothing changes in a literal. -/
theorem extractLoop_of_not_mem (hquote : s.inQuote = true) (hrest : literalQuote ∉ rest) :
    extractLoop attr 0 p rest s = some s := by
  induction rest generalizing p with
  | nil => rfl
  | cons c rest ih =>
    rw [List.mem_cons, not_or] at hrest
    rw [extractLoop_of_inQuote hquote, if_neg (Ne.symm hrest.1)]
    exact ih hrest.2

/-- The next quote ends what is read in a literal. -/
theorem measured_of_mem (hquote : s.inQuote = true) (hstep : s.step = 2) (hb : s.sptr = some b)
    (hrest : literalQuote ∈ rest) (h : extractLoop attr 0 p rest s = some s') :
    ∃ k, p ≤ k ∧ (b, k - b) ∈ s'.measured := by
  induction rest generalizing p with
  | nil => cases hrest
  | cons c rest ih =>
    rw [extractLoop_of_inQuote hquote] at h
    by_cases hc : c = literalQuote
    · rw [if_pos hc] at h
      exact ⟨p, le_rfl, measured_extractLoop h (measured_endValue_self hstep hb p)⟩
    · rw [if_neg hc] at h
      obtain ⟨k, hk, hmem⟩ := ih ((List.mem_cons.1 hrest).resolve_left (Ne.symm hc)) h
      exact ⟨k, Nat.le_of_succ_le hk, hmem⟩

end

/-! ## The places -/

section

variable {rest : List UInt8} {c : UInt8} {p b skip : Nat} {place : Place} {pending : Bool}
  {before : List (Nat × Nat)} {s : Extraction}

/-- What is to be shown for the text behind a character. -/
def SettledFrom (attr rest : List UInt8) : Prop :=
  ∀ ⦃skip p : Nat⦄ ⦃place : Place⦄ ⦃pending : Bool⦄ ⦃before : List (Nat × Nat)⦄ ⦃s : Extraction⦄,
    TracksPlace p place pending before s →
      (EndsWith (before ++ itemsFrom attr skip p rest place) (extractLoop attr skip p rest s) ↔
        meetsFrom attr skip p rest place pending (before ≠ []))

theorem TracksPlace.succ (h : TracksPlace p place pending before s) :
    TracksPlace (p + 1) place pending before s := by
  refine ⟨h.flags, ?_, h.found, h.len, h.measured⟩
  have hbehind := h.behind
  cases place with
  | quoted b => exact ⟨Nat.lt_succ_of_lt hbehind.1, hbehind.2⟩
  | value b => exact ⟨Nat.lt_succ_of_lt hbehind.1, hbehind.2⟩
  | outside | literal | start | word | assigned =>
    exact fun m hm ↦ Nat.lt_succ_of_lt (hbehind m hm)

/-- At the end of the text. -/
theorem settledFrom_nil (attr : List UInt8) : SettledFrom attr [] := by
  intro skip p place pending before s h
  have hloop : extractLoop attr skip p [] s = some s := by cases skip <;> rfl
  have hitems : itemsFrom attr skip p [] place = [] := by cases skip <;> rfl
  have hmeets : meetsFrom attr skip p [] place pending (before ≠ []) ↔ place.isOpen = false := by
    cases skip <;> rfl
  rw [hloop, hitems, hmeets, List.append_nil]
  constructor
  · rintro ⟨s', hs', hfound, -⟩
    cases hs'
    have hopen : ∀ b, s.sptr = some b → (∀ m ∈ before, m.1 < b) → False := by
      intro b hb hbefore
      rw [Extraction.found, hb, Option.map_some] at hfound
      exact absurd (hbefore _ (List.mem_of_getLast? hfound.symm)) (Nat.lt_irrefl _)
    have hflags := h.flags
    have hbehind := h.behind
    cases place with
    | quoted b => exact (hopen b hflags.2.2.2.2.2 hbehind.2).elim
    | value b => exact (hopen b hflags.2.2.2.2.2 hbehind.2).elim
    | outside | literal | start | word | assigned => rfl
  · intro hopen
    exact ⟨s, rfl, h.found hopen, h.measured⟩

theorem meetsFrom_cons (hassigned : place ≠ .assigned) (hstart : place = .start → pending = false)
    (found : Bool) :
    meetsFrom attr 0 p (c :: rest) place pending found ↔
      meetsFrom attr (nextPlace attr p c rest place).1 (p + 1) rest
        (nextPlace attr p c rest place).2.1 pending
        (found || (nextPlace attr p c rest place).2.2 ≠ []) := by
  have hpending : ¬(place = .start ∧ pending = true) := by
    rintro ⟨hplace, hpending⟩
    rw [hstart hplace] at hpending
    cases hpending
  rw [meetsFrom.eq_def]
  dsimp only
  rw [if_neg hpending, if_neg hassigned]

/-- Where there is no slip, what the loop does is what the text says. -/
theorem SettledFrom.step (ih : SettledFrom attr rest) (hassigned : place ≠ .assigned)
    (hstart : place = .start → pending = false) {s' : Extraction} {place' : Place}
    {new : List (Nat × Nat)} (hnext : nextPlace attr p c rest place = (skip, place', new))
    (hloop : extractLoop attr 0 p (c :: rest) s = extractLoop attr skip (p + 1) rest s')
    (hfollows : TracksPlace (p + 1) place' pending (before ++ new) s') :
    EndsWith (before ++ itemsFrom attr 0 p (c :: rest) place) (extractLoop attr 0 p (c :: rest) s) ↔
      meetsFrom attr 0 p (c :: rest) place pending (before ≠ []) := by
  have hfound : (decide (before ≠ []) || decide (new ≠ [])) = decide (before ++ new ≠ []) := by
    rw [← Bool.decide_or]
    congr 1
    rw [Ne, Ne, Ne, List.append_eq_nil_iff, not_and_or]
  rw [meetsFrom_cons hassigned hstart, hloop, itemsFrom, hnext, hfound, ← List.append_assoc]
  exact ih hfollows

theorem settledFrom_outside (ih : SettledFrom attr rest)
    (h : TracksPlace p .outside pending before s) :
    EndsWith (before ++ itemsFrom attr 0 p (c :: rest) .outside)
        (extractLoop attr 0 p (c :: rest) s) ↔
      meetsFrom attr 0 p (c :: rest) .outside pending (before ≠ []) := by
  obtain ⟨hquote, hcomment, hstep⟩ := h.flags
  have hloop := @extractLoop_of_outside attr rest c p s hquote hcomment
  by_cases hbegins : commentBegins c rest = true
  · rw [if_pos hbegins] at hloop
    refine ih.step nofun nofun (by rw [nextPlace, if_pos hbegins]) hloop ?_
    rw [List.append_nil]
    exact h.keeps rfl rfl ⟨rfl, rfl, rfl⟩ ⟨hquote, rfl, rfl, hstep⟩
  rw [if_neg hbegins] at hloop
  by_cases hc : c = literalQuote
  · rw [if_pos hc] at hloop
    refine ih.step nofun nofun (by rw [nextPlace, if_neg hbegins, if_pos hc]) hloop ?_
    rw [List.append_nil]
    exact h.keeps rfl rfl ⟨rfl, rfl, rfl⟩ ⟨rfl, hcomment, hstep⟩
  · rw [if_neg hc] at hloop
    refine ih.step nofun nofun (by rw [nextPlace, if_neg hbegins, if_neg hc]) hloop ?_
    rw [List.append_nil]
    exact h.keeps rfl rfl ⟨rfl, rfl, rfl⟩ h.flags

theorem settledFrom_literal (ih : SettledFrom attr rest)
    (h : TracksPlace p .literal pending before s) :
    EndsWith (before ++ itemsFrom attr 0 p (c :: rest) .literal)
        (extractLoop attr 0 p (c :: rest) s) ↔
      meetsFrom attr 0 p (c :: rest) .literal pending (before ≠ []) := by
  obtain ⟨hquote, hcomment, hstep⟩ := h.flags
  have hloop := @extractLoop_of_inQuote attr rest c p s hquote
  rw [endValue_of_ne (hstep.trans_ne (stepOf_ne pending))] at hloop
  by_cases hc : c = literalQuote
  · rw [if_pos hc] at hloop
    refine ih.step nofun nofun (by rw [nextPlace, if_pos hc]) hloop ?_
    rw [List.append_nil]
    exact h.keeps rfl rfl ⟨rfl, rfl, rfl⟩ ⟨rfl, hcomment, hstep⟩
  · rw [if_neg hc] at hloop
    refine ih.step nofun nofun (by rw [nextPlace, if_neg hc]) hloop ?_
    rw [List.append_nil]
    exact h.keeps rfl rfl ⟨rfl, rfl, rfl⟩ h.flags

theorem settledFrom_quoted (ih : SettledFrom attr rest)
    (h : TracksPlace p (.quoted b) pending before s) :
    EndsWith (before ++ itemsFrom attr 0 p (c :: rest) (.quoted b))
        (extractLoop attr 0 p (c :: rest) s) ↔
      meetsFrom attr 0 p (c :: rest) (.quoted b) pending (before ≠ []) := by
  obtain ⟨hpending, hquote, hcomment, hallowed, hstep, hb⟩ := h.flags
  have hreads : ReadsValue p b before s := ⟨h.behind.1, h.behind.2, hstep, hb, h.measured⟩
  have hloop := @extractLoop_of_inQuote attr rest c p s hquote
  by_cases hc : c = literalQuote
  · rw [if_pos hc] at hloop
    refine ih.step nofun nofun (by rw [nextPlace, if_pos hc]) hloop ?_
    refine hreads.ends rfl ⟨rfl, rfl, rfl⟩ ?_
    rw [endValue_of_eq hstep hb, hpending]
    exact ⟨rfl, hcomment, hallowed, rfl⟩
  · rw [if_neg hc] at hloop
    refine ih.step nofun nofun (by rw [nextPlace, if_neg hc]) hloop ?_
    rw [List.append_nil]
    exact h.succ

theorem settledFrom_value (ih : SettledFrom attr rest)
    (h : TracksPlace p (.value b) pending before s) :
    EndsWith (before ++ itemsFrom attr 0 p (c :: rest) (.value b))
        (extractLoop attr 0 p (c :: rest) s) ↔
      meetsFrom attr 0 p (c :: rest) (.value b) pending (before ≠ []) := by
  obtain ⟨hpending, hquote, hcomment, hallowed, hstep, hb⟩ := h.flags
  have hreads : ReadsValue p b before s := ⟨h.behind.1, h.behind.2, hstep, hb, h.measured⟩
  by_cases hends : commentEnds c rest = true
  · have hloop := @extractLoop_of_commentEnds attr rest c p s hquote hcomment hends
    refine ih.step nofun nofun (by rw [nextPlace, if_pos hends]) hloop ?_
    refine hreads.ends rfl ⟨rfl, rfl, rfl⟩ ?_
    rw [endValue_of_eq hstep hb, hpending]
    exact ⟨hquote, rfl, rfl⟩
  by_cases hseparator : isSeparator c = true
  · have hloop := @extractLoop_of_isSeparator attr rest c p s hquote hcomment hends hseparator
    refine ih.step nofun nofun (by rw [nextPlace, if_neg hends, if_pos hseparator]) hloop ?_
    refine hreads.ends rfl ⟨rfl, rfl, rfl⟩ ?_
    rw [endValue_of_eq hstep hb, hpending]
    exact ⟨hquote, hcomment, rfl, rfl⟩
  · have hloop := @extractLoop_of_step_two attr rest c p s
      ⟨hquote, hcomment, hends, hseparator, hallowed⟩ hstep
    refine ih.step nofun nofun (by rw [nextPlace, if_neg hends, if_neg hseparator]) hloop ?_
    rw [List.append_nil]
    exact h.succ

theorem settledFrom_word (ih : SettledFrom attr rest)
    (h : TracksPlace p .word pending before s) :
    EndsWith (before ++ itemsFrom attr 0 p (c :: rest) .word)
        (extractLoop attr 0 p (c :: rest) s) ↔
      meetsFrom attr 0 p (c :: rest) .word pending (before ≠ []) := by
  obtain ⟨hpending, hquote, hcomment, hallowed, hstep⟩ := h.flags
  have hvalue := endValue_of_ne (s := s) (by rw [hstep]; decide) p
  by_cases hends : commentEnds c rest = true
  · have hloop := @extractLoop_of_commentEnds attr rest c p s hquote hcomment hends
    rw [hvalue] at hloop
    refine ih.step nofun nofun (by rw [nextPlace, if_pos hends]) hloop ?_
    rw [List.append_nil, hpending]
    exact h.keeps rfl rfl ⟨rfl, rfl, rfl⟩ ⟨hquote, rfl, hstep⟩
  by_cases hseparator : isSeparator c = true
  · have hloop := @extractLoop_of_isSeparator attr rest c p s hquote hcomment hends hseparator
    rw [hvalue] at hloop
    refine ih.step nofun nofun (by rw [nextPlace, if_neg hends, if_pos hseparator]) hloop ?_
    rw [List.append_nil, hpending]
    exact h.keeps rfl rfl ⟨rfl, rfl, rfl⟩ ⟨hquote, hcomment, rfl, rfl⟩
  · have hloop :=
      @extractLoop_of_not_allowedCmd attr rest c p s hquote hcomment hends hseparator hallowed
    refine ih.step nofun nofun (by rw [nextPlace, if_neg hends, if_neg hseparator]) hloop ?_
    rw [List.append_nil]
    exact h.succ

theorem settledFrom_start (ih : SettledFrom attr rest) (h : TracksPlace p .start false before s) :
    EndsWith (before ++ itemsFrom attr 0 p (c :: rest) .start)
        (extractLoop attr 0 p (c :: rest) s) ↔
      meetsFrom attr 0 p (c :: rest) .start false (before ≠ []) := by
  obtain ⟨hquote, hcomment, hallowed, hstep⟩ := h.flags
  have hvalue := endValue_of_ne (hstep.trans_ne (stepOf_ne false)) p
  by_cases hends : commentEnds c rest = true
  · have hloop := @extractLoop_of_commentEnds attr rest c p s hquote hcomment hends
    rw [hvalue] at hloop
    refine ih.step nofun (fun _ ↦ rfl) (by rw [nextPlace, if_pos hends]) hloop ?_
    rw [List.append_nil]
    exact h.keeps rfl rfl ⟨rfl, rfl, rfl⟩ ⟨hquote, rfl, hstep⟩
  by_cases hseparator : isSeparator c = true
  · have hloop := @extractLoop_of_isSeparator attr rest c p s hquote hcomment hends hseparator
    rw [hvalue] at hloop
    refine ih.step nofun (fun _ ↦ rfl) (by rw [nextPlace, if_neg hends, if_pos hseparator]) hloop ?_
    rw [List.append_nil]
    exact h.keeps rfl rfl ⟨rfl, rfl, rfl⟩ ⟨hquote, hcomment, rfl, rfl⟩
  have hloop := @extractLoop_of_step_zero attr rest c p s
    ⟨hquote, hcomment, hends, hseparator, hallowed⟩ hstep
  by_cases hassigns : assigns attr (c :: rest) = true
  · rw [if_pos hassigns] at hloop
    refine ih.step nofun (fun _ ↦ rfl)
      (by rw [nextPlace, if_neg hends, if_neg hseparator, if_pos hassigns]) hloop ?_
    rw [List.append_nil]
    exact h.keeps rfl rfl ⟨rfl, rfl, rfl⟩ ⟨rfl, hquote, hcomment, hallowed, rfl⟩
  · rw [if_neg hassigns] at hloop
    refine ih.step nofun (fun _ ↦ rfl)
      (by rw [nextPlace, if_neg hends, if_neg hseparator, if_neg hassigns]) hloop ?_
    rw [List.append_nil]
    exact h.keeps rfl rfl ⟨rfl, rfl, rfl⟩ ⟨rfl, hquote, hcomment, rfl, hstep⟩

/-- Where a setting begins behind `p`, no value that begins at `p` is found, and none behind a quote
there. -/
theorem not_begins_of_start {m : Nat × Nat} (hm : m ∈ itemsFrom attr 0 p (c :: rest) .start) :
    m.1 ≠ p ∧ (c = literalQuote → m.1 ≠ p + 1) := by
  have hbegins := begins_of_mem_itemsFrom hm
  refine ⟨Nat.ne_of_gt hbegins, ?_⟩
  rintro rfl
  have hends : ¬commentEnds literalQuote rest = true := Bool.false_ne_true
  have hseparator : ¬isSeparator literalQuote = true := by decide
  rw [itemsFrom, nextPlace, if_neg hends, if_neg hseparator] at hm
  by_cases hassigns : assigns attr (literalQuote :: rest) = true
  · rw [if_pos hassigns] at hm
    have hlength : attr.length ≠ 0 := by
      intro hlength
      rw [assigns, hlength, Bool.and_eq_true, decide_eq_true_eq] at hassigns
      cases hassigns.2
    have hbegins' : p + 1 + attr.length ≤ m.1 := begins_of_mem_itemsFrom hm
    omega
  · rw [if_neg hassigns] at hm
    have hbegins' : p + 1 + 0 < m.1 := begins_of_mem_itemsFrom hm
    omega

/-- Behind an equals sign at the end of a comment. -/
theorem settledFrom_pending (ih : SettledFrom attr rest) (h : TracksPlace p .start true before s) :
    EndsWith (before ++ itemsFrom attr 0 p (c :: rest) .start)
        (extractLoop attr 0 p (c :: rest) s) ↔
      meetsFrom attr 0 p (c :: rest) .start true (before ≠ []) := by
  obtain ⟨hquote, hcomment, hallowed, hstep⟩ := h.flags
  have hvalue := endValue_of_ne (hstep.trans_ne (stepOf_ne true)) p
  rw [meetsFrom.eq_def]
  dsimp only
  rw [if_pos ⟨rfl, rfl⟩]
  by_cases hends : commentEnds c rest = true
  · rw [extractLoop_of_commentEnds hquote hcomment hends, hvalue, itemsFrom, nextPlace,
      if_pos hends, if_pos hends]
    exact ih (h.keeps rfl rfl ⟨rfl, rfl, rfl⟩ ⟨hquote, rfl, hstep⟩)
  rw [if_neg hends]
  by_cases hseparator : isSeparator c = true
  · rw [extractLoop_of_isSeparator hquote hcomment hends hseparator, hvalue, itemsFrom, nextPlace,
      if_neg hends, if_pos hseparator, if_pos hseparator]
    exact ih (h.keeps rfl rfl ⟨rfl, rfl, rfl⟩ ⟨hquote, hcomment, rfl, rfl⟩)
  rw [if_neg hseparator, iff_false]
  have hreading : Reading c rest s := ⟨hquote, hcomment, hends, hseparator, hallowed⟩
  have hne : ∀ b, p ≤ b → (∀ m ∈ itemsFrom attr 0 p (c :: rest) .start, m.1 ≠ b) →
      ∀ m ∈ before ++ itemsFrom attr 0 p (c :: rest) .start, m.1 ≠ b := by
    intro b hb hitems m hm
    rcases List.mem_append.1 hm with hm | hm
    · exact Nat.ne_of_lt (Nat.lt_of_lt_of_le (h.behind m hm) hb)
    · exact hitems m hm
  by_cases hc : c = literalQuote
  · subst hc
    cases rest with
    | nil =>
      rw [extractLoop_of_step_one_nil hreading hstep]
      rintro ⟨s', hs', -⟩
      cases hs'
    | cons d later =>
      rw [extractLoop_of_step_one_cons hreading hstep]
      exact not_endsWith_of_ne rfl rfl
        (hne _ (Nat.le_succ p) fun m hm ↦ (not_begins_of_start hm).2 rfl)
  · rw [extractLoop_of_step_one hreading hstep hc]
    exact not_endsWith_of_ne rfl rfl (hne _ le_rfl fun m hm ↦ (not_begins_of_start hm).1)

/-- An empty value in quotes: the loop passes over the second quote. -/
theorem settledFrom_empty {later : List UInt8} (hfollows : ∀ m ∈ before, m.1 < p)
    (hfound : s.len = 0 ↔ before = []) (hmeasured : ∀ m ∈ s.measured, m ∈ before)
    (hquote : s.inQuote = true) (hstep : s.step = 2) (hb : s.sptr = some p) :
    EndsWith (before ++ (p, 0) :: itemsFrom attr 0 (p + 1) later .start)
        (extractLoop attr 0 (p + 1) later s) ↔
      before = [] ∧ literalQuote ∉ later ∧ itemsFrom attr 0 (p + 1) later .start = [] := by
  have hlater : ∀ m ∈ itemsFrom attr 0 (p + 1) later .start, p + 1 < m.1 := fun m hm ↦
    begins_of_mem_itemsFrom hm
  by_cases hmem : literalQuote ∈ later
  · refine iff_of_false ?_ fun h ↦ h.2.1 hmem
    rintro ⟨s', hs', -, hmeasured'⟩
    obtain ⟨k, hk, hm⟩ := measured_of_mem hquote hstep hb hmem hs'
    rcases List.mem_append.1 (hmeasured' _ hm) with hm | hm
    · exact Nat.lt_irrefl _ (hfollows _ hm)
    · rcases List.mem_cons.1 hm with hm | hm
      · have hzero := congrArg Prod.snd hm
        dsimp only at hzero
        omega
      · have hlt := hlater _ hm
        dsimp only at hlt
        omega
  rw [extractLoop_of_not_mem hquote hmem]
  constructor
  · rintro ⟨s', hs', hlast, -⟩
    cases hs'
    rw [Extraction.found, hb, Option.map_some] at hlast
    cases hitems : itemsFrom attr 0 (p + 1) later .start with
    | nil =>
      rw [hitems, List.getLast?_concat] at hlast
      exact ⟨hfound.1 (congrArg Prod.snd (Option.some.inj hlast)), hmem, rfl⟩
    | cons m items =>
      rw [hitems, List.getLast?_append_of_ne_nil _ (List.cons_ne_nil _ _),
        List.getLast?_cons_cons] at hlast
      have hlt := hlater _ (hitems ▸ List.mem_of_getLast? hlast.symm)
      dsimp only at hlt
      omega
  · rintro ⟨hbefore, -, hitems⟩
    refine ⟨s, rfl, ?_, ?_⟩
    · rw [Extraction.found, hb, Option.map_some, hitems, List.getLast?_concat, hfound.2 hbefore]
    · intro m hm
      exact List.mem_append_left _ (hmeasured m hm)

theorem settledFrom_assigned (ih : SettledFrom attr rest)
    (ihTail : ∀ d later, rest = d :: later → SettledFrom attr later)
    (h : TracksPlace p .assigned pending before s) :
    EndsWith (before ++ itemsFrom attr 0 p (c :: rest) .assigned)
        (extractLoop attr 0 p (c :: rest) s) ↔
      meetsFrom attr 0 p (c :: rest) .assigned pending (before ≠ []) := by
  obtain ⟨-, hquote, hcomment, hallowed, hstep⟩ := h.flags
  have hvalue := endValue_of_ne (s := s) (by rw [hstep]; decide) p
  rw [meetsFrom.eq_def]
  dsimp only
  rw [if_neg (fun hplace ↦ Place.noConfusion hplace.1), if_pos rfl]
  by_cases hends : commentEnds c rest = true
  · rw [extractLoop_of_commentEnds hquote hcomment hends, hvalue, itemsFrom, nextPlace,
      if_pos hends, if_pos hends]
    exact ih (h.keeps rfl rfl ⟨rfl, rfl, rfl⟩ ⟨hquote, rfl, hstep⟩)
  rw [if_neg hends]
  by_cases hseparator : isSeparator c = true
  · have hc : c ≠ literalQuote := by
      rintro rfl
      exact absurd hseparator (by decide)
    rw [if_neg hc, extractLoop_of_isSeparator hquote hcomment hends hseparator, hvalue, itemsFrom,
      nextPlace, if_neg hends, if_pos hseparator]
    exact ih (h.keeps rfl rfl ⟨rfl, rfl, rfl⟩ ⟨hquote, hcomment, rfl, rfl⟩)
  have hreading : Reading c rest s := ⟨hquote, hcomment, hends, hseparator, hallowed⟩
  by_cases hc : c = literalQuote
  · subst hc
    rw [if_pos rfl, itemsFrom, nextPlace, if_neg hends, if_neg hseparator, if_pos rfl]
    cases rest with
    | nil =>
      rw [extractLoop_of_step_one_nil hreading hstep]
      refine iff_of_false ?_ id
      rintro ⟨s', hs', -⟩
      cases hs'
    | cons d later =>
      rw [extractLoop_of_step_one_cons hreading hstep]
      dsimp only
      rw [List.nil_append, itemsFrom, nextPlace]
      by_cases hd : d = literalQuote
      · rw [if_pos hd, if_pos hd, Nat.sub_self, List.singleton_append]
        refine (settledFrom_empty (p := p + 1) (s := { s with
          inQuote := true
          sptr := some (p + 1)
          step := 2 }) (fun m hm ↦ Nat.lt_succ_of_lt (h.behind m hm)) h.len h.measured
          rfl rfl rfl).trans ?_
        rw [decide_eq_false_iff_not, not_not]
      · rw [if_neg hd, if_neg hd,
          @meetsFrom_cons attr later d (p + 1) (.quoted (p + 1)) false nofun nofun, nextPlace,
          if_neg hd]
        rw [show (decide (before ≠ []) || decide (([] : List (Nat × Nat)) ≠ [])) =
          decide (before ≠ []) from Bool.or_false _]
        refine ihTail d later rfl ⟨⟨rfl, rfl, hcomment, hallowed, rfl, rfl⟩, ?_, nofun, h.len,
          h.measured⟩
        exact ⟨Nat.lt_succ_self _, fun m hm ↦ Nat.lt_succ_of_lt (h.behind m hm)⟩
  · rw [if_neg hc, extractLoop_of_step_one hreading hstep hc, itemsFrom, nextPlace, if_neg hends,
      if_neg hseparator, if_neg hc]
    refine ih ⟨⟨rfl, hquote, hcomment, hallowed, rfl, rfl⟩, ?_, nofun, h.len, h.measured⟩
    exact ⟨Nat.lt_succ_self p, h.behind⟩

/-- From every place and for every text. -/
theorem settledFrom (attr : List UInt8) : (text : List UInt8) → SettledFrom attr text
  | [] => settledFrom_nil attr
  | c :: rest => by
    have ih := settledFrom attr rest
    intro skip p place pending before s h
    cases skip with
    | succ skip => exact ih h.succ
    | zero =>
      cases place with
      | outside => exact settledFrom_outside ih h
      | literal => exact settledFrom_literal ih h
      | word => exact settledFrom_word ih h
      | quoted b => exact settledFrom_quoted ih h
      | value b => exact settledFrom_value ih h
      | start =>
        cases pending with
        | false => exact settledFrom_start ih h
        | true => exact settledFrom_pending ih h
      | assigned =>
        refine settledFrom_assigned ih (fun d later hrest ↦ ?_) h
        subst hrest
        exact settledFrom attr later
  termination_by text => text.length

end

/-! ## The value -/

/-- A value that is read begins before the place. -/
def Place.Within (p : Nat) : Place → Prop
  | .quoted b => b ≤ p
  | .value b => b ≤ p
  | _ => True

/-- A value lies in the text. -/
theorem add_le_of_mem_itemsFrom {rest : List UInt8} {skip p : Nat} {place : Place} {m : Nat × Nat}
    (hplace : place.Within p) (h : m ∈ itemsFrom attr skip p rest place) :
    m.1 + m.2 ≤ p + rest.length := by
  induction rest generalizing skip p place with
  | nil => cases skip <;> cases h
  | cons c rest ih =>
    rw [List.length_cons]
    have hle : ∀ {place' : Place}, place'.Within (p + 1) → ∀ {skip' : Nat},
        m ∈ itemsFrom attr skip' (p + 1) rest place' → m.1 + m.2 ≤ p + (rest.length + 1) := by
      intro place' hplace' skip' hm
      have hm' := ih hplace' hm
      omega
    cases skip with
    | succ skip =>
      refine hle ?_ h
      cases place <;> simp only [Place.Within] at hplace ⊢ <;> omega
    | zero =>
      rcases List.mem_append.1 h with h | h
      · cases place <;> simp only [nextPlace] at h <;> split_ifs at h <;>
          simp only [List.mem_singleton, List.not_mem_nil, Place.Within] at h hplace <;>
          subst h <;> dsimp only <;> omega
      · refine hle ?_ h
        cases place <;> simp only [nextPlace] <;> split_ifs <;>
          simp only [Place.Within] at hplace ⊢ <;> omega

/-- What is returned is the value that comes last in the text's comments, by its place and with its
own length, and the loop has computed the lengths of no others. -/
def ExtractsLast (setting : PgName) (attr : List UInt8) : Prop :=
  EndsWith (items attr (setting.getD [])) (extractLoop attr 0 0 (setting.getD []) .start) ∧
    extractExtraAttributeSetting setting attr =
      some ((items attr (setting.getD [])).getLast?.map fun m ↦
        ((setting.getD []).drop m.1).take m.2)

/-- With the place of a value there are its characters. -/
theorem extractsLast_iff_endsWith (setting : PgName) (attr : List UInt8) :
    ExtractsLast setting attr ↔
      EndsWith (items attr (setting.getD []))
        (extractLoop attr 0 0 (setting.getD []) .start) := by
  refine and_iff_left_of_imp ?_
  rintro ⟨s, hs, hfound, -⟩
  rw [extractExtraAttributeSetting, hs, Option.bind_some, ← hfound, Extraction.found]
  cases hsptr : s.sptr with
  | none => rfl
  | some sptr =>
    rw [Extraction.found, hsptr, Option.map_some] at hfound
    have hle := @add_le_of_mem_itemsFrom attr _ _ _ .outside _ trivial
      (List.mem_of_getLast? hfound.symm)
    dsimp only at hle ⊢
    rw [if_pos (by omega), Option.map_some, Option.map_some]

/-- The value that comes last is returned exactly for the texts without a slip. -/
theorem extractsLast_iff (setting : PgName) (attr : List UInt8) :
    ExtractsLast setting attr ↔ meetsFrom attr 0 0 (setting.getD []) .outside false false := by
  rw [extractsLast_iff_endsWith]
  have hfollows : TracksPlace 0 .outside false [] .start :=
    ⟨⟨rfl, rfl, rfl⟩, List.forall_mem_nil _, fun _ ↦ rfl, iff_of_true rfl rfl,
      List.forall_mem_nil _⟩
  exact settledFrom attr (setting.getD []) hfollows

/-- A quote behind the equals sign, and the text ends: the loop goes on behind the terminator. -/
theorem not_extractsLast :
    ¬∀ (setting : PgName) (attr : List UInt8), ExtractsLast setting attr := by
  intro h
  obtain ⟨⟨s, hs, -⟩, -⟩ := h (some [0x2f, 0x2a, 0x61, 0x3d, 0x27]) [0x61]
  have hnone : extractLoop [0x61] 0 0 [0x2f, 0x2a, 0x61, 0x3d, 0x27] .start = none := by decide
  rw [Option.getD_some, hnone] at hs
  cases hs

end PsqlOdbc
