import PsqlOdbc.Drvconn

/-!
# What `dconn_get_attributes` makes of a string

`Items` reads a connection string without cutting it: items between delimiters, and values
in braces by `closing`.  `attributesLoop_items` says that the program, with its cuts and
repairs, does the same on every string and never leaves it.
-/

namespace PsqlOdbc

open Lib

/-! ## Values in braces -/

/-- Where a value in braces ends, read from some byte of it on. -/
inductive Closing
  /-- With a closing bracket and a delimiter, or with one at the end of the string. -/
  | closes (value rest : List UInt8)
  /-- Something else follows the closing bracket. -/
  | junk
  /-- There is no closing bracket; `doubled` if the string ends with a doubled one. -/
  | unclosed (doubled : Bool)
  deriving DecidableEq, Repr

/-- With some bytes in front. -/
def Closing.push (w : List UInt8) : Closing → Closing
  | closes value rest => closes (w ++ value) rest
  | junk => junk
  | unclosed doubled => unclosed doubled

/-- Reads up to the closing bracket, doubled ones being part of the value; `doubled` if one
has just been read. -/
def closing : Bool → List UInt8 → Closing
  | doubled, [] => .unclosed doubled
  | _, [b] => if b = closingBracket then .closes [b] [] else .unclosed false
  | _, b :: c :: bs =>
    if b = closingBracket then
      if c = closingBracket then (closing true bs).push [b, c]
      else if c = attributeDelimiter then .closes [b] bs
      else .junk
    else (closing false (c :: bs)).push [b]

section

variable {u t : List UInt8}

@[simp] theorem Closing.push_nil (x : Closing) : x.push [] = x := by cases x <;> rfl

@[simp] theorem Closing.push_push (v w : List UInt8) (x : Closing) :
    (x.push v).push w = x.push (w ++ v) := by
  cases x <;> simp [Closing.push]

/-- Without a bracket nothing closes. -/
theorem closing_of_notMem (h : closingBracket ∉ t) (hne : t ≠ []) (doubled : Bool) :
    closing doubled t = .unclosed false := by
  induction t generalizing doubled with
  | nil => exact absurd rfl hne
  | cons b t ih =>
    obtain ⟨hb, ht⟩ := not_or.1 (mt List.mem_cons.2 h)
    cases t with
    | nil => rw [closing, if_neg (Ne.symm hb)]
    | cons c t =>
      rw [closing, if_neg (Ne.symm hb), ih ht (List.cons_ne_nil c t)]
      rfl

/-- Up to the first bracket. -/
theorem closing_append (h : closingBracket ∉ u) (doubled : Bool) :
    closing doubled (u ++ closingBracket :: t) =
      (closing false (closingBracket :: t)).push u := by
  induction u generalizing doubled with
  | nil =>
    rw [List.nil_append, Closing.push_nil]
    cases t with
    | nil => rfl
    | cons c t => rfl
  | cons b u ih =>
    obtain ⟨hb, hu⟩ := not_or.1 (mt List.mem_cons.2 h)
    obtain ⟨c, w, hc⟩ : ∃ c w, u ++ closingBracket :: t = c :: w := by
      cases u with
      | nil => exact ⟨_, _, rfl⟩
      | cons c u => exact ⟨_, _, rfl⟩
    rw [List.cons_append, hc, closing, if_neg (Ne.symm hb), ← hc, ih hu, Closing.push_push]
    rfl

theorem closing_end (doubled : Bool) :
    closing doubled [closingBracket] = .closes [closingBracket] [] := rfl

theorem closing_doubled (doubled : Bool) :
    closing doubled (closingBracket :: closingBracket :: t) =
      (closing true t).push [closingBracket, closingBracket] := rfl

theorem closing_delim (doubled : Bool) :
    closing doubled (closingBracket :: attributeDelimiter :: t) =
      .closes [closingBracket] t := rfl

theorem closing_junk {c : UInt8} (h : c ≠ closingBracket) (h' : c ≠ attributeDelimiter)
    (doubled : Bool) : closing doubled (closingBracket :: c :: t) = .junk := by
  rw [closing, if_pos rfl, if_neg h, if_neg h']

end

/-! ## The repair loop -/

/-- What the repair loop does to a value that goes on with `t` behind `P`. -/
def Repaired (P t : List UInt8) (result : Option Repair) : Closing → Prop
  | .closes value rest => ∃ tail, (rest ≠ [] → tail = rest ++ [0]) ∧
      result = some (.cut (P ++ (value ++ 0 :: tail)) ((P ++ value).length + 1))
  | .junk => result = some .error
  | .unclosed false => result = some .error
  | .unclosed true => result = some (.past (P ++ (t ++ [0])))

theorem Repaired.push {P u t : List UInt8} {result : Option Repair} {x : Closing}
    (h : Repaired (P ++ u) t result x) : Repaired P (u ++ t) result (x.push u) := by
  cases x with
  | closes value rest =>
    obtain ⟨tail, ht, hr⟩ := h
    refine ⟨tail, ht, ?_⟩
    rw [hr]
    simp only [List.append_assoc]
  | junk => exact h
  | unclosed doubled =>
    cases doubled with
    | false => exact h
    | true =>
      change result = _ at h
      change result = _
      rw [h]
      simp only [List.append_assoc]

section

variable {P t : List UInt8} {termp fuel : Nat}

theorem strchr_bracket_none {w : List UInt8} (h0 : 0 ∉ t) (h : closingBracket ∉ t) :
    strchr (P ++ (t ++ 0 :: w)) P.length closingBracket = some none :=
  strchr_null (by decide) fun b hb ↦ ⟨fun h' ↦ h (h' ▸ hb), fun h' ↦ h0 (h' ▸ hb)⟩

theorem strchr_bracket_some {u w : List UInt8} (h0 : 0 ∉ u) (h : closingBracket ∉ u) :
    strchr (P ++ (u ++ closingBracket :: w)) P.length closingBracket =
      some (some (P ++ u).length) := by
  rw [List.length_append]
  exact strchr_found fun b hb ↦ ⟨fun h' ↦ h (h' ▸ hb), fun h' ↦ h0 (h' ▸ hb)⟩

theorem strchr_bracket (h0 : 0 ∉ t) :
    ∃ closep, strchr (P ++ (t ++ [0])) P.length closingBracket = some closep := by
  rcases exists_split closingBracket t with hno | ⟨u, t', rfl, hu⟩
  · exact ⟨none, strchr_bracket_none h0 hno⟩
  · refine ⟨some (P ++ u).length, ?_⟩
    rw [List.append_assoc, List.cons_append]
    exact strchr_bracket_some (fun h ↦ h0 (List.mem_append_left _ h)) hu

/-- Without a cut. -/
theorem repairLoop_restored (hne : t ≠ []) (h0 : 0 ∉ t) (hterm : (P ++ t).length = termp)
    (hfuel : t.length ≤ fuel) (doubled : Bool) {closep : Option Nat}
    (hc : strchr (P ++ (t ++ [0])) P.length closingBracket = some closep) :
    Repaired P t (repairLoop termp fuel (P ++ (t ++ [0])) P.length closep none)
      (closing doubled t) := by
  induction fuel generalizing P t doubled closep with
  | zero => exact absurd (List.length_eq_zero_iff.1 (Nat.le_zero.1 hfuel)) hne
  | succ fuel ih =>
    have hpos := List.length_pos_iff.2 hne
    have hlt : P.length < termp := by
      rw [← hterm, List.length_append]
      omega
    rw [repairLoop, if_pos hlt]
    rcases exists_split closingBracket t with hno | ⟨u, t', rfl, hu⟩
    · rw [strchr_bracket_none h0 hno, Option.some_inj] at hc
      subst hc
      rw [closing_of_notMem hno hne]
      rfl
    · rw [List.mem_append, not_or, List.mem_cons, not_or] at h0
      obtain ⟨h0u, -, h0t⟩ := h0
      rw [List.append_assoc, List.cons_append, strchr_bracket_some h0u hu, Option.some_inj] at hc
      subst hc
      rw [closing_append hu]
      refine Repaired.push (t := closingBracket :: t') ?_
      have hassoc : P ++ (u ++ closingBracket :: t' ++ [0]) =
          P ++ u ++ [closingBracket] ++ (t' ++ [0]) := by simp only [List.append_assoc,
            List.cons_append, List.nil_append]
      have hlen : (P ++ u).length + 1 = (P ++ u ++ [closingBracket]).length := by
        rw [@List.length_append _ (P ++ u), List.length_singleton]
      have hlen2 : (P ++ u).length + 2 =
          (P ++ u ++ [closingBracket, closingBracket]).length := by
        rw [@List.length_append _ (P ++ u)]
        rfl
      simp only [findClosing, Option.bind_eq_bind, Option.bind_some, hassoc, hlen]
      cases t' with
      | nil =>
        rw [List.nil_append, getElem?_length_append, Option.bind_some, if_neg (by decide),
          if_pos (Or.inr (Or.inl rfl)), set_length_append, closing_end]
        refine ⟨[], fun h ↦ absurd rfl h, ?_⟩
        simp only [List.append_assoc, List.cons_append, List.nil_append, List.length_append,
          List.length_singleton]
        rfl
      | cons c t' =>
        rw [List.mem_cons, not_or] at h0t
        rw [List.cons_append, getElem?_length_append, Option.bind_some]
        by_cases hcb : c = closingBracket
        · subst hcb
          rw [if_pos rfl, closing_doubled]
          refine Repaired.push (t := t') ?_
          have hmem : P ++ u ++ [closingBracket] ++ (closingBracket :: (t' ++ [0])) =
              P ++ u ++ [closingBracket, closingBracket] ++ (t' ++ [0]) := by
            simp only [List.append_assoc, List.cons_append, List.nil_append]
          have hterm' : (P ++ u ++ [closingBracket, closingBracket] ++ t').length = termp := by
            rw [← hterm]
            simp only [List.append_assoc, List.cons_append, List.nil_append]
          have hfuel' : t'.length ≤ fuel := by
            simp only [List.length_append, List.length_cons] at hfuel
            omega
          rw [hlen2, hmem]
          by_cases hend : t' = []
          · subst hend
            rw [if_pos (by rw [← hterm', List.append_nil])]
            rfl
          · have hpos' := List.length_pos_iff.2 hend
            have hlt' : ¬termp ≤ (P ++ u ++ [closingBracket, closingBracket]).length := by
              rw [← hterm', @List.length_append _ _ t']
              omega
            obtain ⟨closep', hc'⟩ := strchr_bracket (P := P ++ u ++ [closingBracket, closingBracket])
              h0t.2
            rw [if_neg hlt', if_neg (by rintro ⟨⟩), hc', Option.bind_some]
            exact ih hend h0t.2 hterm' hfuel' true hc'
        · rw [if_neg hcb]
          by_cases hcd : c = attributeDelimiter
          · subst hcd
            rw [if_pos (Or.inl rfl), set_length_append, closing_delim]
            refine ⟨t' ++ [0], fun _ ↦ rfl, ?_⟩
            simp only [List.append_assoc, List.cons_append, List.nil_append, List.length_append,
              List.length_singleton]
            rfl
          · rw [if_neg, closing_junk hcb hcd]
            · rfl
            · rintro (h | h | h)
              · exact hcd h
              · exact h0t.1 h.symm
              · cases h

/-- The first bracket behind the cut is the first of all, when there is none before. -/
theorem strchr_behind_cut {t1 t2 : List UInt8} (h01 : 0 ∉ t1) (h02 : 0 ∉ t2)
    (hno : closingBracket ∉ t1) :
    ∃ closep, strchr (P ++ (t1 ++ attributeDelimiter :: t2 ++ [0])) P.length closingBracket =
        some closep ∧
      strchr (P ++ (t1 ++ 0 :: (t2 ++ [0]))) ((P ++ t1).length + 1) closingBracket =
        some closep := by
  have hassoc : ∀ w, P ++ (t1 ++ 0 :: w) = P ++ t1 ++ [0] ++ w := fun w ↦ by
    simp only [List.append_assoc, List.cons_append, List.nil_append]
  have hlen : (P ++ t1).length + 1 = (P ++ t1 ++ [0]).length := by
    rw [@List.length_append _ (P ++ t1), List.length_singleton]
  have hdelim : ∀ {x : UInt8} {u : List UInt8}, x ∉ t1 → x ∉ u → x ≠ attributeDelimiter →
      x ∉ t1 ++ attributeDelimiter :: u := fun h h' hx ↦ by
    rw [List.mem_append, List.mem_cons, not_or, not_or]
    exact ⟨h, hx, h'⟩
  rw [hassoc, hlen]
  rcases exists_split closingBracket t2 with hno2 | ⟨u, t2', rfl, hu⟩
  · refine ⟨none, strchr_bracket_none ?_ ?_, strchr_bracket_none h02 hno2⟩
    · exact hdelim h01 h02 (by decide)
    · exact hdelim hno hno2 (by decide)
  · have h0u : 0 ∉ u := fun h ↦ h02 (List.mem_append_left _ h)
    refine ⟨some (P ++ (t1 ++ attributeDelimiter :: u)).length, ?_, ?_⟩
    · rw [show t1 ++ attributeDelimiter :: (u ++ closingBracket :: t2') ++ [0] =
        t1 ++ attributeDelimiter :: u ++ closingBracket :: (t2' ++ [0]) by
          simp only [List.append_assoc, List.cons_append]]
      exact strchr_bracket_some (hdelim h01 h0u (by decide)) (hdelim hno hu (by decide))
    · rw [show u ++ closingBracket :: t2' ++ [0] = u ++ closingBracket :: (t2' ++ [0]) by
        simp only [List.append_assoc, List.cons_append], strchr_bracket_some h0u hu]
      simp only [List.length_append, List.length_cons, List.length_nil]
      congr 2
      omega

/-- With the cut at a delimiter inside `t`. -/
theorem repairLoop_cut {t1 t2 : List UInt8} (h01 : 0 ∉ t1) (h02 : 0 ∉ t2)
    (hd : attributeDelimiter ∉ t1)
    (hterm : (P ++ (t1 ++ attributeDelimiter :: t2)).length = termp)
    (hfuel : (t1 ++ attributeDelimiter :: t2).length ≤ fuel) (doubled : Bool)
    {closep : Option Nat}
    (hc : strchr (P ++ (t1 ++ 0 :: (t2 ++ [0]))) P.length closingBracket = some closep) :
    Repaired P (t1 ++ attributeDelimiter :: t2)
      (repairLoop termp fuel (P ++ (t1 ++ 0 :: (t2 ++ [0]))) P.length closep
        (some (P ++ t1).length)) (closing doubled (t1 ++ attributeDelimiter :: t2)) := by
  induction fuel generalizing P t1 doubled closep with
  | zero =>
    rw [List.length_append, List.length_cons] at hfuel
    omega
  | succ fuel ih =>
    have h0 : 0 ∉ t1 ++ attributeDelimiter :: t2 := by
      rw [List.mem_append, List.mem_cons]
      rintro (h | h | h)
      · exact h01 h
      · exact absurd h (by decide)
      · exact h02 h
    have hne : t1 ++ attributeDelimiter :: t2 ≠ [] := by simp
    have hlt : P.length < termp := by
      rw [← hterm, List.length_append, List.length_append, List.length_cons]
      omega
    have hset : (P ++ (t1 ++ 0 :: (t2 ++ [0]))).set (P ++ t1).length attributeDelimiter =
        P ++ (t1 ++ attributeDelimiter :: t2 ++ [0]) := by
      rw [← List.append_assoc, set_length_append]
      simp only [List.append_assoc, List.cons_append]
    rcases exists_split closingBracket t1 with hno | ⟨u, t1', rfl, hu⟩
    · rw [strchr_bracket_none h01 hno, Option.some_inj] at hc
      subst hc
      obtain ⟨closep', hc', hstr⟩ := strchr_behind_cut (P := P) h01 h02 hno
      have hrest := repairLoop_restored hne h0 hterm hfuel doubled hc'
      -- The first round finds the bracket behind the cut, and restores it.
      have hsame : repairLoop termp (fuel + 1) (P ++ (t1 ++ 0 :: (t2 ++ [0]))) P.length none
          (some (P ++ t1).length) =
          repairLoop termp (fuel + 1) (P ++ (t1 ++ attributeDelimiter :: t2 ++ [0])) P.length
            closep' none := by
        rw [repairLoop, repairLoop, if_pos hlt, if_pos hlt, findClosing, hstr, hset]
        cases closep' with
        | none => rfl
        | some c => rfl
      rw [hsame]
      exact hrest
    · rw [List.mem_append, not_or, List.mem_cons, not_or] at h01 hd
      obtain ⟨h0u, -, h0t⟩ := h01
      obtain ⟨-, -, hdt⟩ := hd
      rw [List.append_assoc, List.cons_append, strchr_bracket_some h0u hu, Option.some_inj] at hc
      subst hc
      rw [List.append_assoc, List.cons_append, closing_append hu]
      refine Repaired.push ?_
      have hassoc : P ++ (u ++ closingBracket :: t1' ++ 0 :: (t2 ++ [0])) =
          P ++ u ++ [closingBracket] ++ (t1' ++ 0 :: (t2 ++ [0])) := by
        simp only [List.append_assoc, List.cons_append, List.nil_append]
      have hlen : (P ++ u).length + 1 = (P ++ u ++ [closingBracket]).length := by
        rw [@List.length_append _ (P ++ u), List.length_singleton]
      have hlen2 : (P ++ u).length + 2 =
          (P ++ u ++ [closingBracket, closingBracket]).length := by
        rw [@List.length_append _ (P ++ u)]
        rfl
      have hdelp : (P ++ (u ++ closingBracket :: t1')).length =
          (P ++ u ++ [closingBracket] ++ t1').length := by
        simp only [List.append_assoc, List.cons_append, List.nil_append]
      rw [repairLoop, if_pos hlt, hdelp]
      simp only [findClosing, Option.bind_eq_bind, Option.bind_some, hassoc, hlen]
      cases t1' with
      | nil =>
        simp only [List.nil_append]
        rw [getElem?_length_append, Option.bind_some, if_neg (by decide),
          if_pos (Or.inr (Or.inl rfl)), set_length_append, closing_delim]
        refine ⟨t2 ++ [0], fun _ ↦ rfl, ?_⟩
        simp only [List.append_assoc, List.cons_append, List.nil_append, List.length_append,
          List.length_singleton]
        rfl
      | cons c t1' =>
        rw [List.mem_cons, not_or] at h0t hdt
        simp only [List.cons_append]
        rw [getElem?_length_append, Option.bind_some]
        by_cases hcb : c = closingBracket
        · subst hcb
          rw [if_pos rfl, closing_doubled]
          refine Repaired.push ?_
          have hmem : P ++ u ++ [closingBracket] ++ (closingBracket :: (t1' ++ 0 :: (t2 ++ [0]))) =
              P ++ u ++ [closingBracket, closingBracket] ++ (t1' ++ 0 :: (t2 ++ [0])) := by
            simp only [List.append_assoc, List.cons_append, List.nil_append]
          have hdelp' : P ++ u ++ [closingBracket] ++ closingBracket :: t1' =
              P ++ u ++ [closingBracket, closingBracket] ++ t1' := by
            simp only [List.append_assoc, List.cons_append, List.nil_append]
          have hterm' : (P ++ u ++ [closingBracket, closingBracket] ++
              (t1' ++ attributeDelimiter :: t2)).length = termp := by
            rw [← hterm]
            simp only [List.append_assoc, List.cons_append, List.nil_append]
          have hfuel' : (t1' ++ attributeDelimiter :: t2).length ≤ fuel := by
            simp only [List.length_append, List.length_cons] at hfuel ⊢
            omega
          have hlt' : ¬termp ≤ (P ++ u ++ [closingBracket, closingBracket]).length := by
            rw [← hterm']
            simp only [List.length_append, List.length_cons]
            omega
          rw [hlen2, hmem, hdelp', if_neg hlt']
          by_cases hend : t1' = []
          · -- The cut is right behind the doubled bracket.
            subst hend
            have h0' : 0 ∉ attributeDelimiter :: t2 := by
              rw [List.mem_cons, not_or]
              exact ⟨by decide, h02⟩
            obtain ⟨closep', hc'⟩ := strchr_bracket
              (P := P ++ u ++ [closingBracket, closingBracket]) h0'
            rw [List.append_nil, if_pos rfl, List.nil_append, List.nil_append, set_length_append,
              ← List.cons_append, hc', Option.bind_some]
            exact repairLoop_restored (List.cons_ne_nil _ _) h0' hterm' hfuel' true hc'
          · have hne' : ¬some (P ++ u ++ [closingBracket, closingBracket] ++ t1').length =
                some (P ++ u ++ [closingBracket, closingBracket]).length := by
              rw [Option.some_inj, @List.length_append _ _ t1']
              have := List.length_pos_iff.2 hend
              omega
            obtain ⟨closep', hc'⟩ : ∃ closep', strchr (P ++ u ++ [closingBracket, closingBracket] ++
                (t1' ++ 0 :: (t2 ++ [0])))
                (P ++ u ++ [closingBracket, closingBracket]).length closingBracket =
                  some closep' := by
              rcases exists_split closingBracket t1' with hno' | ⟨u', t1'', rfl, hu'⟩
              · exact ⟨none, strchr_bracket_none h0t.2 hno'⟩
              · rw [show u' ++ closingBracket :: t1'' ++ 0 :: (t2 ++ [0]) =
                  u' ++ closingBracket :: (t1'' ++ 0 :: (t2 ++ [0])) by
                    simp only [List.append_assoc, List.cons_append]]
                exact ⟨_, strchr_bracket_some (fun h ↦ h0t.2 (List.mem_append_left _ h)) hu'⟩
            rw [if_neg hne', hc', Option.bind_some]
            exact ih h0t.2 hdt.2 hterm' hfuel' true hc'
        · rw [if_neg hcb, if_neg, closing_junk hcb (Ne.symm hdt.1)]
          · rfl
          · rintro (h | h | h)
            · exact hdt.1 h.symm
            · exact h0t.1 h.symm
            · rw [Option.some_inj] at h
              simp only [List.length_append, List.length_cons] at h
              omega

end

/-! ## Items -/

/-- What a string says: the attributes with their values up to the first error, the values in
braces that have something behind them (each with all that follows it), and whether there
was no error. -/
structure Scan where
  calls : List (List UInt8 × List UInt8)
  braced : List (List UInt8)
  ok : Bool
  deriving DecidableEq, Repr

/-- With an attribute in front. -/
def Scan.call (s : Scan) (name value : List UInt8) : Scan :=
  { s with calls := (name, value) :: s.calls }

/-- With a value in braces in front. -/
def Scan.brace (s : Scan) (t : List UInt8) : Scan := { s with braced := t :: s.braced }

/-- The first closing bracket of a value is its last byte. -/
def EndsAtBracket (value : List UInt8) : Prop :=
  ∃ u, value = u ++ [closingBracket] ∧ closingBracket ∉ u

instance (value : List UInt8) : Decidable (EndsAtBracket value) :=
  decidable_of_iff (value.getLast? = some closingBracket ∧ closingBracket ∉ value.dropLast) <| by
    constructor
    · rintro ⟨hl, hn⟩
      exact ⟨value.dropLast, (List.dropLast_append_getLast? _ hl).symm, hn⟩
    · rintro ⟨u, rfl, hn⟩
      simpa using hn

/-- The items of a string, as `dconn_get_attributes` takes them. -/
inductive Items : List UInt8 → Scan → Prop
  /-- Only delimiters. -/
  | done {ds} (hds : ∀ b ∈ ds, b = attributeDelimiter) : Items ds ⟨[], [], true⟩
  /-- An item without an equals sign is passed over. -/
  | skipLast {ds pair} (hds : ∀ b ∈ ds, b = attributeDelimiter) (hne : pair ≠ [])
      (hd : attributeDelimiter ∉ pair) (he : equalsSign ∉ pair) :
      Items (ds ++ pair) ⟨[], [], true⟩
  | skip {ds pair rest s} (hds : ∀ b ∈ ds, b = attributeDelimiter) (hne : pair ≠ [])
      (hd : attributeDelimiter ∉ pair) (he : equalsSign ∉ pair) (hrest : Items rest s) :
      Items (ds ++ (pair ++ attributeDelimiter :: rest)) s
  /-- At the end of the string, any value is taken as it stands. -/
  | last {ds name value} (hds : ∀ b ∈ ds, b = attributeDelimiter)
      (hd : attributeDelimiter ∉ name) (he : equalsSign ∉ name)
      (hdv : attributeDelimiter ∉ value) :
      Items (ds ++ (name ++ equalsSign :: value)) ⟨[(name, value)], [], true⟩
  | plain {ds name value rest s} (hds : ∀ b ∈ ds, b = attributeDelimiter)
      (hd : attributeDelimiter ∉ name) (he : equalsSign ∉ name)
      (hdv : attributeDelimiter ∉ value) (hb : value.head? ≠ some openingBracket)
      (hrest : Items rest s) :
      Items (ds ++ (name ++ equalsSign :: (value ++ attributeDelimiter :: rest)))
        (s.call name value)
  /-- A value in braces without delimiters and doubled brackets. -/
  | braced {ds name value rest s} (hds : ∀ b ∈ ds, b = attributeDelimiter)
      (hd : attributeDelimiter ∉ name) (he : equalsSign ∉ name)
      (hdv : attributeDelimiter ∉ value) (hb : value.head? = some openingBracket)
      (hend : EndsAtBracket value) (hrest : Items rest s) :
      Items (ds ++ (name ++ equalsSign :: (value ++ attributeDelimiter :: rest)))
        ((s.call name value).brace (value ++ attributeDelimiter :: rest))
  /-- Any other. -/
  | closes {ds name cut rest value rest' s} (hds : ∀ b ∈ ds, b = attributeDelimiter)
      (hd : attributeDelimiter ∉ name) (he : equalsSign ∉ name)
      (hdv : attributeDelimiter ∉ cut) (hb : cut.head? = some openingBracket)
      (hend : ¬EndsAtBracket cut)
      (hc : closing false (cut ++ attributeDelimiter :: rest) = .closes value rest')
      (hmore : 1 < rest'.length) (hrest : Items rest' s) :
      Items (ds ++ (name ++ equalsSign :: (cut ++ attributeDelimiter :: rest)))
        ((s.call name value).brace (cut ++ attributeDelimiter :: rest))
  /-- A single byte behind it is not looked at. -/
  | closesLast {ds name cut rest value rest'} (hds : ∀ b ∈ ds, b = attributeDelimiter)
      (hd : attributeDelimiter ∉ name) (he : equalsSign ∉ name)
      (hdv : attributeDelimiter ∉ cut) (hb : cut.head? = some openingBracket)
      (hend : ¬EndsAtBracket cut)
      (hc : closing false (cut ++ attributeDelimiter :: rest) = .closes value rest')
      (hmore : rest'.length ≤ 1) :
      Items (ds ++ (name ++ equalsSign :: (cut ++ attributeDelimiter :: rest)))
        ⟨[(name, value)], [cut ++ attributeDelimiter :: rest], true⟩
  | error {ds name cut rest} (hds : ∀ b ∈ ds, b = attributeDelimiter)
      (hd : attributeDelimiter ∉ name) (he : equalsSign ∉ name)
      (hdv : attributeDelimiter ∉ cut) (hb : cut.head? = some openingBracket)
      (hend : ¬EndsAtBracket cut)
      (hc : closing false (cut ++ attributeDelimiter :: rest) = .junk ∨
        closing false (cut ++ attributeDelimiter :: rest) = .unclosed false) :
      Items (ds ++ (name ++ equalsSign :: (cut ++ attributeDelimiter :: rest)))
        ⟨[], [cut ++ attributeDelimiter :: rest], false⟩
  /-- A value that ends the string with a doubled bracket is taken for good; the items inside
  it are read once more. -/
  | past {ds name cut rest s} (hds : ∀ b ∈ ds, b = attributeDelimiter)
      (hd : attributeDelimiter ∉ name) (he : equalsSign ∉ name)
      (hdv : attributeDelimiter ∉ cut) (hb : cut.head? = some openingBracket)
      (hend : ¬EndsAtBracket cut)
      (hc : closing false (cut ++ attributeDelimiter :: rest) = .unclosed true)
      (hrest : Items rest s) :
      Items (ds ++ (name ++ equalsSign :: (cut ++ attributeDelimiter :: rest)))
        ((s.call name (cut ++ attributeDelimiter :: rest)).brace
          (cut ++ attributeDelimiter :: rest))

/-! ## The program on one item -/

section

variable {V value rest : List UInt8} {termp : Nat}

theorem fixValue_plain {w : List UInt8} (hb : value.head? ≠ some openingBracket) :
    fixValue termp (V ++ (value ++ 0 :: w)) V.length =
      some (some (V ++ (value ++ 0 :: w), none, false)) := by
  cases value with
  | nil =>
    rw [fixValue, List.nil_append, getElem?_length_append]
    rfl
  | cons b value =>
    have hb' : b ≠ openingBracket := fun h ↦ hb (congrArg some h)
    simp only [fixValue, List.cons_append, getElem?_length_append, Option.bind_eq_bind,
      Option.bind_some, if_pos hb']

theorem strchr_zero {w : List UInt8} (h0 : 0 ∉ value) :
    strchr (V ++ (value ++ 0 :: w)) V.length 0 = some (some (V ++ value).length) := by
  rw [List.length_append]
  exact strchr_found fun b hb ↦ ⟨fun h ↦ h0 (h ▸ hb), fun h ↦ h0 (h ▸ hb)⟩

theorem fixValue_last (h0 : 0 ∉ value) (hb : value.head? = some openingBracket)
    (hterm : (V ++ value).length = termp) :
    fixValue termp (V ++ (value ++ [0])) V.length =
      some (some (V ++ (value ++ [0]), none, true)) := by
  obtain ⟨value, rfl⟩ : ∃ v, value = openingBracket :: v := by
    cases value with
    | nil => cases hb
    | cons b v =>
      obtain rfl : b = openingBracket := Option.some_inj.1 hb
      exact ⟨v, rfl⟩
  have hz := strchr_zero (V := V) (w := []) h0
  simp only [fixValue, List.cons_append, getElem?_length_append, Option.bind_eq_bind,
    Option.bind_some, ne_eq, not_true_eq_false, if_false]
  rw [← List.cons_append, hz]
  simp only [Option.bind_some, hterm, Nat.le_refl, if_true]

/-- The first bracket of the value is where the string is cut. -/
theorem fixValue_braced (h0 : 0 ∉ value) (hb : value.head? = some openingBracket)
    (hend : EndsAtBracket value) (hterm : (V ++ (value ++ attributeDelimiter :: rest)).length = termp) :
    fixValue termp (V ++ (value ++ 0 :: (rest ++ [0]))) V.length =
      some (some (V ++ (value ++ 0 :: (rest ++ [0])), none, false)) := by
  have hlt : ¬termp ≤ (V ++ value).length := by
    rw [← hterm]
    simp only [List.length_append, List.length_cons]
    omega
  have hz := strchr_zero (V := V) (w := rest ++ [0]) h0
  obtain ⟨u, rfl, hu⟩ := hend
  have h0u : 0 ∉ u := fun h ↦ h0 (List.mem_append_left _ h)
  have hbr : strchr (V ++ (u ++ [closingBracket] ++ 0 :: (rest ++ [0]))) V.length closingBracket =
      some (some (V ++ u).length) := by
    rw [List.append_assoc, List.singleton_append]
    exact strchr_bracket_some h0u hu
  have hnext : (V ++ (u ++ [closingBracket] ++ 0 :: (rest ++ [0])))[(V ++ u).length + 1]? =
      some 0 := by
    rw [← List.append_assoc, ← List.append_assoc, show (V ++ u).length + 1 =
      (V ++ u ++ [closingBracket]).length by rw [@List.length_append _ (V ++ u)]; rfl,
      getElem?_length_append]
  have hhead : (V ++ (u ++ [closingBracket] ++ 0 :: (rest ++ [0])))[V.length]? =
      some openingBracket := by
    cases u with
    | nil => cases hb
    | cons b u =>
      obtain rfl : b = openingBracket := Option.some_inj.1 hb
      rw [List.cons_append, List.cons_append, getElem?_length_append]
  simp only [fixValue, hhead, Option.bind_eq_bind, Option.bind_some, ne_eq, not_true_eq_false,
    if_false, hz, hlt, hbr, hnext, if_true]

/-- The bracket has to be looked for. -/
theorem fixValue_repair (h0 : 0 ∉ value) (h0r : 0 ∉ rest) (hdv : attributeDelimiter ∉ value)
    (hb : value.head? = some openingBracket) (hend : ¬EndsAtBracket value)
    (hterm : (V ++ (value ++ attributeDelimiter :: rest)).length = termp) :
    ∃ result, Repaired V (value ++ attributeDelimiter :: rest) result
        (closing false (value ++ attributeDelimiter :: rest)) ∧
      fixValue termp (V ++ (value ++ 0 :: (rest ++ [0]))) V.length =
        result.bind fun r ↦
          match r with
          | .error => some none
          | .cut mem strtokArg =>
            some (some (mem, some strtokArg, decide (termp ≤ strtokArg + 1)))
          | .past mem => some (some (mem, none, false)) := by
  have hlt : ¬termp ≤ (V ++ value).length := by
    rw [← hterm]
    simp only [List.length_append, List.length_cons]
    omega
  have hz := strchr_zero (V := V) (w := rest ++ [0]) h0
  have hhead : (V ++ (value ++ 0 :: (rest ++ [0])))[V.length]? = some openingBracket := by
    cases value with
    | nil => cases hb
    | cons b u =>
      obtain rfl : b = openingBracket := Option.some_inj.1 hb
      rw [List.cons_append, getElem?_length_append]
  obtain ⟨closep, hc, hne⟩ : ∃ closep,
      strchr (V ++ (value ++ 0 :: (rest ++ [0]))) V.length closingBracket = some closep ∧
      closep.bind ((V ++ (value ++ 0 :: (rest ++ [0])))[· + 1]?) ≠ some 0 := by
    rcases exists_split closingBracket value with hno | ⟨u, t, rfl, hu⟩
    · exact ⟨none, strchr_bracket_none h0 hno, by rintro ⟨⟩⟩
    · have h0u : 0 ∉ u := fun h ↦ h0 (List.mem_append_left _ h)
      refine ⟨some (V ++ u).length, ?_, ?_⟩
      · rw [List.append_assoc, List.cons_append]
        exact strchr_bracket_some h0u hu
      · rw [Option.bind_some, show V ++ (u ++ closingBracket :: t ++ 0 :: (rest ++ [0])) =
          V ++ u ++ [closingBracket] ++ (t ++ 0 :: (rest ++ [0])) by
            simp only [List.append_assoc, List.cons_append, List.nil_append],
          show (V ++ u).length + 1 = (V ++ u ++ [closingBracket]).length by
            rw [@List.length_append _ (V ++ u)]; rfl]
        cases t with
        | nil => exact absurd ⟨u, rfl, hu⟩ hend
        | cons c t =>
          rw [List.cons_append, getElem?_length_append]
          intro h
          obtain rfl : c = 0 := Option.some_inj.1 h
          exact h0 (List.mem_append_right _ (List.mem_cons_of_mem _ List.mem_cons_self))
  have hfuel : (value ++ attributeDelimiter :: rest).length ≤ termp := by
    rw [← hterm]
    simp only [List.length_append]
    omega
  refine ⟨_, repairLoop_cut h0 h0r hdv hterm hfuel false hc, ?_⟩
  simp only [fixValue, hhead, Option.bind_eq_bind, Option.bind_some, ne_eq, not_true_eq_false,
    if_false, hz, hlt, hc, hne] <;> rfl

end

/-! ## The program on a string -/

section

variable {α : Type} (func : α → List UInt8 → List UInt8 → α)

/-- What the calls of `func` make of the connection information. -/
def Scan.apply (s : Scan) (ci : α) : α := s.calls.foldl (fun ci p ↦ func ci p.1 p.2) ci

variable {A ds name value w : List UInt8} {termp fuel last : Nat} {strtokArg : Option Nat}

/-- The string goes on at the end of `A`. -/
def GoesOnAt (A : List UInt8) (strtokArg : Option Nat) (last : Nat) : Prop :=
  strtokArg = some A.length ∨ strtokArg = none ∧ last = A.length

theorem GoesOnAt.getD (h : GoesOnAt A strtokArg last) : strtokArg.getD last = A.length := by
  rcases h with rfl | ⟨rfl, rfl⟩
  · rfl
  · rfl

theorem GoesOnAt.any (h : GoesOnAt A strtokArg last) (hlt : A.length < termp) :
    ¬strtokArg.any (termp ≤ ·) = true := by
  rcases h with rfl | ⟨rfl, -⟩
  · simpa using hlt
  · simp

/-- One item, up to the switch on its value. -/
theorem attributesLoop_item (w : List UInt8) (fuel : Nat) (delim : Bool) (ci : α) (hgo : GoesOnAt A strtokArg last)
    (hlt : A.length < termp) (hds : ∀ b ∈ ds, b = attributeDelimiter)
    (hd : attributeDelimiter ∉ name) (he : equalsSign ∉ name) (hdv : attributeDelimiter ∉ value)
    (h0n : 0 ∉ name) (h0v : 0 ∉ value) :
    attributesLoop func termp (fuel + 1)
        (A ++ (ds ++ (name ++ equalsSign :: value ++ (if delim then attributeDelimiter else 0) :: w)))
        strtokArg last ci =
      (fixValue termp (A ++ ds ++ name ++ [0] ++ (value ++ 0 :: w))
          (A ++ ds ++ name ++ [0]).length).bind fun fixed ↦
        match fixed with
        | none => some (false, ci)
        | some (mem, strtokArg, eoftok) =>
          (cstr mem (A ++ ds).length).bind fun attr ↦
          (cstr mem (A ++ ds ++ name ++ [0]).length).bind fun val ↦
          if eoftok then some (true, func ci attr val)
          else attributesLoop func termp fuel mem strtokArg
            ((A ++ ds ++ name ++ [0] ++ value).length + if delim then 1 else 0)
            (func ci attr val) := by
  have hpair : ∀ b ∈ name ++ equalsSign :: value, b ≠ attributeDelimiter ∧ b ≠ 0 := by
    intro b hb
    rw [List.mem_append, List.mem_cons] at hb
    rcases hb with hb | rfl | hb
    · exact ⟨fun h ↦ hd (h ▸ hb), fun h ↦ h0n (h ▸ hb)⟩
    · decide
    · exact ⟨fun h ↦ hdv (h ▸ hb), fun h ↦ h0v (h ▸ hb)⟩
  have hne : name ++ equalsSign :: value ≠ [] := by simp
  have hmem : A ++ (ds ++ (name ++ equalsSign :: value ++ 0 :: w)) =
      A ++ ds ++ (name ++ equalsSign :: (value ++ 0 :: w)) := by
    simp only [List.append_assoc, List.cons_append]
  have hname : ∀ b ∈ name, b ≠ equalsSign ∧ b ≠ 0 := fun b hb ↦
    ⟨fun h ↦ he (h ▸ hb), fun h ↦ h0n (h ▸ hb)⟩
  have hset : (A ++ ds ++ (name ++ equalsSign :: (value ++ 0 :: w))).set
      ((A ++ ds).length + name.length) 0 = A ++ ds ++ name ++ [0] ++ (value ++ 0 :: w) := by
    rw [← List.append_assoc (A ++ ds), ← List.length_append, set_length_append]
    simp only [List.append_assoc, List.cons_append, List.nil_append]
  have hvpos : (A ++ ds).length + name.length + 1 = (A ++ ds ++ name ++ [0]).length := by
    rw [@List.length_append _ (A ++ ds ++ name), @List.length_append _ (A ++ ds)]
    rfl
  have hlast : (A ++ ds ++ (name ++ equalsSign :: value)).length =
      (A ++ ds ++ name ++ [0] ++ value).length := by
    simp only [List.length_append, List.length_cons, List.length_nil]
    omega
  have htok : strtok (A ++ (ds ++ (name ++ equalsSign :: value ++
      (if delim then attributeDelimiter else 0) :: w))) A.length attributeDelimiter =
      some (some (A ++ ds).length, A ++ ds ++ (name ++ equalsSign :: (value ++ 0 :: w)),
        (A ++ ds ++ name ++ [0] ++ value).length + if delim then 1 else 0) := by
    rw [← hlast, ← hmem]
    cases delim with
    | false =>
      rw [if_neg Bool.false_ne_true, if_neg Bool.false_ne_true]
      exact strtok_last hds hpair hne
    | true =>
      rw [if_pos rfl, if_pos rfl]
      exact strtok_delim (by decide) hds hpair hne
  rw [attributesLoop, if_neg (hgo.any hlt), hgo.getD, htok]
  simp only [Option.bind_eq_bind, Option.bind_some, strchr_found hname, hset, hvpos] <;> rfl

/-- At the end of the string. -/
theorem attributesLoop_done (termp fuel : Nat) (ci : α) (hgo : GoesOnAt A strtokArg last)
    (hds : ∀ b ∈ ds, b = attributeDelimiter) :
    attributesLoop func termp (fuel + 1) (A ++ (ds ++ [0])) strtokArg last ci =
      some (true, ci) := by
  rw [attributesLoop]
  by_cases hany : strtokArg.any (termp ≤ ·) = true
  · rw [if_pos hany]
  · rw [if_neg hany, hgo.getD, strtok_end (by decide) hds]
    rfl

/-- What a closed value leaves of the string. -/
theorem closing_closes {doubled : Bool} {t value rest : List UInt8}
    (h : closing doubled t = .closes value rest) :
    t = value ++ attributeDelimiter :: rest ∨ t = value ∧ rest = [] := by
  induction doubled, t using closing.induct generalizing value with
  | case1 doubled => cases h
  | case2 _ =>
    cases h
    exact Or.inr ⟨rfl, rfl⟩
  | case3 _ b hb =>
    rw [closing, if_neg hb] at h
    cases h
  | case4 _ bs ih =>
    rw [closing_doubled] at h
    cases hc : closing true bs with
    | closes v r =>
      rw [hc] at h
      cases h
      rcases ih hc with rfl | ⟨rfl, rfl⟩
      · exact Or.inl rfl
      · exact Or.inr ⟨rfl, rfl⟩
    | junk => rw [hc] at h; cases h
    | unclosed d => rw [hc] at h; cases h
  | case5 _ bs hne =>
    cases h
    exact Or.inl rfl
  | case6 _ c bs hcb hcd =>
    rw [closing_junk hcb hcd] at h
    cases h
  | case7 _ b c bs hb ih =>
    rw [closing, if_neg hb] at h
    cases hc : closing false (c :: bs) with
    | closes v r =>
      rw [hc] at h
      cases h
      rcases ih hc with heq | ⟨heq, rfl⟩
      · exact Or.inl (by rw [heq]; rfl)
      · exact Or.inr ⟨by rw [heq]; rfl, rfl⟩
    | junk => rw [hc] at h; cases h
    | unclosed d => rw [hc] at h; cases h

/-- An item that stays cut where `strtok` has cut it. -/
theorem attributesLoop_next {rest : List UInt8} {s : Scan} (hds : ∀ b ∈ ds, b = attributeDelimiter)
    (hd : attributeDelimiter ∉ name) (he : equalsSign ∉ name) (hdv : attributeDelimiter ∉ value)
    (h0 : 0 ∉ ds ++ (name ++ equalsSign :: (value ++ attributeDelimiter :: rest)))
    (hterm : (A ++ (ds ++ (name ++ equalsSign :: (value ++ attributeDelimiter :: rest)))).length =
      termp)
    (hfuel : (ds ++ (name ++ equalsSign :: (value ++ attributeDelimiter :: rest))).length < fuel)
    (hgo : GoesOnAt A strtokArg last)
    (hfix : (A ++ ds ++ name ++ [0] ++ (value ++ attributeDelimiter :: rest)).length = termp →
      fixValue termp (A ++ ds ++ name ++ [0] ++ (value ++ 0 :: (rest ++ [0])))
        (A ++ ds ++ name ++ [0]).length =
        some (some (A ++ ds ++ name ++ [0] ++ (value ++ 0 :: (rest ++ [0])), none, false)))
    (ci : α)
    (ih : ∀ {A : List UInt8} {fuel last : Nat} {strtokArg : Option Nat}, 0 ∉ rest →
      (A ++ rest).length = termp → rest.length < fuel → GoesOnAt A strtokArg last → ∀ ci : α,
      attributesLoop func termp fuel (A ++ (rest ++ [0])) strtokArg last ci =
        some (s.ok, s.apply func ci)) :
    attributesLoop func termp fuel
        (A ++ (ds ++ (name ++ equalsSign :: (value ++ attributeDelimiter :: rest)) ++ [0]))
        strtokArg last ci =
      some ((s.call name value).ok, (s.call name value).apply func ci) := by
  obtain ⟨fuel, rfl⟩ := Nat.exists_eq_succ_of_ne_zero (Nat.ne_zero_of_lt hfuel)
  simp only [List.length_append, List.length_cons] at hterm hfuel
  have h0n : 0 ∉ name := fun h ↦ h0 (by simp [h])
  have h0v : 0 ∉ value := fun h ↦ h0 (by simp [h])
  have h0r : 0 ∉ rest := fun h ↦ h0 (by simp [h])
  have hitem := attributesLoop_item func (rest ++ [0]) fuel true ci hgo (show A.length < termp by omega) hds hd he hdv h0n h0v
  simp only [if_true] at hitem
  have hmem : A ++ (ds ++ (name ++ equalsSign :: (value ++ attributeDelimiter :: rest)) ++ [0]) =
      A ++ (ds ++ (name ++ equalsSign :: value ++ attributeDelimiter :: (rest ++ [0]))) := by
    simp only [List.append_assoc, List.cons_append]
  have hname : cstr (A ++ ds ++ name ++ [0] ++ (value ++ 0 :: (rest ++ [0]))) (A ++ ds).length =
      some name := by
    rw [List.append_assoc, List.append_assoc (A ++ ds)]
    exact cstr_eq h0n
  have hvalue := cstr_eq (A := A ++ ds ++ name ++ [0]) (w := rest ++ [0]) h0v
  have hlen : (A ++ ds ++ name ++ [0] ++ value).length + 1 =
      (A ++ ds ++ name ++ [0] ++ value ++ [0]).length := by
    rw [@List.length_append _ (A ++ ds ++ name ++ [0] ++ value)]
    rfl
  have hih := @ih (A ++ ds ++ name ++ [0] ++ value ++ [0]) fuel
      ((A ++ ds ++ name ++ [0] ++ value).length + 1) none h0r
    (by simp only [List.length_append, List.length_singleton]; omega) (by omega)
    (Or.inr ⟨rfl, hlen⟩) (func ci name value)
  have hassoc : A ++ ds ++ name ++ [0] ++ value ++ [0] ++ (rest ++ [0]) =
      A ++ ds ++ name ++ [0] ++ (value ++ 0 :: (rest ++ [0])) := by
    simp only [List.append_assoc, List.cons_append, List.nil_append]
  rw [hmem, hitem, hfix (by
    simp only [List.length_append, List.length_cons, List.length_nil]
    omega)]
  simp only [Option.bind_some, hname, hvalue, Bool.false_eq_true, if_false]
  rw [hassoc] at hih
  exact hih

/-- An item whose closing bracket has to be looked for. -/
theorem attributesLoop_repair {rest : List UInt8} (hds : ∀ b ∈ ds, b = attributeDelimiter)
    (hd : attributeDelimiter ∉ name) (he : equalsSign ∉ name) (hdv : attributeDelimiter ∉ value)
    (h0 : 0 ∉ ds ++ (name ++ equalsSign :: (value ++ attributeDelimiter :: rest)))
    (hterm : (A ++ (ds ++ (name ++ equalsSign :: (value ++ attributeDelimiter :: rest)))).length =
      termp)
    (hgo : GoesOnAt A strtokArg last) (hb : value.head? = some openingBracket)
    (hend : ¬EndsAtBracket value) (fuel : Nat) (ci : α) :
    ∃ result, Repaired (A ++ ds ++ name ++ [0]) (value ++ attributeDelimiter :: rest) result
        (closing false (value ++ attributeDelimiter :: rest)) ∧
      attributesLoop func termp (fuel + 1)
          (A ++ (ds ++ (name ++ equalsSign :: (value ++ attributeDelimiter :: rest)) ++ [0]))
          strtokArg last ci =
        (result.bind fun r ↦
          match r with
          | .error => some none
          | .cut mem strtokArg =>
            some (some (mem, some strtokArg, decide (termp ≤ strtokArg + 1)))
          | .past mem => some (some (mem, none, false))).bind fun fixed ↦
          match fixed with
          | none => some (false, ci)
          | some (mem, strtokArg, eoftok) =>
            (cstr mem (A ++ ds).length).bind fun attr ↦
            (cstr mem (A ++ ds ++ name ++ [0]).length).bind fun val ↦
            if eoftok then some (true, func ci attr val)
            else attributesLoop func termp fuel mem strtokArg
              ((A ++ ds ++ name ++ [0] ++ value).length + 1) (func ci attr val) := by
  have h0n : 0 ∉ name := fun h ↦ h0 (by simp [h])
  have h0v : 0 ∉ value := fun h ↦ h0 (by simp [h])
  have h0r : 0 ∉ rest := fun h ↦ h0 (by simp [h])
  have hlt : A.length < termp := by
    simp only [List.length_append, List.length_cons] at hterm
    omega
  have hterm' : (A ++ ds ++ name ++ [0] ++ (value ++ attributeDelimiter :: rest)).length =
      termp := by
    rw [← hterm]
    simp only [List.length_append, List.length_cons, List.length_nil]
    omega
  obtain ⟨result, hr, hf⟩ := fixValue_repair h0v h0r hdv hb hend hterm'
  refine ⟨result, hr, ?_⟩
  have hitem := attributesLoop_item func (rest ++ [0]) fuel true ci hgo hlt hds hd he hdv h0n h0v
  simp only [if_true] at hitem
  have hmem : A ++ (ds ++ (name ++ equalsSign :: (value ++ attributeDelimiter :: rest)) ++ [0]) =
      A ++ (ds ++ (name ++ equalsSign :: value ++ attributeDelimiter :: (rest ++ [0]))) := by
    simp only [List.append_assoc, List.cons_append]
  rw [hmem, hitem, hf]

/-- The program takes the items of the string, each once. -/
theorem attributesLoop_items {r : List UInt8} {s : Scan} (h : Items r s) (h0 : 0 ∉ r)
    (hterm : (A ++ r).length = termp) (hfuel : r.length < fuel) (hgo : GoesOnAt A strtokArg last)
    (ci : α) :
    attributesLoop func termp fuel (A ++ (r ++ [0])) strtokArg last ci =
      some (s.ok, s.apply func ci) := by
  induction h generalizing A fuel strtokArg last ci with
  | done hds =>
    obtain ⟨fuel, rfl⟩ := Nat.exists_eq_succ_of_ne_zero (Nat.ne_zero_of_lt hfuel)
    exact attributesLoop_done func _ _ ci hgo hds
  | @skipLast ds pair hds hne hd he =>
    obtain ⟨fuel, rfl⟩ := Nat.exists_eq_succ_of_ne_zero (Nat.ne_zero_of_lt hfuel)
    have hpos := List.length_pos_iff.2 hne
    simp only [List.length_append] at hterm hfuel
    obtain ⟨fuel, rfl⟩ := Nat.exists_eq_succ_of_ne_zero (show fuel ≠ 0 by omega)
    have hpair : ∀ b ∈ pair, b ≠ attributeDelimiter ∧ b ≠ 0 := fun b hb ↦
      ⟨fun h ↦ hd (h ▸ hb), fun h ↦ h0 (List.mem_append_right _ (h ▸ hb))⟩
    have heq : strchr (A ++ ds ++ (pair ++ [0])) (A ++ ds).length equalsSign = some none :=
      strchr_null (by decide) fun b hb ↦ ⟨fun h ↦ he (h ▸ hb), (hpair b hb).2⟩
    rw [attributesLoop, if_neg (hgo.any (by omega)), hgo.getD, List.append_assoc,
      strtok_last hds hpair hne]
    simp only [Option.bind_eq_bind, Option.bind_some]
    rw [← List.append_assoc, heq]
    have hdone := attributesLoop_done func termp fuel ci
      (Or.inr ⟨rfl, rfl⟩ : GoesOnAt (A ++ ds ++ pair) none _)
      (List.forall_mem_nil (· = attributeDelimiter))
    rw [List.nil_append, List.append_assoc] at hdone
    exact hdone
  | @skip ds pair rest s hds hne hd he hrest ih =>
    obtain ⟨fuel, rfl⟩ := Nat.exists_eq_succ_of_ne_zero (Nat.ne_zero_of_lt hfuel)
    have hpos := List.length_pos_iff.2 hne
    simp only [List.length_append, List.length_cons] at hterm hfuel
    have h0r : 0 ∉ rest := fun h ↦ h0 (by simp [h])
    have hpair : ∀ b ∈ pair, b ≠ attributeDelimiter ∧ b ≠ 0 := fun b hb ↦
      ⟨fun h ↦ hd (h ▸ hb), fun h ↦ h0 (by simp [h ▸ hb])⟩
    have heq : strchr (A ++ ds ++ (pair ++ 0 :: (rest ++ [0]))) (A ++ ds).length equalsSign =
        some none :=
      strchr_null (by decide) fun b hb ↦ ⟨fun h ↦ he (h ▸ hb), (hpair b hb).2⟩
    have hlen : (A ++ ds ++ pair).length + 1 = (A ++ ds ++ pair ++ [0]).length := by
      rw [@List.length_append _ (A ++ ds ++ pair)]
      rfl
    rw [attributesLoop, if_neg (hgo.any (by omega)), hgo.getD, List.append_assoc,
      List.append_assoc, List.cons_append, strtok_delim (by decide) hds hpair hne]
    simp only [Option.bind_eq_bind, Option.bind_some]
    rw [← List.append_assoc, heq]
    have hih := @ih (A ++ ds ++ pair ++ [0]) fuel
      ((A ++ ds ++ pair).length + 1) none h0r
      (by simp only [List.length_append, List.length_singleton]; omega) (by omega)
      (Or.inr ⟨rfl, hlen⟩) ci
    have hassoc : A ++ ds ++ pair ++ [0] ++ (rest ++ [0]) =
        A ++ ds ++ (pair ++ 0 :: (rest ++ [0])) := by
      simp only [List.append_assoc, List.cons_append, List.nil_append]
    rw [hassoc] at hih
    exact hih
  | @last ds name value hds hd he hdv =>
    obtain ⟨fuel, rfl⟩ := Nat.exists_eq_succ_of_ne_zero (Nat.ne_zero_of_lt hfuel)
    simp only [List.length_append, List.length_cons] at hterm hfuel
    obtain ⟨fuel, rfl⟩ := Nat.exists_eq_succ_of_ne_zero (show fuel ≠ 0 by omega)
    have h0n : 0 ∉ name := fun h ↦ h0 (by simp [h])
    have h0v : 0 ∉ value := fun h ↦ h0 (by simp [h])
    have hitem := attributesLoop_item func [] (fuel + 1) false ci
      hgo (show A.length < termp by omega) hds hd he hdv h0n h0v
    simp only [Bool.false_eq_true, if_false] at hitem
    have hmem : A ++ (ds ++ (name ++ equalsSign :: value) ++ [0]) =
        A ++ (ds ++ (name ++ equalsSign :: value ++ [0])) := by simp only [List.append_assoc]
    have hname : cstr (A ++ ds ++ name ++ [0] ++ (value ++ [0])) (A ++ ds).length = some name := by
      rw [List.append_assoc, List.append_assoc (A ++ ds)]
      exact cstr_eq h0n
    have hvalue := cstr_eq (A := A ++ ds ++ name ++ [0]) (w := []) h0v
    rw [hmem, hitem]
    by_cases hb : value.head? = some openingBracket
    · rw [fixValue_last h0v hb (by
        simp only [List.length_append, List.length_cons, List.length_nil]
        omega)]
      simp only [Option.bind_some, hname, hvalue, if_true]
      rfl
    · rw [fixValue_plain hb]
      simp only [Option.bind_some, hname, hvalue, Bool.false_eq_true, if_false]
      have hdone := attributesLoop_done func termp fuel (func ci name value)
        (Or.inr ⟨rfl, rfl⟩ : GoesOnAt (A ++ ds ++ name ++ [0] ++ value) none _)
        (List.forall_mem_nil (· = attributeDelimiter))
      rw [List.nil_append, List.append_assoc (A ++ ds ++ name ++ [0])] at hdone
      exact hdone
  | @plain ds name value rest s hds hd he hdv hb hrest ih =>
    exact attributesLoop_next func hds hd he hdv h0 hterm hfuel hgo
      (fun _ ↦ fixValue_plain hb) ci ih
  | @braced ds name value rest s hds hd he hdv hb hend hrest ih =>
    exact attributesLoop_next func hds hd he hdv h0 hterm hfuel hgo
      (fun hterm' ↦ fixValue_braced (fun h ↦ h0 (by simp [h])) hb hend hterm') ci ih
  | @closes ds name cut rest value rest' s hds hd he hdv hb hend hc hmore hrest ih =>
    obtain ⟨fuel, rfl⟩ := Nat.exists_eq_succ_of_ne_zero (Nat.ne_zero_of_lt hfuel)
    have h0t : 0 ∉ cut ++ attributeDelimiter :: rest := fun h ↦
      h0 (List.mem_append_right _ (List.mem_append_right _ (List.mem_cons_of_mem _ h)))
    obtain ⟨result, hr, heq⟩ :=
      attributesLoop_repair func hds hd he hdv h0 hterm hgo hb hend fuel ci
    rw [hc] at hr
    obtain ⟨tail, htail, rfl⟩ := hr
    rw [htail (fun h ↦ by rw [h] at hmore; exact absurd hmore (by decide))] at heq
    have ht : cut ++ attributeDelimiter :: rest = value ++ attributeDelimiter :: rest' := by
      rcases closing_closes hc with h | ⟨-, h⟩
      · exact h
      · rw [h] at hmore
        exact absurd hmore (by decide)
    rw [ht] at h0t hterm hfuel
    have h0r : 0 ∉ rest' := fun h ↦ h0t (by simp [h])
    have h0v : 0 ∉ value := fun h ↦ h0t (by simp [h])
    have h0n : 0 ∉ name := fun h ↦ h0 (by simp [h])
    have hname : cstr (A ++ ds ++ name ++ [0] ++ (value ++ 0 :: (rest' ++ [0])))
        (A ++ ds).length = some name := by
      rw [List.append_assoc, List.append_assoc (A ++ ds)]
      exact cstr_eq h0n
    have hvalue := cstr_eq (A := A ++ ds ++ name ++ [0]) (w := rest' ++ [0]) h0v
    have hassoc : A ++ ds ++ name ++ [0] ++ (value ++ 0 :: (rest' ++ [0])) =
        A ++ ds ++ name ++ [0] ++ value ++ [0] ++ (rest' ++ [0]) := by
      simp only [List.append_assoc, List.cons_append, List.nil_append]
    have hlen : (A ++ ds ++ name ++ [0] ++ value).length + 1 =
        (A ++ ds ++ name ++ [0] ++ value ++ [0]).length := by
      rw [@List.length_append _ (A ++ ds ++ name ++ [0] ++ value)]
      rfl
    have hnot : ¬termp ≤ (A ++ ds ++ name ++ [0] ++ value).length + 1 + 1 := by
      simp only [List.length_append, List.length_cons, List.length_nil] at hterm ⊢
      omega
    rw [heq]
    simp only [Option.bind_some, hname, hvalue, decide_eq_false hnot, Bool.false_eq_true,
      if_false]
    rw [hassoc, hlen]
    simp only [List.length_append, List.length_cons] at hfuel hterm
    exact ih h0r (by simp only [List.length_append, List.length_cons, List.length_nil]; omega)
      (by omega) (Or.inl rfl) (func ci name value)
  | @closesLast ds name cut rest value rest' hds hd he hdv hb hend hc hmore =>
    obtain ⟨fuel, rfl⟩ := Nat.exists_eq_succ_of_ne_zero (Nat.ne_zero_of_lt hfuel)
    have h0t : 0 ∉ cut ++ attributeDelimiter :: rest := fun h ↦
      h0 (List.mem_append_right _ (List.mem_append_right _ (List.mem_cons_of_mem _ h)))
    obtain ⟨result, hr, heq⟩ :=
      attributesLoop_repair func hds hd he hdv h0 hterm hgo hb hend fuel ci
    rw [hc] at hr
    obtain ⟨tail, -, rfl⟩ := hr
    have h0v : 0 ∉ value := fun h ↦ by
      rcases closing_closes hc with ht | ⟨ht, -⟩ <;> rw [ht] at h0t <;> exact h0t (by simp [h])
    have h0n : 0 ∉ name := fun h ↦ h0 (by simp [h])
    have hname : cstr (A ++ ds ++ name ++ [0] ++ (value ++ 0 :: tail)) (A ++ ds).length =
        some name := by
      rw [List.append_assoc, List.append_assoc (A ++ ds)]
      exact cstr_eq h0n
    have hvalue := cstr_eq (A := A ++ ds ++ name ++ [0]) (w := tail) h0v
    have hend' : termp ≤ (A ++ ds ++ name ++ [0] ++ value).length + 1 + 1 := by
      have hlen : (cut ++ attributeDelimiter :: rest).length ≤ value.length + 2 := by
        rcases closing_closes hc with ht | ⟨ht, -⟩ <;> rw [ht]
        · simp only [List.length_append, List.length_cons]
          omega
        · omega
      simp only [List.length_append, List.length_cons, List.length_nil] at hterm hlen ⊢
      omega
    rw [heq]
    simp only [Option.bind_some, hname, hvalue, decide_eq_true hend', if_true]
    rfl
  | @error ds name cut rest hds hd he hdv hb hend hc =>
    obtain ⟨fuel, rfl⟩ := Nat.exists_eq_succ_of_ne_zero (Nat.ne_zero_of_lt hfuel)
    obtain ⟨result, hr, heq⟩ :=
      attributesLoop_repair func hds hd he hdv h0 hterm hgo hb hend fuel ci
    have herr : result = some .error := by
      rcases hc with hc | hc <;> rw [hc] at hr <;> exact hr
    rw [heq, herr]
    rfl
  | @past ds name cut rest s hds hd he hdv hb hend hc hrest ih =>
    obtain ⟨fuel, rfl⟩ := Nat.exists_eq_succ_of_ne_zero (Nat.ne_zero_of_lt hfuel)
    have h0t : 0 ∉ cut ++ attributeDelimiter :: rest := fun h ↦
      h0 (List.mem_append_right _ (List.mem_append_right _ (List.mem_cons_of_mem _ h)))
    obtain ⟨result, hr, heq⟩ :=
      attributesLoop_repair func hds hd he hdv h0 hterm hgo hb hend fuel ci
    rw [hc] at hr
    obtain rfl : result = _ := hr
    have h0r : 0 ∉ rest := fun h ↦ h0t (by simp [h])
    have h0n : 0 ∉ name := fun h ↦ h0 (by simp [h])
    have hname : cstr (A ++ ds ++ name ++ [0] ++ (cut ++ attributeDelimiter :: rest ++ [0]))
        (A ++ ds).length = some name := by
      rw [List.append_assoc, List.append_assoc (A ++ ds)]
      exact cstr_eq h0n
    have hvalue := cstr_eq (A := A ++ ds ++ name ++ [0]) (w := []) h0t
    have hassoc : A ++ ds ++ name ++ [0] ++ (cut ++ attributeDelimiter :: rest ++ [0]) =
        A ++ ds ++ name ++ [0] ++ cut ++ [attributeDelimiter] ++ (rest ++ [0]) := by
      simp only [List.append_assoc, List.cons_append, List.nil_append]
    have hlen : (A ++ ds ++ name ++ [0] ++ cut).length + 1 =
        (A ++ ds ++ name ++ [0] ++ cut ++ [attributeDelimiter]).length := by
      rw [@List.length_append _ (A ++ ds ++ name ++ [0] ++ cut)]
      rfl
    rw [heq]
    simp only [Option.bind_some, hname, hvalue, Bool.false_eq_true, if_false]
    rw [hassoc]
    simp only [List.length_append, List.length_cons] at hfuel hterm
    exact ih h0r (by simp only [List.length_append, List.length_cons, List.length_nil]; omega)
      (by omega) (Or.inr ⟨rfl, hlen⟩) (func ci name _)

end

end PsqlOdbc
