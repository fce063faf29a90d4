import PsqlOdbc.DrvconnSplit

/-!
# Well-formed connection strings, and values that are not closed

Every string has items (`exists_items`), so the program always has a result.  Of a string
joined from pairs the items are the pairs (`Joined.items`); a value in braces that is never
closed is an error unless the string ends with a doubled bracket (`dconnGetAttributes_spec`).
-/

namespace PsqlOdbc

open Lib

/-! ## Every string has items -/

theorem exists_items (r : List UInt8) : ∃ s, Items r s := by
  induction hn : r.length using Nat.strong_induction_on generalizing r with
  | h n ih =>
    subst hn
    obtain ⟨ds, r, rfl, hds, hh⟩ := exists_skip attributeDelimiter r
    by_cases hne : r = []
    · rw [hne, List.append_nil]
      exact ⟨_, .done hds⟩
    rcases exists_split attributeDelimiter r with hd | ⟨pair, rest, rfl, hd⟩
    · rcases exists_split equalsSign r with he | ⟨name, value, rfl, he⟩
      · exact ⟨_, .skipLast hds hne hd he⟩
      · rw [List.mem_append, List.mem_cons, not_or, not_or] at hd
        exact ⟨_, .last hds hd.1 he hd.2.2⟩
    · have hlt : rest.length < (ds ++ (pair ++ attributeDelimiter :: rest)).length := by
        simp only [List.length_append, List.length_cons]
        omega
      obtain ⟨s, hs⟩ := ih _ hlt rest rfl
      rcases exists_split equalsSign pair with he | ⟨name, value, rfl, he⟩
      · refine ⟨s, .skip hds ?_ hd he hs⟩
        rintro rfl
        exact hh rfl
      · rw [List.mem_append, List.mem_cons, not_or, not_or] at hd
        obtain ⟨hd, -, hdv⟩ := hd
        rw [List.append_assoc, List.cons_append]
        by_cases hb : value.head? = some openingBracket
        · by_cases hend : EndsAtBracket value
          · exact ⟨_, .braced hds hd he hdv hb hend hs⟩
          · cases hc : closing false (value ++ attributeDelimiter :: rest) with
            | closes v rest' =>
              by_cases hmore : 1 < rest'.length
              · have hlt' : rest'.length <
                    (ds ++ (name ++ equalsSign :: value ++ attributeDelimiter :: rest)).length := by
                  have hl := congrArg List.length
                    ((closing_closes hc).elim id fun h ↦ by rw [h.2] at hmore; simp at hmore)
                  simp only [List.length_append, List.length_cons] at hl ⊢
                  omega
                obtain ⟨s', hs'⟩ := ih _ hlt' rest' rfl
                exact ⟨_, .closes hds hd he hdv hb hend hc hmore hs'⟩
              · exact ⟨_, .closesLast hds hd he hdv hb hend hc (Nat.not_lt.1 hmore)⟩
            | junk => exact ⟨_, .error hds hd he hdv hb hend (Or.inl hc)⟩
            | unclosed doubled =>
              cases doubled with
              | false => exact ⟨_, .error hds hd he hdv hb hend (Or.inr hc)⟩
              | true => exact ⟨_, .past hds hd he hdv hb hend hc hs⟩
        · exact ⟨_, .plain hds hd he hdv hb hs⟩

/-! ## Values that are not closed -/

theorem Closing.push_eq_unclosed {x : Closing} {w : List UInt8} {doubled : Bool} :
    x.push w = .unclosed doubled ↔ x = .unclosed doubled := by
  cases x <;> simp [Closing.push]

/-- When a string ends with a doubled bracket and nothing closes, the same is true of what is
behind any other byte of it. -/
theorem closing_behind {u w : List UInt8} {c : UInt8} (hc : c ≠ closingBracket) {doubled : Bool}
    (h : closing doubled (u ++ c :: w) = .unclosed true) : closing false w = .unclosed true := by
  induction hn : u.length using Nat.strong_induction_on generalizing u doubled with
  | h n ih =>
    subst hn
    match u with
    | [] =>
      cases w with
      | nil =>
        rw [List.nil_append, closing, if_neg hc] at h
        cases h
      | cons b w =>
        rw [List.nil_append, closing, if_neg hc, Closing.push_eq_unclosed] at h
        exact h
    | [b] =>
      by_cases hb : b = closingBracket
      · subst hb
        by_cases hd : c = attributeDelimiter
        · subst hd
          cases h
        · rw [List.singleton_append, closing_junk hc hd] at h
          cases h
      · rw [List.singleton_append, closing, if_neg hb, Closing.push_eq_unclosed] at h
        exact ih 0 Nat.one_pos (u := []) h rfl
    | b :: b' :: u =>
      by_cases hb : b = closingBracket
      · subst hb
        by_cases hb' : b' = closingBracket
        · subst hb'
          rw [List.cons_append, List.cons_append, closing_doubled, Closing.push_eq_unclosed] at h
          exact ih _ (by simp only [List.length_cons]; omega) h rfl
        · by_cases hd : b' = attributeDelimiter
          · subst hd
            cases h
          · rw [List.cons_append, List.cons_append, closing_junk hb' hd] at h
            cases h
      · rw [List.cons_append, List.cons_append, closing, if_neg hb,
          Closing.push_eq_unclosed, ← List.cons_append] at h
        exact ih _ (Nat.lt_succ_self _) h rfl

/-- Reading such a string gives no error. -/
theorem Items.ok_of_unclosed {r : List UInt8} {s : Scan} (h : Items r s) {doubled : Bool}
    (hu : closing doubled r = .unclosed true) : s.ok = true := by
  have hassoc : ∀ (ds name cut rest : List UInt8),
      ds ++ (name ++ equalsSign :: (cut ++ attributeDelimiter :: rest)) =
        ds ++ (name ++ equalsSign :: cut) ++ attributeDelimiter :: rest := fun _ _ _ _ ↦ by
    simp only [List.append_assoc, List.cons_append]
  have hassoc' : ∀ (ds name t : List UInt8),
      ds ++ (name ++ equalsSign :: t) = ds ++ name ++ equalsSign :: t := fun _ _ _ ↦ by
    rw [List.append_assoc]
  induction h generalizing doubled with
  | done => rfl
  | skipLast => rfl
  | skip _ _ _ _ _ ih =>
    rw [← List.append_assoc] at hu
    exact ih (closing_behind (by decide) hu)
  | last => rfl
  | plain _ _ _ _ _ _ ih =>
    rw [hassoc] at hu
    exact ih (closing_behind (by decide) hu)
  | braced _ _ _ _ _ _ _ ih =>
    rw [hassoc] at hu
    exact ih (closing_behind (by decide) hu)
  | closes _ _ _ _ _ _ hc =>
    rw [hassoc'] at hu
    rw [closing_behind (by decide) hu] at hc
    cases hc
  | closesLast => rfl
  | error _ _ _ _ _ _ hc =>
    rw [hassoc'] at hu
    rw [closing_behind (by decide) hu] at hc
    rcases hc with hc | hc <;> cases hc
  | past _ _ _ _ _ _ _ _ ih =>
    rw [hassoc] at hu
    exact ih (closing_behind (by decide) hu)

theorem closing_of_endsAtBracket {value rest : List UInt8} (h : EndsAtBracket value) :
    closing false (value ++ attributeDelimiter :: rest) = .closes value rest := by
  obtain ⟨u, rfl, hu⟩ := h
  rw [List.append_assoc, List.singleton_append, closing_append hu, closing_delim]
  rfl

/-- A value that is not closed is an error unless the string ends with a doubled bracket. -/
theorem Items.ok_of_braced {r : List UInt8} {s : Scan} (h : Items r s) {t : List UInt8}
    (ht : t ∈ s.braced) {doubled : Bool} (hu : closing false t = .unclosed doubled) :
    s.ok = doubled := by
  induction h with
  | done => cases ht
  | skipLast => cases ht
  | skip _ _ _ _ _ ih => exact ih ht
  | last => cases ht
  | plain _ _ _ _ _ _ ih => exact ih ht
  | braced _ _ _ _ _ hend _ ih =>
    rcases List.mem_cons.1 ht with rfl | ht
    · rw [closing_of_endsAtBracket hend] at hu
      cases hu
    · exact ih ht
  | closes _ _ _ _ _ _ hc _ _ ih =>
    rcases List.mem_cons.1 ht with rfl | ht
    · rw [hc] at hu
      cases hu
    · exact ih ht
  | closesLast _ _ _ _ _ _ hc =>
    rw [List.mem_singleton.1 ht, hc] at hu
    cases hu
  | error _ _ _ _ _ _ hc =>
    rw [List.mem_singleton.1 ht] at hu
    rw [hu] at hc
    rcases hc with hc | hc <;> cases hc
    rfl
  | past _ _ _ _ _ _ hc hrest ih =>
    rcases List.mem_cons.1 ht with rfl | ht
    · rw [hc] at hu
      cases hu
      exact hrest.ok_of_unclosed (closing_behind (by decide) hc)
    · exact ih ht

/-! ## Well-formed strings -/

/-- A text with every closing bracket doubled. -/
def doubleBrackets (text : List UInt8) : List UInt8 :=
  text.flatMap fun b ↦ if b = closingBracket then [b, b] else [b]

/-- A value in braces. -/
def bracesOf (text : List UInt8) : List UInt8 :=
  openingBracket :: (doubleBrackets text ++ [closingBracket])

/-- An attribute and a value that can stand in a connection string: a plain value, or any
text in braces. -/
structure PairOk (p : List UInt8 × List UInt8) : Prop where
  name_ne : p.1 ≠ []
  name_delim : attributeDelimiter ∉ p.1
  name_equals : equalsSign ∉ p.1
  value : attributeDelimiter ∉ p.2 ∧ p.2.head? ≠ some openingBracket ∨
    ∃ text, p.2 = bracesOf text

/-- A list of pairs joined to a connection string: delimiters between them, any number of
them, and none needed at the end. -/
inductive Joined : List (List UInt8 × List UInt8) → List UInt8 → Prop
  | nil {ds} : (∀ b ∈ ds, b = attributeDelimiter) → Joined [] ds
  | last {ds p} : (∀ b ∈ ds, b = attributeDelimiter) → PairOk p →
      Joined [p] (ds ++ (p.1 ++ equalsSign :: p.2))
  | cons {ds p ps r} : (∀ b ∈ ds, b = attributeDelimiter) → PairOk p → Joined ps r →
      Joined (p :: ps) (ds ++ (p.1 ++ equalsSign :: (p.2 ++ attributeDelimiter :: r)))

@[simp] theorem doubleBrackets_nil : doubleBrackets [] = [] := rfl

theorem doubleBrackets_cons (b : UInt8) (text : List UInt8) :
    doubleBrackets (b :: text) =
      (if b = closingBracket then [b, b] else [b]) ++ doubleBrackets text := rfl

section

variable {text w : List UInt8}

/-- Doubled brackets do not close. -/
theorem closing_doubleBrackets (doubled : Bool) :
    closing doubled (doubleBrackets text ++ closingBracket :: w) =
      (closing (if text = [] then doubled else false) (closingBracket :: w)).push
        (doubleBrackets text) := by
  have hfree : ∀ d, closing d (closingBracket :: w) = closing false (closingBracket :: w) :=
    fun d ↦ by cases w <;> rfl
  rw [hfree]
  induction text generalizing doubled with
  | nil => rw [doubleBrackets_nil, List.nil_append, Closing.push_nil, hfree]
  | cons b text ih =>
    rw [doubleBrackets_cons]
    by_cases hb : b = closingBracket
    · subst hb
      rw [if_pos rfl, List.cons_append, List.singleton_append, List.cons_append, List.cons_append,
        closing_doubled, ih, Closing.push_push]
      rfl
    · obtain ⟨c, t, hc⟩ : ∃ c t, doubleBrackets text ++ closingBracket :: w = c :: t := by
        cases h : doubleBrackets text with
        | nil => exact ⟨_, _, rfl⟩
        | cons c t => exact ⟨_, _, rfl⟩
      rw [if_neg hb, List.singleton_append, List.cons_append, hc, closing, if_neg hb, ← hc, ih,
        Closing.push_push]
      rfl

theorem closing_bracesOf (text w : List UInt8) :
    closing false (bracesOf text ++ attributeDelimiter :: w) = .closes (bracesOf text) w := by
  obtain ⟨c, t, hc⟩ : ∃ c t, doubleBrackets text ++ closingBracket :: attributeDelimiter :: w =
      c :: t := by
    cases h : doubleBrackets text with
    | nil => exact ⟨_, _, rfl⟩
    | cons c t => exact ⟨_, _, rfl⟩
  rw [bracesOf, List.cons_append, List.append_assoc, List.singleton_append, hc, closing,
    if_neg (by decide), ← hc, closing_doubleBrackets, Closing.push_push, closing_delim]
  rfl

theorem closing_bracesOf_end (text : List UInt8) :
    closing false (bracesOf text) = .closes (bracesOf text) [] := by
  obtain ⟨c, t, hc⟩ : ∃ c t, doubleBrackets text ++ [closingBracket] = c :: t := by
    cases h : doubleBrackets text with
    | nil => exact ⟨_, _, rfl⟩
    | cons c t => exact ⟨_, _, rfl⟩
  rw [bracesOf, hc, closing, if_neg (by decide), ← hc, closing_doubleBrackets,
    Closing.push_push, closing_end]
  rfl

/-- The first bracket of a doubled text is not in front of a delimiter. -/
theorem doubleBrackets_ne {u : List UInt8} (hu : closingBracket ∉ u) :
    doubleBrackets text ++ [closingBracket] ≠ u ++ closingBracket :: attributeDelimiter :: w := by
  induction text generalizing u with
  | nil =>
    intro h
    have := congrArg List.length h
    simp only [doubleBrackets_nil, List.length_append, List.length_cons, List.length_nil] at this
    omega
  | cons b text ih =>
    rw [doubleBrackets_cons]
    intro h
    by_cases hb : b = closingBracket
    · subst hb
      rw [if_pos rfl] at h
      cases u with
      | nil =>
        injection h with _ h
        injection h with h _
        exact absurd h (by decide)
      | cons c u =>
        injection h with h _
        exact hu (h ▸ List.mem_cons_self)
    · rw [if_neg hb] at h
      cases u with
      | nil =>
        injection h with h _
        exact hb h
      | cons c u =>
        injection h with _ h
        exact ih (fun hm ↦ hu (List.mem_cons_of_mem _ hm)) h

/-- A delimiter inside a value in braces does not stand behind its first bracket. -/
theorem bracesOf_cut {cut rest : List UInt8}
    (h : bracesOf text = cut ++ attributeDelimiter :: rest) :
    cut.head? = some openingBracket ∧ ¬EndsAtBracket cut := by
  cases cut with
  | nil =>
    injection h with h _
    exact absurd h (by decide)
  | cons b cut =>
    injection h with hb h
    refine ⟨congrArg some hb.symm, ?_⟩
    rintro ⟨u, he, hu⟩
    cases u with
    | nil =>
      injection he with he _
      exact absurd (hb.trans he) (by decide)
    | cons c u =>
      injection he with _ he
      have h : doubleBrackets text ++ [closingBracket] = cut ++ attributeDelimiter :: rest := h
      have he : cut = u ++ [closingBracket] := he
      rw [he, List.append_assoc, List.singleton_append] at h
      exact doubleBrackets_ne (fun hm ↦ hu (List.mem_cons_of_mem _ hm)) h

end

/-- What is left behind the pairs holds no item if it is at most one byte. -/
theorem Joined.eq_nil {ps : List (List UInt8 × List UInt8)} {r : List UInt8} (h : Joined ps r)
    (hr : r.length ≤ 1) : ps = [] := by
  cases h with
  | nil => rfl
  | last _ hp | cons _ hp =>
    have := List.length_pos_iff.2 hp.name_ne
    simp only [List.length_append, List.length_cons] at hr
    omega

/-- A pair in front of a string.  Where the rest is too short to be looked at, it must have no
items. -/
theorem Items.pair {ds r : List UInt8} {p : List UInt8 × List UInt8} {s : Scan}
    (hds : ∀ b ∈ ds, b = attributeDelimiter) (hp : PairOk p) (h : Items r s)
    (hshort : r.length ≤ 1 → s.calls = [] ∧ s.ok = true) :
    ∃ s', Items (ds ++ (p.1 ++ equalsSign :: (p.2 ++ attributeDelimiter :: r))) s' ∧
      s'.calls = p :: s.calls ∧ s'.ok = s.ok := by
  rcases hp.value with ⟨hdv, hb⟩ | ⟨text, ht⟩
  · exact ⟨_, .plain hds hp.name_delim hp.name_equals hdv hb h, rfl, rfl⟩
  · have hc := closing_bracesOf text r
    rw [← ht] at hc
    -- The cut is at the first delimiter of the value, or at its end.
    obtain ⟨cut, rest, heq, hdv, hb, hend⟩ : ∃ cut rest,
        p.2 ++ attributeDelimiter :: r = cut ++ attributeDelimiter :: rest ∧
        attributeDelimiter ∉ cut ∧ cut.head? = some openingBracket ∧
        (EndsAtBracket cut → cut = p.2 ∧ rest = r) := by
      rcases exists_split attributeDelimiter p.2 with hdv | ⟨cut, rest, heq, hdv⟩
      · exact ⟨p.2, r, rfl, hdv, by rw [ht]; rfl, fun _ ↦ ⟨rfl, rfl⟩⟩
      · obtain ⟨hb, hend⟩ := bracesOf_cut (ht ▸ heq)
        refine ⟨cut, rest ++ attributeDelimiter :: r, ?_, hdv, hb, fun h ↦ absurd h hend⟩
        rw [heq, List.append_assoc, List.cons_append]
    by_cases he : EndsAtBracket cut
    · obtain ⟨rfl, rfl⟩ := hend he
      exact ⟨_, .braced hds hp.name_delim hp.name_equals hdv hb he h, rfl, rfl⟩
    · rw [heq] at hc ⊢
      by_cases hmore : 1 < r.length
      · exact ⟨_, .closes hds hp.name_delim hp.name_equals hdv hb he hc hmore h, rfl, rfl⟩
      · obtain ⟨hcalls, hok⟩ := hshort (Nat.not_lt.1 hmore)
        exact ⟨_, .closesLast hds hp.name_delim hp.name_equals hdv hb he hc (Nat.not_lt.1 hmore),
          by rw [hcalls], hok.symm⟩

/-- A text in braces at the end of a string. -/
theorem Items.lastBraces {ds name text : List UInt8} (hds : ∀ b ∈ ds, b = attributeDelimiter)
    (hd : attributeDelimiter ∉ name) (he : equalsSign ∉ name) :
    ∃ braced, Items (ds ++ (name ++ equalsSign :: bracesOf text))
      ⟨[(name, bracesOf text)], braced, true⟩ := by
  rcases exists_split attributeDelimiter (bracesOf text) with hdv | ⟨cut, rest, heq, hdv⟩
  · exact ⟨_, .last hds hd he hdv⟩
  · have hc := closing_bracesOf_end text
    obtain ⟨hb, hend⟩ := bracesOf_cut heq
    rw [heq] at hc
    have hclose := Items.closesLast hds hd he hdv hb hend hc (Nat.zero_le 1)
    rw [← heq] at hclose
    exact ⟨_, hclose⟩

/-- The items of a well-formed string are its pairs. -/
theorem Joined.items {ps : List (List UInt8 × List UInt8)} {r : List UInt8} (h : Joined ps r) :
    ∃ braced, Items r ⟨ps, braced, true⟩ := by
  induction h with
  | nil hds => exact ⟨_, .done hds⟩
  | @last ds p hds hp =>
    rcases hp.value with ⟨hdv, -⟩ | ⟨text, ht⟩
    · exact ⟨_, .last hds hp.name_delim hp.name_equals hdv⟩
    · obtain ⟨braced, hlast⟩ : ∃ braced, Items (ds ++ (p.1 ++ equalsSign :: bracesOf text))
          ⟨[(p.1, bracesOf text)], braced, true⟩ :=
        Items.lastBraces hds hp.name_delim hp.name_equals
      rw [← ht] at hlast
      exact ⟨braced, hlast⟩
  | @cons ds p ps r hds hp hjoined ih =>
    obtain ⟨braced, ih⟩ := ih
    obtain ⟨⟨calls, braced', ok⟩, hitems, hcalls, hok⟩ :=
      Items.pair hds hp ih fun hr ↦ ⟨hjoined.eq_nil hr, rfl⟩
    subst hcalls hok
    exact ⟨braced', hitems⟩

/-! ## `dconn_get_attributes` -/

/-- The program takes the items of any string, without leaving it. -/
theorem dconnGetAttributes_eq {str : List UInt8} (h0 : 0 ∉ str) {s : Scan} (h : Items str s)
    {α : Type} (func : α → List UInt8 → List UInt8 → α) (ci : α) :
    dconnGetAttributes func str ci = some (s.ok, s.apply func ci) :=
  attributesLoop_items func (A := []) h h0 rfl (Nat.lt_succ_self _) (Or.inl rfl) ci

/-- On every string the program has a result.  It hands over the pairs of a well-formed one,
each once and in order.  A value in braces that is not closed although something follows it
is reported as an error exactly if no such value ends with a doubled bracket. -/
theorem dconnGetAttributes_spec {str : List UInt8} (h0 : 0 ∉ str) :
    (∀ ps, Joined ps str → ∀ {α : Type} (func : α → List UInt8 → List UInt8 → α) (ci : α),
      dconnGetAttributes func str ci =
        some (true, ps.foldl (fun ci p ↦ func ci p.1 p.2) ci)) ∧
    ∃ s, Items str s ∧
      (∀ {α : Type} (func : α → List UInt8 → List UInt8 → α) (ci : α),
        dconnGetAttributes func str ci = some (s.ok, s.apply func ci)) ∧
      ((∀ t ∈ s.braced, (∃ doubled, closing false t = .unclosed doubled) → s.ok = false) ↔
        ∀ t ∈ s.braced, closing false t ≠ .unclosed true) := by
  refine ⟨fun ps hps α func ci ↦ ?_, ?_⟩
  · obtain ⟨braced, hi⟩ := hps.items
    exact dconnGetAttributes_eq h0 hi func ci
  · obtain ⟨s, hs⟩ := exists_items str
    refine ⟨s, hs, fun func ci ↦ dconnGetAttributes_eq h0 hs func ci, ?_⟩
    constructor
    · intro h t ht hu
      have hok := hs.ok_of_braced ht hu
      rw [h t ht ⟨true, hu⟩] at hok
      cases hok
    · rintro h t ht ⟨doubled, hu⟩
      cases doubled with
      | false => exact hs.ok_of_braced ht hu
      | true => exact absurd hu (h t ht)

/-- The connection string `A={a}};b};;B=1`: the value of `A` is `a};b` in braces. -/
theorem dconnGetAttributes_spec_braces :
    dconnGetAttributes (fun ci attr value ↦ ci ++ [(attr, value)])
        [0x41, 0x3d, 0x7b, 0x61, 0x7d, 0x7d, 0x3b, 0x62, 0x7d, 0x3b, 0x3b, 0x42, 0x3d, 0x31] [] =
      some (true, [([0x41], [0x7b, 0x61, 0x7d, 0x7d, 0x3b, 0x62, 0x7d]), ([0x42], [0x31])]) := by
  have hplain : PairOk ([0x42], [0x31]) :=
    ⟨by decide, by decide, by decide, Or.inl ⟨by decide, by decide⟩⟩
  have hbraced : PairOk ([0x41], bracesOf [0x61, 0x7d, 0x3b, 0x62]) :=
    ⟨by decide, by decide, by decide, Or.inr ⟨_, rfl⟩⟩
  have hjoined := @Joined.cons [] _ _ _ (List.forall_mem_nil _) hbraced
    (@Joined.last [attributeDelimiter] _ (List.forall_mem_singleton.2 rfl) hplain)
  exact (dconnGetAttributes_spec (by decide)).1 _ hjoined _ _

/-- In `A={x;B=1}}` the bracket of `A` is never closed, and an item follows it.  There is no
error: the value goes on up to the end of the string, and its items are taken again. -/
theorem dconnGetAttributes_unclosed :
    closing false [0x7b, 0x78, 0x3b, 0x42, 0x3d, 0x31, 0x7d, 0x7d] = .unclosed true ∧
    dconnGetAttributes (fun ci attr value ↦ ci ++ [(attr, value)])
        [0x41, 0x3d, 0x7b, 0x78, 0x3b, 0x42, 0x3d, 0x31, 0x7d, 0x7d] [] =
      some (true, [([0x41], [0x7b, 0x78, 0x3b, 0x42, 0x3d, 0x31, 0x7d, 0x7d]),
        ([0x42], [0x31, 0x7d, 0x7d])]) := by
  decide

end PsqlOdbc
