import PsqlOdbc.DrvconnItems

/-!
# Pairs written without quoting

Attributes and values joined by equals signs and delimiters, whatever the values are.  The string
splits into the pairs it was made of if and only if each value can stand where it is
(`items_joinPairs_iff`).
-/

namespace PsqlOdbc

open Lib

/-- The pairs, with a delimiter between two of them. -/
def joinPairs : List (List UInt8 × List UInt8) → List UInt8
  | [] => []
  | [p] => p.1 ++ equalsSign :: p.2
  | p :: q :: ps => p.1 ++ equalsSign :: (p.2 ++ attributeDelimiter :: joinPairs (q :: ps))

/-- The name of an attribute. -/
structure AttrName (name : List UInt8) : Prop where
  ne_nil : name ≠ []
  delim : attributeDelimiter ∉ name
  equals : equalsSign ∉ name

/-- A value that a delimiter may follow: a plain one, or a text in braces. -/
def InnerValue (value : List UInt8) : Prop :=
  attributeDelimiter ∉ value ∧ value.head? ≠ some openingBracket ∨ ∃ text, value = bracesOf text

/-- A value that may end the string: one without delimiters, a text in braces, or one that is not
closed but ends with a doubled bracket, if no equals sign is behind its first delimiter. -/
def LastValue (value : List UInt8) : Prop :=
  attributeDelimiter ∉ value ∨ (∃ text, value = bracesOf text) ∨
    ∃ cut rest, value = cut ++ attributeDelimiter :: rest ∧ attributeDelimiter ∉ cut ∧
      cut.head? = some openingBracket ∧ closing false value = .unclosed true ∧ equalsSign ∉ rest

section

variable {n x v r ds name y pair rest : List UInt8}

/-- No delimiters stand in front of a name. -/
theorem eq_nil_of_delims {w : List UInt8} (hn : AttrName n)
    (hds : ∀ b ∈ ds, b = attributeDelimiter) (h : n ++ equalsSign :: x = ds ++ w) : ds = [] := by
  cases ds with
  | nil => rfl
  | cons d ds =>
    cases n with
    | nil => exact absurd rfl hn.ne_nil
    | cons b n =>
      have hb : b = attributeDelimiter := (List.cons.inj h).1.trans (hds d List.mem_cons_self)
      exact absurd (hb ▸ List.mem_cons_self) hn.delim

/-- Where the first item begins and where its name ends. -/
theorem item_unique (hn : AttrName n) (hds : ∀ b ∈ ds, b = attributeDelimiter)
    (hd : attributeDelimiter ∉ name) (he : equalsSign ∉ name)
    (h : n ++ equalsSign :: x = ds ++ (name ++ equalsSign :: y)) : ds = [] ∧ name = n ∧ y = x := by
  obtain rfl := eq_nil_of_delims hn hds h
  obtain ⟨rfl, rfl⟩ := split_unique hn.equals he h
  exact ⟨rfl, rfl, rfl⟩

/-- A string that begins with a name and an equals sign does not begin with an item without one. -/
theorem item_ne_skip (hn : AttrName n) (hds : ∀ b ∈ ds, b = attributeDelimiter)
    (hne : pair ≠ []) (hd : attributeDelimiter ∉ pair) (he : equalsSign ∉ pair)
    (hrest : ∀ b ∈ rest.head?, b = attributeDelimiter) :
    n ++ equalsSign :: x ≠ ds ++ (pair ++ rest) := by
  intro h
  obtain rfl := eq_nil_of_delims hn hds h
  rw [List.nil_append] at h
  rcases List.append_eq_append_iff.1 h with ⟨u, rfl, hu⟩ | ⟨u, rfl, hu⟩
  · -- the name ends inside the item
    cases u with
    | nil =>
      rw [List.nil_append] at hu
      have hhead := hrest equalsSign (by rw [← hu]; rfl)
      exact absurd hhead (by decide)
    | cons b u =>
      have hb : equalsSign = b := (List.cons.inj hu).1
      exact he (List.mem_append_right _ (hb ▸ List.mem_cons_self))
  · -- the item ends inside the name
    cases u with
    | nil =>
      have hhead := hrest equalsSign (by rw [List.nil_append] at hu; rw [hu]; rfl)
      exact absurd hhead (by decide)
    | cons b u =>
      have hb := hrest b (by rw [hu]; rfl)
      exact hn.delim (List.mem_append_right _ (hb ▸ List.mem_cons_self))

/-- A value that is closed is a text with its brackets doubled, and a bracket. -/
theorem closes_eq {doubled : Bool} {t value rest : List UInt8}
    (h : closing doubled t = .closes value rest) :
    ∃ text, value = doubleBrackets text ++ [closingBracket] := by
  induction doubled, t using closing.induct generalizing value with
  | case1 doubled => cases h
  | case2 _ =>
    cases h
    exact ⟨[], rfl⟩
  | case3 _ b hb =>
    rw [closing, if_neg hb] at h
    cases h
  | case4 _ bs ih =>
    rw [closing_doubled] at h
    cases hc : closing true bs with
    | closes v r =>
      rw [hc] at h
      cases h
      obtain ⟨text, rfl⟩ := ih hc
      exact ⟨closingBracket :: text, by rw [doubleBrackets_cons, if_pos rfl]; rfl⟩
    | junk => rw [hc] at h; cases h
    | unclosed d => rw [hc] at h; cases h
  | case5 _ bs hne =>
    cases h
    exact ⟨[], rfl⟩
  | case6 _ c bs hcb hcd =>
    rw [closing_junk hcb hcd] at h
    cases h
  | case7 _ b c bs hb ih =>
    rw [closing, if_neg hb] at h
    cases hc : closing false (c :: bs) with
    | closes v r =>
      rw [hc] at h
      cases h
      obtain ⟨text, rfl⟩ := ih hc
      exact ⟨b :: text, by rw [doubleBrackets_cons, if_neg hb]; rfl⟩
    | junk => rw [hc] at h; cases h
    | unclosed d => rw [hc] at h; cases h

/-- A value that begins with a bracket and is closed is a text in braces. -/
theorem exists_bracesOf {text value : List UInt8} (hb : value.head? = some openingBracket)
    (h : value = doubleBrackets text ++ [closingBracket]) : ∃ text, value = bracesOf text := by
  cases text with
  | nil =>
    subst h
    exact absurd hb (by decide)
  | cons b text =>
    rw [doubleBrackets_cons] at h
    by_cases hclosing : b = closingBracket
    · rw [if_pos hclosing] at h
      rw [h, hclosing] at hb
      exact absurd hb (show some closingBracket ≠ some openingBracket by decide)
    · rw [if_neg hclosing] at h
      rw [h] at hb
      obtain rfl : b = openingBracket := Option.some.inj hb
      exact ⟨text, h⟩

/-- A text without closing brackets stands in braces as it is. -/
theorem doubleBrackets_of_notMem {text : List UInt8} (h : closingBracket ∉ text) :
    doubleBrackets text = text := by
  induction text with
  | nil => rfl
  | cons b text ih =>
    obtain ⟨hb, htext⟩ := not_or.1 (mt List.mem_cons.2 h)
    rw [doubleBrackets_cons, if_neg (Ne.symm hb), ih htext]
    rfl

theorem exists_bracesOf_of_endsAtBracket {value : List UInt8}
    (hb : value.head? = some openingBracket) (h : EndsAtBracket value) :
    ∃ text, value = bracesOf text := by
  obtain ⟨u, hvalue, hu⟩ := h
  exact exists_bracesOf hb (by rw [doubleBrackets_of_notMem hu]; exact hvalue)

/-- A value in braces is closed at its end. -/
theorem head_of_closes {cut w value rest' : List UInt8} (hb : cut.head? = some openingBracket)
    (h : closing false (cut ++ w) = .closes value rest') :
    value.head? = some openingBracket := by
  cases cut with
  | nil => cases hb
  | cons b cut =>
    obtain rfl : b = openingBracket := Option.some.inj hb
    have hvalue : value ≠ [] := by
      obtain ⟨text, rfl⟩ := closes_eq h
      simp
    cases value with
    | nil => exact absurd rfl hvalue
    | cons c value =>
      rcases closing_closes h with heq | ⟨heq, -⟩
      · rw [List.head?_cons, ← (List.cons.inj heq).1]
      · rw [List.head?_cons, ← (List.cons.inj heq).1]

/-- The first pair of a string with others behind it: its value can stand there, and the others
are those of the rest. -/
theorem Items.tail {s : Scan} {cs : List (List UInt8 × List UInt8)} (hn : AttrName n)
    (h : Items (n ++ equalsSign :: (v ++ attributeDelimiter :: r)) s)
    (hcalls : s.calls = (n, v) :: cs) (hr : 1 < r.length) :
    InnerValue v ∧ ∃ s', Items r s' ∧ s'.calls = cs ∧ s'.ok = s.ok := by
  generalize hstr : n ++ equalsSign :: (v ++ attributeDelimiter :: r) = str at h
  cases h with
  | done hds => cases hcalls
  | skipLast hds hne hd he => cases hcalls
  | skip hds hne hd he hrest => exact absurd hstr (item_ne_skip hn hds hne hd he (by simp))
  | last hds hd he hdv =>
    obtain ⟨-, -, rfl⟩ := item_unique hn hds hd he hstr
    exact absurd (List.mem_append_right _ List.mem_cons_self) hdv
  | @plain ds name value rest s hds hd he hdv hb hrest =>
    obtain ⟨-, -, heq⟩ := item_unique hn hds hd he hstr
    cases hcalls
    have hrr : rest = r := (List.cons.inj (List.append_cancel_left heq)).2
    exact ⟨.inl ⟨hdv, hb⟩, s, hrr ▸ hrest, rfl, rfl⟩
  | @braced ds name value rest s hds hd he hdv hb hend hrest =>
    obtain ⟨-, -, heq⟩ := item_unique hn hds hd he hstr
    cases hcalls
    have hrr : rest = r := (List.cons.inj (List.append_cancel_left heq)).2
    exact ⟨.inr (exists_bracesOf_of_endsAtBracket hb hend), s, hrr ▸ hrest, rfl, rfl⟩
  | @closes ds name cut rest value rest' s hds hd he hdv hb hend hc hmore hrest =>
    obtain ⟨-, -, heq⟩ := item_unique hn hds hd he hstr
    cases hcalls
    obtain ⟨text, htext⟩ := closes_eq hc
    have hrr : rest' = r := by
      rcases closing_closes hc with hsplit | ⟨-, hnil⟩
      · rw [heq] at hsplit
        exact (List.cons.inj (List.append_cancel_left hsplit)).2.symm
      · rw [hnil] at hmore
        exact absurd hmore (by simp)
    exact ⟨.inr (exists_bracesOf (head_of_closes hb hc) htext), s, hrr ▸ hrest, rfl, rfl⟩
  | @closesLast ds name cut rest value rest' hds hd he hdv hb hend hc hmore =>
    obtain ⟨-, -, heq⟩ := item_unique hn hds hd he hstr
    cases hcalls
    exfalso
    rcases closing_closes hc with hsplit | ⟨hsplit, -⟩
    · rw [heq] at hsplit
      have hrr := (List.cons.inj (List.append_cancel_left hsplit)).2
      rw [← hrr] at hmore
      omega
    · rw [heq] at hsplit
      simp at hsplit
  | error hds hd he hdv hb hend hc => cases hcalls
  | past hds hd he hdv hb hend hc hrest =>
    obtain ⟨-, -, heq⟩ := item_unique hn hds hd he hstr
    cases hcalls
    exact absurd (congrArg List.length heq) (by simp)

/-- Only a string without equals signs is read without an attribute and without an error. -/
theorem Items.equals_notMem {s : Scan} (h : Items r s) (hcalls : s.calls = []) (hok : s.ok = true) :
    equalsSign ∉ r := by
  induction h with
  | done hds =>
    intro hmem
    exact absurd (hds _ hmem) (by decide)
  | skipLast hds hne hd he =>
    intro hmem
    rcases List.mem_append.1 hmem with hmem | hmem
    · exact absurd (hds _ hmem) (by decide)
    · exact he hmem
  | skip hds hne hd he hrest ih =>
    intro hmem
    rcases List.mem_append.1 hmem with hmem | hmem
    · exact absurd (hds _ hmem) (by decide)
    · rcases List.mem_append.1 hmem with hmem | hmem
      · exact he hmem
      · rcases List.mem_cons.1 hmem with hmem | hmem
        · exact absurd hmem (by decide)
        · exact ih hcalls hok hmem
  | last | plain | braced | closes | closesLast | past => cases hcalls
  | error => cases hok

theorem exists_items_of_equals_notMem (h : equalsSign ∉ r) :
    ∃ s, Items r s ∧ s.calls = [] ∧ s.ok = true := by
  obtain ⟨s, hs⟩ := exists_items r
  refine ⟨s, hs, ?_⟩
  induction hs with
  | done | skipLast => exact ⟨rfl, rfl⟩
  | skip hds hne hd he hrest ih => exact ih fun hmem ↦ h (by simp [hmem])
  | last | plain | braced | closes | closesLast | error | past =>
    exact absurd (by simp) h

/-- A pair at the end of the string. -/
theorem items_last_iff (hn : AttrName n) :
    (∃ s, Items (n ++ equalsSign :: v) s ∧ s.calls = [(n, v)] ∧ s.ok = true) ↔ LastValue v := by
  constructor
  · rintro ⟨s, h, hcalls, hok⟩
    generalize hstr : n ++ equalsSign :: v = str at h
    cases h with
    | done hds => cases hcalls
    | skipLast hds hne hd he => cases hcalls
    | skip hds hne hd he hrest => exact absurd hstr (item_ne_skip hn hds hne hd he (by simp))
    | last hds hd he hdv =>
      cases hcalls
      exact .inl hdv
    | plain hds hd he hdv hb hrest =>
      obtain ⟨-, rfl⟩ := Prod.mk.inj (List.cons.inj hcalls).1
      exact .inl hdv
    | braced hds hd he hdv hb hend hrest =>
      obtain ⟨-, rfl⟩ := Prod.mk.inj (List.cons.inj hcalls).1
      exact .inl hdv
    | closes hds hd he hdv hb hend hc hmore hrest =>
      obtain ⟨-, rfl⟩ := Prod.mk.inj (List.cons.inj hcalls).1
      obtain ⟨text, htext⟩ := closes_eq hc
      exact .inr (.inl (exists_bracesOf (head_of_closes hb hc) htext))
    | closesLast hds hd he hdv hb hend hc hmore =>
      cases hcalls
      obtain ⟨text, htext⟩ := closes_eq hc
      exact .inr (.inl (exists_bracesOf (head_of_closes hb hc) htext))
    | error hds hd he hdv hb hend hc => cases hcalls
    | @past ds name cut rest s hds hd he hdv hb hend hc hrest =>
      obtain ⟨hname, hnil⟩ := List.cons.inj hcalls
      obtain ⟨rfl, rfl⟩ := Prod.mk.inj hname
      exact .inr (.inr ⟨cut, rest, rfl, hdv, hb, hc, hrest.equals_notMem hnil hok⟩)
  · rintro (hdv | ⟨text, rfl⟩ | ⟨cut, rest, rfl, hdv, hb, hc, he⟩)
    · have hlast : Items ([] ++ (n ++ equalsSign :: v)) ⟨[(n, v)], [], true⟩ :=
        .last (List.forall_mem_nil _) hn.delim hn.equals hdv
      exact ⟨_, hlast, rfl, rfl⟩
    · obtain ⟨braced, hlast⟩ : ∃ braced, Items ([] ++ (n ++ equalsSign :: bracesOf text))
          ⟨[(n, bracesOf text)], braced, true⟩ :=
        Items.lastBraces (List.forall_mem_nil _) hn.delim hn.equals
      exact ⟨_, hlast, rfl, rfl⟩
    · obtain ⟨s, hrest, hcalls, hok⟩ := exists_items_of_equals_notMem he
      have hend : ¬EndsAtBracket cut := by
        intro hend
        rw [closing_of_endsAtBracket hend] at hc
        cases hc
      have hpast := Items.past (List.forall_mem_nil _) hn.delim hn.equals hdv hb hend hc hrest
      exact ⟨_, hpast, by rw [Scan.brace, Scan.call, hcalls], hok⟩

end

/-- What a string of pairs must be like to be split into them. -/
def PairsStand : List (List UInt8 × List UInt8) → Prop
  | [] => True
  | [p] => LastValue p.2
  | p :: q :: ps => InnerValue p.2 ∧ PairsStand (q :: ps)

theorem one_lt_length_joinPairs {p : List UInt8 × List UInt8}
    (ps : List (List UInt8 × List UInt8)) (hp : AttrName p.1) :
    1 < (joinPairs (p :: ps)).length := by
  have hpos := List.length_pos_iff.2 hp.ne_nil
  cases ps with
  | nil =>
    simp only [joinPairs, List.length_append, List.length_cons]
    omega
  | cons q ps =>
    simp only [joinPairs, List.length_append, List.length_cons]
    omega

/-- A string of pairs is split into them if and only if each value can stand where it is. -/
theorem items_joinPairs_iff {ps : List (List UInt8 × List UInt8)}
    (hps : ∀ p ∈ ps, AttrName p.1) :
    (∃ s, Items (joinPairs ps) s ∧ s.calls = ps ∧ s.ok = true) ↔ PairsStand ps := by
  induction ps with
  | nil => exact iff_of_true ⟨_, .done (List.forall_mem_nil _), rfl, rfl⟩ trivial
  | cons p ps ih =>
    have hp := hps p List.mem_cons_self
    cases ps with
    | nil => exact items_last_iff hp
    | cons q ps =>
      have hlength := one_lt_length_joinPairs ps (hps q (by simp))
      rw [PairsStand, ← ih fun p' hp' ↦ hps p' (List.mem_cons_of_mem _ hp')]
      constructor
      · rintro ⟨s, h, hcalls, hok⟩
        obtain ⟨hvalue, s', hs', hcalls', hok'⟩ := Items.tail hp h hcalls hlength
        exact ⟨hvalue, s', hs', hcalls', hok'.trans hok⟩
      · rintro ⟨hvalue, s, h, hcalls, hok⟩
        obtain ⟨s', h', hcalls', hok'⟩ := Items.pair (List.forall_mem_nil _)
          ⟨hp.ne_nil, hp.delim, hp.equals, hvalue⟩ h fun hshort ↦ absurd hlength (by omega)
        exact ⟨s', h', hcalls'.trans (by rw [hcalls]), hok'.trans hok⟩

/-- `dconn_get_attributes` hands over the pairs of such a string, each once and in order. -/
theorem dconnGetAttributes_joinPairs_iff {ps : List (List UInt8 × List UInt8)}
    (hps : ∀ p ∈ ps, AttrName p.1) (h0 : 0 ∉ joinPairs ps) :
    dconnGetAttributes (fun calls attr value ↦ calls ++ [(attr, value)]) (joinPairs ps) [] =
      some (true, ps) ↔ PairsStand ps := by
  have hcollect : ∀ (calls acc : List (List UInt8 × List UInt8)),
      calls.foldl (fun acc p ↦ acc ++ [(p.1, p.2)]) acc = acc ++ calls := by
    intro calls
    induction calls with
    | nil => exact fun acc ↦ (List.append_nil acc).symm
    | cons p calls ih =>
      intro acc
      rw [List.foldl_cons, ih, List.append_assoc]
      rfl
  have heq : ∀ {s : Scan}, Items (joinPairs ps) s →
      dconnGetAttributes (fun calls attr value ↦ calls ++ [(attr, value)]) (joinPairs ps) [] =
        some (s.ok, s.calls) := fun h ↦ by
    rw [dconnGetAttributes_eq h0 h, Scan.apply, hcollect, List.nil_append]
  rw [← items_joinPairs_iff hps]
  constructor
  · intro hsplit
    obtain ⟨s, hs⟩ := exists_items (joinPairs ps)
    rw [heq hs, Option.some.injEq, Prod.mk.injEq] at hsplit
    exact ⟨s, hs, hsplit.2, hsplit.1⟩
  · rintro ⟨s, hs, hcalls, hok⟩
    rw [heq hs, hcalls, hok]

end PsqlOdbc
