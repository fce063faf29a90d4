import PsqlOdbc.Convert.Escape

/-!
# Names of tables (`misc.c`, `convert.c`)

`quoteTable` writes the name of a table for a statement of the driver's own, and
`eatTableIdentifiers` takes the names out of a statement of the application.  Both double the
quotes of a name, but only the reader walks over the text with the client encoding.  What has been
written is read back as the two names, `eatTableIdentifiers_quoteTable`, if all of it was written
and the walk sees its quotes; the result is where the next token is.
-/

namespace PsqlOdbc

/-- `pgNAME`. -/
abbrev PgName := Option (List UInt8)

abbrev dot : UInt8 := 0x2e

/-! ## Writing -/

/-- The loops of `quote_table`, from the offset `i` in the buffer on. -/
def copyName (limit : Nat) : Nat → List UInt8 → List UInt8
  | _, [] => []
  | i, ptr :: name =>
    if i < limit then
      if ptr = identifierQuote then ptr :: identifierQuote :: copyName limit (i + 2) name
      else ptr :: copyName limit (i + 1) name
    else []

/-- `quote_table`: the text in the buffer, if it has room for it. -/
def quoteTable (schema table : PgName) (bufSize : Nat) : Option (List UInt8) :=
  let qualifier :=
    match schema with
    | some schema =>
      identifierQuote :: copyName (bufSize - 6) 1 schema ++ [identifierQuote, dot]
    | none => []
  let text := qualifier ++
    identifierQuote :: copyName (bufSize - 3) (qualifier.length + 1) (table.getD []) ++
      [identifierQuote]
  if text.length < bufSize then some text else none

/-! ## Reading -/

/-- The loop of `lower_or_remove_dquote`, from the byte at `i` on. -/
def lowerOrRemoveDquoteLoop (ccsc : CharSet) (idQuote : Bool) (srclen : Nat) :
    Nat → Nat → List UInt8 → List UInt8
  | _, _, [] => []
  | i, ccst, tchar :: src =>
    if srclen ≤ i then []
    else
      let ccst := pgCSStat ccst tchar ccsc
      if mbcsNonAscii ccst tchar then
        tchar :: lowerOrRemoveDquoteLoop ccsc idQuote srclen (i + 1) ccst src
      else if !idQuote then
        toLower tchar :: lowerOrRemoveDquoteLoop ccsc idQuote srclen (i + 1) ccst src
      else if tchar ≠ identifierQuote then
        tchar :: lowerOrRemoveDquoteLoop ccsc idQuote srclen (i + 1) ccst src
      else if i = 0 ∨ i = srclen - 1 then
        lowerOrRemoveDquoteLoop ccsc idQuote srclen (i + 1) ccst src
      else
        match src with
        | [] => []
        | next :: rest =>
          next :: lowerOrRemoveDquoteLoop ccsc idQuote srclen (i + 2) (pgCSStat ccst next ccsc) rest

/-- `lower_or_remove_dquote`. -/
def lowerOrRemoveDquote (ccsc : CharSet) (src : List UInt8) (srclen : Nat) : List UInt8 :=
  lowerOrRemoveDquoteLoop ccsc (src.headD 0 = identifierQuote) srclen 0 0 src

/-- The result of `eatTableIdentifiers` and the names behind its pointers. -/
structure EatenNames where
  /-- Nothing where a null pointer is subtracted from. -/
  result : Option Int
  table : PgName
  schema : PgName
  deriving DecidableEq, Repr

/-- Whether the identifier at `tstr` is not the last one. -/
def isQualifier (tstr : List UInt8) (len : Int) (nextToken : Option Nat) : Bool :=
  nextToken.any fun next ↦ tstr.getD next 0 = dot && next = len

/-- `next_token - str`, where `tstr` is at an offset in `str`. -/
def tokenOffset (offset : Nat) (nextToken : Option Nat) : Option Int :=
  nextToken.map fun next ↦ (offset + next : Nat)

/-- `eatTableIdentifiers`, for a caller that wants both names. -/
def eatTableIdentifiers (ccsc : CharSet) (str : List UInt8) (table schema : PgName) : EatenNames :=
  let tstr := str.dropWhile isSpace
  let offset := str.length - tstr.length
  match findIdentifier ccsc tstr with
  | (len, nextToken) =>
    if len ≤ 0 then ⟨some len, table, schema⟩
    else
      let table :=
        if tstr.headD 0 = identifierQuote then lowerOrRemoveDquote ccsc tstr len.toNat
        else tstr.take len.toNat
      if isQualifier tstr len nextToken = false then ⟨tokenOffset offset nextToken, table, schema⟩
      else
        let tstr := tstr.drop (len.toNat + 1)
        let offset := offset + (len.toNat + 1)
        match findIdentifier ccsc tstr with
        | (len, nextToken) =>
          if len ≤ 0 then ⟨some (-1), table, schema⟩
          else
            let schema := table
            let table := lowerOrRemoveDquote ccsc tstr len.toNat
            if isQualifier tstr len nextToken = false then
              ⟨tokenOffset offset nextToken, table, schema⟩
            else
              let tstr := tstr.drop (len.toNat + 1)
              let offset := offset + (len.toNat + 1)
              match findIdentifier ccsc tstr with
              | (len, nextToken) =>
                if len ≤ 0 then ⟨some (-1), table, schema⟩
                else
                  let schema := table
                  let table := lowerOrRemoveDquote ccsc tstr len.toNat
                  ⟨tokenOffset offset nextToken, table, schema⟩

/-! ## Quoted names -/

/-- A name with its quotes doubled. -/
def escapeQuotes : List UInt8 → List UInt8
  | [] => []
  | c :: name =>
    if c = identifierQuote then c :: identifierQuote :: escapeQuotes name
    else c :: escapeQuotes name

/-- The buffer has room, from the offset `i` up to the limit, for each byte of a name when its turn
comes. -/
def HasRoom (limit i : Nat) (name : List UInt8) : Prop :=
  ∀ pre c post, name = pre ++ c :: post → i + (escapeQuotes pre).length < limit

/-- The walk sees the quotes of a name and the one that ends it. -/
def QuotesSeen (ccsc : CharSet) : Nat → List UInt8 → Prop
  | ccst, [] => pgCSStat ccst identifierQuote ccsc = 0
  | ccst, c :: name =>
    (c = identifierQuote → pgCSStat ccst c ccsc = 0) ∧ QuotesSeen ccsc (pgCSStat ccst c ccsc) name

/-- The names that were quoted are read back, and as much text as was written. -/
def ReadBack (ccsc : CharSet) (schema table text rest : List UInt8) : Prop :=
  ∀ oldTable oldSchema, eatTableIdentifiers ccsc (text ++ rest) oldTable oldSchema =
    ⟨some text.length, some table, some schema⟩

/-! ## What the walk sees -/

theorem le_of_isSpace {c : UInt8} (h : isSpace c = true) : c ≤ 0x20 := by
  rw [isSpace, Bool.or_eq_true, decide_eq_true_eq, Bool.and_eq_true, decide_eq_true_eq,
    decide_eq_true_eq] at h
  rcases h with rfl | h
  · exact UInt8.le_refl _
  · exact UInt8.le_trans h.2 (by decide)

theorem pgCSStat_quote_zero (ccsc : CharSet) : pgCSStat 0 identifierQuote ccsc = 0 :=
  pgCSStat_ascii (settled_zero ccsc) (by decide)

/-- A quote that is seen is no part of a character. -/
theorem quote_seen {ccsc : CharSet} {ccst : Nat} (h : pgCSStat ccst identifierQuote ccsc = 0) :
    mbcsNonAscii (pgCSStat ccst identifierQuote ccsc) identifierQuote = false :=
  mbcsNonAscii_eq_false.2 ⟨h, by decide⟩

theorem WalkAll.quotesSeen {ccsc : CharSet} {name : List UInt8} {st k : Nat}
    (ha : WalkAll ccsc (WalkAgreesAt ccsc) st k (name ++ [identifierQuote]))
    (hw : WholeChars ccsc k (name ++ [identifierQuote])) : QuotesSeen ccsc st name := by
  induction name generalizing st k with
  | nil =>
    have hseen := not_mbcsNonAscii_of_agrees ha.1 hw (by decide)
    exact (mbcsNonAscii_eq_false.1 hseen).1
  | cons c name ih =>
    refine ⟨?_, ih ha.2 hw.2⟩
    rintro rfl
    have hseen := not_mbcsNonAscii_of_agrees ha.1 hw (by decide)
    exact (mbcsNonAscii_eq_false.1 hseen).1

theorem ValidText.concat_ascii {ccsc : CharSet} {bs : List UInt8} {c : UInt8}
    (hv : ValidText ccsc bs) (hc : c < 0x80) : ValidText ccsc (bs ++ [c]) := by
  induction hv with
  | nil => exact ValidText.cons (c := [c]) (.ascii hc) .nil
  | cons hb _ ih =>
    rw [List.append_assoc]
    exact .cons hb ih

/-- The walk sees the quotes of a valid name in every encoding but JOHAB. -/
theorem ValidText.quotesSeen {ccsc : CharSet} {name : List UInt8} (hv : ValidText ccsc name)
    (hj : ccsc ≠ .johab) : QuotesSeen ccsc 0 name := by
  have hquoted : ValidText ccsc (name ++ [identifierQuote]) := hv.concat_ascii (by decide)
  exact (hquoted.walkAgrees hj (settled_zero ccsc)).quotesSeen hquoted.wholeChars

/-! ## What has been written -/

theorem HasRoom.head {limit i : Nat} {c : UInt8} {name : List UInt8}
    (h : HasRoom limit i (c :: name)) : i < limit := h [] c name rfl

theorem HasRoom.tail {limit i : Nat} {c : UInt8} {name : List UInt8}
    (h : HasRoom limit i (c :: name)) : HasRoom limit (i + (escapeQuotes [c]).length) name := by
  rintro pre d post rfl
  have hlt := h (c :: pre) d post rfl
  by_cases hc : c = identifierQuote <;> simp only [escapeQuotes, hc, if_true, if_false,
    List.length_cons, List.length_nil] at hlt ⊢ <;> omega

theorem copyName_of_hasRoom {limit i : Nat} {name : List UInt8} (h : HasRoom limit i name) :
    copyName limit i name = escapeQuotes name := by
  induction name generalizing i with
  | nil => rfl
  | cons c name ih =>
    have htail := ih h.tail
    rw [copyName, if_pos h.head, escapeQuotes]
    by_cases hc : c = identifierQuote
    · rw [if_pos hc, if_pos hc]
      rw [escapeQuotes, if_pos hc] at htail
      exact congrArg (fun l ↦ c :: identifierQuote :: l) htail
    · rw [if_neg hc, if_neg hc]
      rw [escapeQuotes, if_neg hc] at htail
      exact congrArg (c :: ·) htail

theorem escapeQuotes_append (name name' : List UInt8) :
    escapeQuotes (name ++ name') = escapeQuotes name ++ escapeQuotes name' := by
  induction name with
  | nil => rfl
  | cons c name ih =>
    rw [List.cons_append, escapeQuotes, escapeQuotes, ih]
    split <;> rfl

/-- There is room for a name if there is room for all of its text. -/
theorem hasRoom_of_le {limit i : Nat} {name : List UInt8}
    (h : i + (escapeQuotes name).length ≤ limit) : HasRoom limit i name := by
  rintro pre c post rfl
  have hlast : 0 < (escapeQuotes (c :: post)).length := by
    rw [escapeQuotes]
    split <;> exact Nat.succ_pos _
  rw [escapeQuotes_append, List.length_append] at h
  omega

/-- An identifier in quotes. -/
def quoted (name : List UInt8) : List UInt8 :=
  identifierQuote :: (escapeQuotes name ++ [identifierQuote])

theorem length_quoted (name : List UInt8) :
    (quoted name).length = (escapeQuotes name).length + 2 := by
  simp [quoted]

/-- The text for two names that there is room for. -/
theorem quoteTable_eq {schema table text : List UInt8} {bufSize : Nat}
    (hschema : HasRoom (bufSize - 6) 1 schema)
    (htable : HasRoom (bufSize - 3) ((escapeQuotes schema).length + 4) table)
    (h : quoteTable schema table bufSize = some text) :
    text = quoted schema ++ dot :: quoted table := by
  simp only [quoteTable, Option.ite_none_right_eq_some, Option.some.injEq] at h
  rw [← h.2, copyName_of_hasRoom hschema]
  have hlen : (identifierQuote :: escapeQuotes schema ++ [identifierQuote, dot]).length + 1 =
      (escapeQuotes schema).length + 4 := by
    simp
  rw [hlen, Option.getD_some, copyName_of_hasRoom htable]
  simp [quoted]

/-! ## What is read -/

/-- The loop goes over a name up to the quote behind it. -/
theorem identifierLoop_quoted {ccsc : CharSet} {after : List UInt8}
    (hafter : after.head? ≠ some identifierQuote) {name : List UInt8} {ccst pos : Nat}
    (hseen : QuotesSeen ccsc ccst name) :
    identifierLoop ccsc true ccst pos (escapeQuotes name ++ identifierQuote :: after) =
      (((pos + (escapeQuotes name).length + 1 : Nat) : Int), after) := by
  induction name generalizing ccst pos with
  | nil =>
    rw [escapeQuotes, List.nil_append, identifierLoop.eq_def]
    dsimp only
    rw [if_neg (by simp [quote_seen hseen]), if_pos rfl, if_pos rfl]
    cases after with
    | nil => rfl
    | cons d after =>
      have hd : d ≠ identifierQuote := fun h ↦ hafter (congrArg some h)
      exact if_neg hd
  | cons c name ih =>
    rw [escapeQuotes]
    by_cases hc : c = identifierQuote
    · subst hc
      have h0 := hseen.1 rfl
      have hstate : pgCSStat (pgCSStat ccst identifierQuote ccsc) identifierQuote ccsc =
          pgCSStat ccst identifierQuote ccsc := by
        rw [h0, pgCSStat_quote_zero]
      rw [if_pos rfl, List.cons_append, List.cons_append, identifierLoop.eq_def]
      dsimp only
      rw [if_neg (by simp [quote_seen h0]), if_pos rfl, if_pos rfl, if_pos rfl, hstate,
        ih hseen.2]
      simp only [List.length_cons]
      congr 2
      omega
    · have hnext : identifierLoop ccsc true ccst pos
          (c :: (escapeQuotes name ++ identifierQuote :: after)) =
          identifierLoop ccsc true (pgCSStat ccst c ccsc) (pos + 1)
            (escapeQuotes name ++ identifierQuote :: after) := by
        rw [identifierLoop.eq_def]
        simp only [hc, if_true, if_false, ite_self]
      rw [if_neg hc, List.cons_append, hnext, ih hseen.2]
      simp only [List.length_cons]
      congr 2
      omega

/-- The quotes are taken away again. -/
theorem lowerOrRemoveDquoteLoop_quoted {ccsc : CharSet} {after name : List UInt8}
    {srclen i ccst : Nat} (hi : 0 < i) (hlen : srclen = i + (escapeQuotes name).length + 1)
    (hseen : QuotesSeen ccsc ccst name) :
    lowerOrRemoveDquoteLoop ccsc true srclen i ccst
      (escapeQuotes name ++ identifierQuote :: after) = name := by
  induction name generalizing i ccst with
  | nil =>
    have hlast : i = srclen - 1 := by
      rw [hlen]
      rfl
    have hlt : ¬srclen ≤ i := by omega
    rw [escapeQuotes, List.nil_append, lowerOrRemoveDquoteLoop, if_neg hlt,
      if_neg (by simp [quote_seen hseen]), if_neg (by decide), if_neg (by simp),
      if_pos (Or.inr hlast)]
    -- The loop ends behind the quote.
    cases after with
    | nil => rfl
    | cons d after => rw [lowerOrRemoveDquoteLoop, if_pos (by omega)]
  | cons c name ih =>
    rw [escapeQuotes] at hlen ⊢
    by_cases hc : c = identifierQuote
    · subst hc
      have h0 := hseen.1 rfl
      have hstate : pgCSStat (pgCSStat ccst identifierQuote ccsc) identifierQuote ccsc =
          pgCSStat ccst identifierQuote ccsc := by
        rw [h0, pgCSStat_quote_zero]
      rw [if_pos rfl, List.length_cons, List.length_cons] at hlen
      rw [if_pos rfl, List.cons_append, List.cons_append, lowerOrRemoveDquoteLoop,
        if_neg (by omega), if_neg (by simp [quote_seen h0]), if_neg (by decide), if_neg (by simp),
        if_neg (by omega)]
      dsimp only
      rw [hstate, ih (by omega) (by omega) hseen.2]
    · have hnext : lowerOrRemoveDquoteLoop ccsc true srclen i ccst
          (c :: (escapeQuotes name ++ identifierQuote :: after)) =
          c :: lowerOrRemoveDquoteLoop ccsc true srclen (i + 1) (pgCSStat ccst c ccsc)
            (escapeQuotes name ++ identifierQuote :: after) := by
        rw [if_neg hc, List.length_cons] at hlen
        rw [lowerOrRemoveDquoteLoop, if_neg (by omega)]
        simp only [hc, ne_eq, not_false_eq_true, Bool.not_true, Bool.false_eq_true, if_true, if_false,
          ite_self]
      rw [if_neg hc, List.length_cons] at hlen
      rw [if_neg hc, List.cons_append, hnext, ih (by omega) (by omega) hseen.2]

theorem findIdentifier_quoted {ccsc : CharSet} {name after : List UInt8}
    (hseen : QuotesSeen ccsc 0 name) (hafter : after.head? ≠ some identifierQuote) :
    findIdentifier ccsc (quoted name ++ after) =
      (((quoted name).length : Int),
        if after.dropWhile isSpace = [] then none
        else some ((quoted name).length + after.length - (after.dropWhile isSpace).length)) := by
  have hloop := @identifierLoop_quoted ccsc after hafter name 0 1 hseen
  have htext : quoted name ++ after =
      identifierQuote :: (escapeQuotes name ++ identifierQuote :: after) := by
    simp [quoted]
  have hlen : (identifierQuote :: (escapeQuotes name ++ identifierQuote :: after)).length =
      (quoted name).length + after.length := by
    rw [← htext, List.length_append]
  rw [htext, findIdentifier, hlen, pgCSStat_quote_zero]
  dsimp only
  rw [if_neg (by decide), if_pos rfl, hloop]
  have hname : 1 + (escapeQuotes name).length + 1 = (quoted name).length := by
    rw [length_quoted]
    omega
  rw [hname]

theorem lowerOrRemoveDquote_quoted {ccsc : CharSet} {name after : List UInt8}
    (hseen : QuotesSeen ccsc 0 name) :
    lowerOrRemoveDquote ccsc (quoted name ++ after) (quoted name).length = name := by
  have htext : quoted name ++ after =
      identifierQuote :: (escapeQuotes name ++ identifierQuote :: after) := by
    simp [quoted]
  have hloop := @lowerOrRemoveDquoteLoop_quoted ccsc after name (quoted name).length 1 0
    Nat.one_pos (by rw [length_quoted]; omega) hseen
  rw [htext, lowerOrRemoveDquote, List.headD_cons, decide_eq_true rfl, lowerOrRemoveDquoteLoop,
    pgCSStat_quote_zero, if_neg (by rw [length_quoted]; omega), if_neg (by decide),
    if_neg (by decide), if_neg (by simp), if_pos (Or.inl rfl), Nat.zero_add, hloop]

/-! ## Both names -/

/-- A name that is followed by a dot is a qualifier. -/
theorem isQualifier_dot (name after : List UInt8) :
    isQualifier (quoted name ++ dot :: after) (quoted name).length (some (quoted name).length) =
      true := by
  simp [isQualifier, List.getD_eq_getElem?_getD]

theorem isQualifier_last {name after : List UInt8} (hdot : after.head? ≠ some dot) :
    isQualifier (quoted name ++ after) (quoted name).length
      (if after.dropWhile isSpace = [] then none
        else some ((quoted name).length + after.length - (after.dropWhile isSpace).length)) =
      false := by
  by_cases hend : after.dropWhile isSpace = []
  · rw [if_pos hend]
    rfl
  · have hle : (after.dropWhile isSpace).length ≤ after.length :=
      (List.dropWhile_suffix isSpace).length_le
    rw [if_neg hend, isQualifier, Option.any_some, Bool.and_eq_false_iff]
    by_cases hnext : (after.dropWhile isSpace).length = after.length
    · left
      rw [hnext, Nat.add_sub_cancel, List.getD_eq_getElem?_getD, List.getElem?_append_right le_rfl,
        Nat.sub_self, ← List.head?_eq_getElem?]
      cases after with
      | nil => rfl
      | cons d after => exact decide_eq_false fun h ↦ hdot (congrArg some h)
    · right
      exact decide_eq_false (by omega)

/-- What `eatTableIdentifiers` takes out of two names in quotes. -/
theorem eatTableIdentifiers_quoted {ccsc : CharSet} {schema table rest : List UInt8}
    (hschema : QuotesSeen ccsc 0 schema) (htable : QuotesSeen ccsc 0 table)
    (hquote : rest.head? ≠ some identifierQuote) (hdot : rest.head? ≠ some dot)
    (oldTable oldSchema : PgName) :
    eatTableIdentifiers ccsc (quoted schema ++ dot :: (quoted table ++ rest)) oldTable oldSchema =
      ⟨tokenOffset ((quoted schema).length + 1)
        (if rest.dropWhile isSpace = [] then none
          else some ((quoted table).length + rest.length - (rest.dropWhile isSpace).length)),
        table, schema⟩ := by
  have hstart : (quoted schema ++ dot :: (quoted table ++ rest)).dropWhile isSpace =
      quoted schema ++ dot :: (quoted table ++ rest) := rfl
  have hfirst : findIdentifier ccsc (quoted schema ++ dot :: (quoted table ++ rest)) =
      (((quoted schema).length : Int), some (quoted schema).length) := by
    have hafter : (dot :: (quoted table ++ rest)).head? ≠ some identifierQuote := by
      rintro ⟨⟩
    rw [findIdentifier_quoted hschema hafter]
    have hdrop : (dot :: (quoted table ++ rest)).dropWhile isSpace =
        dot :: (quoted table ++ rest) := rfl
    rw [hdrop, if_neg (List.cons_ne_nil _ _), Nat.add_sub_cancel]
  have hsecond := findIdentifier_quoted htable hquote
  have hpos : ∀ name, ¬((quoted name).length : Int) ≤ 0 := fun name ↦ by
    rw [length_quoted]
    omega
  have hhead : (quoted schema ++ dot :: (quoted table ++ rest)).headD 0 = identifierQuote := rfl
  have hbehind : (quoted schema ++ dot :: (quoted table ++ rest)).drop
      ((quoted schema).length + 1) = quoted table ++ rest := by
    rw [List.drop_length_add_append]
    rfl
  unfold eatTableIdentifiers
  dsimp only
  rw [hstart, hfirst]
  dsimp only
  rw [if_neg (hpos schema), isQualifier_dot, if_neg (by decide), if_pos hhead, Int.toNat_natCast,
    lowerOrRemoveDquote_quoted hschema, hbehind, hsecond]
  dsimp only
  rw [if_neg (hpos table), isQualifier_last hdot, if_pos rfl, Int.toNat_natCast,
    lowerOrRemoveDquote_quoted htable, Nat.sub_self, Nat.zero_add]

/-- The names that `quote_table` writes whole are read back, whatever follows them but a quote or a
dot; and the result is where the next token is, which is behind the text if no blank follows. -/
theorem eatTableIdentifiers_quoteTable {ccsc : CharSet} {schema table text rest : List UInt8}
    {bufSize : Nat} (hschema : ValidText ccsc schema) (htable : ValidText ccsc table)
    (hjohab : ccsc = .johab → QuotesSeen ccsc 0 schema ∧ QuotesSeen ccsc 0 table)
    (hschemaRoom : HasRoom (bufSize - 6) 1 schema)
    (htableRoom : HasRoom (bufSize - 3) ((escapeQuotes schema).length + 4) table)
    (htext : quoteTable schema table bufSize = some text)
    (hquote : rest.head? ≠ some identifierQuote) (hdot : rest.head? ≠ some dot)
    (oldTable oldSchema : PgName) :
    (eatTableIdentifiers ccsc (text ++ rest) oldTable oldSchema).table = some table ∧
    (eatTableIdentifiers ccsc (text ++ rest) oldTable oldSchema).schema = some schema ∧
    ∀ blanks c more, rest = blanks ++ c :: more → (∀ b ∈ blanks, isSpace b = true) →
      isSpace c = false →
      (eatTableIdentifiers ccsc (text ++ rest) oldTable oldSchema).result =
        some ((text.length + blanks.length : Nat) : Int) := by
  have hseen : QuotesSeen ccsc 0 schema ∧ QuotesSeen ccsc 0 table := by
    by_cases hj : ccsc = .johab
    · exact hjohab hj
    · exact ⟨hschema.quotesSeen hj, htable.quotesSeen hj⟩
  have hlen := congrArg List.length (quoteTable_eq hschemaRoom htableRoom htext)
  rw [quoteTable_eq hschemaRoom htableRoom htext, List.append_assoc, List.cons_append,
    eatTableIdentifiers_quoted hseen.1 hseen.2 hquote hdot]
  refine ⟨rfl, rfl, ?_⟩
  rintro blanks c more rfl hblanks hc
  have hdrop : (blanks ++ c :: more).dropWhile isSpace = c :: more := by
    rw [List.dropWhile_append_of_pos hblanks, List.dropWhile_cons_of_neg (by simp [hc])]
  rw [hdrop, if_neg (List.cons_ne_nil _ _), ← quoteTable_eq hschemaRoom htableRoom htext, hlen]
  simp only [tokenOffset, Option.map_some, List.length_append, List.length_cons]
  congr 2
  omega

theorem eatTableIdentifiers_quoteTable_sjis :
    (eatTableIdentifiers .sjis ([0x22, 0x83, 0x5c, 0x22, 0x22, 0x2e, 0x22, 0x2e, 0x22, 0x74, 0x22] ++
        [0x28]) none none).table = some [0x74] ∧
    (eatTableIdentifiers .sjis ([0x22, 0x83, 0x5c, 0x22, 0x22, 0x2e, 0x22, 0x2e, 0x22, 0x74, 0x22] ++
        [0x28]) none none).schema = some [0x83, 0x5c, 0x22, 0x2e] ∧
    ∀ blanks c more, [0x28] = blanks ++ c :: more → (∀ b ∈ blanks, isSpace b = true) →
      isSpace c = false →
      (eatTableIdentifiers .sjis
        ([0x22, 0x83, 0x5c, 0x22, 0x22, 0x2e, 0x22, 0x2e, 0x22, 0x74, 0x22] ++ [0x28])
        none none).result = some ((11 + blanks.length : Nat) : Int) := by
  have hschema : ValidText .sjis [0x83, 0x5c, 0x22, 0x2e] :=
    .cons (c := [0x83, 0x5c]) (.sjis (.inl rfl) (.inl (by decide)) (by decide) (by decide))
      (.cons (c := [0x22]) (.ascii (by decide)) (.cons (c := [0x2e]) (.ascii (by decide)) .nil))
  have htable : ValidText .sjis [0x74] := .cons (c := [0x74]) (.ascii (by decide)) .nil
  have htext : quoteTable (some [0x83, 0x5c, 0x22, 0x2e]) (some [0x74]) 256 =
      some [0x22, 0x83, 0x5c, 0x22, 0x22, 0x2e, 0x22, 0x2e, 0x22, 0x74, 0x22] := by decide
  exact eatTableIdentifiers_quoteTable hschema htable (fun h ↦ nomatch h)
    (hasRoom_of_le (by decide)) (hasRoom_of_le (by decide)) htext (by decide) (by decide) none none

/-- The names or the length are lost where a blank or a dot follows, where the buffer is too short
and where a character of JOHAB hides a quote. -/
theorem not_readBack :
    ¬ReadBack .utf8 [0x73] [0x74] [0x22, 0x73, 0x22, 0x2e, 0x22, 0x74, 0x22] [0x20, 0x28] ∧
    ¬ReadBack .utf8 [0x73] [0x74] [0x22, 0x73, 0x22, 0x2e, 0x22, 0x74, 0x22] [0x2e, 0x78] ∧
    quoteTable (some [0x73]) (some [0x74]) 8 = some [0x22, 0x73, 0x22, 0x2e, 0x22, 0x22] ∧
    ¬ReadBack .utf8 [0x73] [0x74] [0x22, 0x73, 0x22, 0x2e, 0x22, 0x22] [0x28] ∧
    ValidText .johab [0x84, 0xa1] ∧
    quoteTable (some [0x84, 0xa1]) (some [0x74]) 256 =
      some [0x22, 0x84, 0xa1, 0x22, 0x2e, 0x22, 0x74, 0x22] ∧
    ¬ReadBack .johab [0x84, 0xa1] [0x74] [0x22, 0x84, 0xa1, 0x22, 0x2e, 0x22, 0x74, 0x22]
      [0x28] := by
  have hread {ccsc schema table text rest}
      (h : eatTableIdentifiers ccsc (text ++ rest) none none ≠
        ⟨some text.length, some table, some schema⟩) : ¬ReadBack ccsc schema table text rest :=
    fun hback ↦ h (hback none none)
  refine ⟨hread (by decide), hread (by decide), by decide, hread (by decide), ?_, by decide,
    hread (by decide)⟩
  exact ValidText.cons (c := [0x84, 0xa1])
    (.johabHangul (by decide) (by decide) (.inr ⟨by decide, by decide⟩)) .nil

end PsqlOdbc
