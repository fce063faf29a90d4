import PsqlOdbc.Convert.Identifiers
import PsqlOdbc.Convert.LiteralSafety
import PsqlOdbc.Convert.QueryParse
import PsqlOdbc.Lib.Stores

/-!
# Names for catalog queries (`info.c`, `identifierEscape`)

A name is copied into the caller's buffer, or into memory of its own, with its quotes and escape
characters doubled and, if it is asked for, between double quotes.  `NameEscaped` says what the text
has to be; whether everything is stored inside of the buffer depends on how much room the last
character finds (`NameRoom`).
-/

namespace PsqlOdbc

open Lib Lib.CountingBuffer Server

/-! ## The driver -/

namespace EncodedStr

/-- The byte that `encoded_nextchar` has returned. -/
def tchar (e : EncodedStr) : UInt8 := e.byteAt e.pos

end EncodedStr

/-- `dest[outlen++]` for some bytes, where `outlen` is an `int`.  There is no result if one is
stored outside of `dest`. -/
def putInt (dest : List UInt8) (outlen : Nat) (bytes : List UInt8) : Option (List UInt8) :=
  if outlen + bytes.length < 2 ^ 31 then storeAll dest outlen bytes else none

section

variable (escapeCh : UInt8) (doubleQuote : Bool)

/-- What is written for the byte under the cursor. -/
def escapeChar (encstr : EncodedStr) : List UInt8 :=
  if encstr.nonAscii then [encstr.tchar]
  else if encstr.tchar = literalQuote ∨ encstr.tchar = escapeCh then [encstr.tchar, encstr.tchar]
  else if doubleQuote = true ∧ encstr.tchar = identifierQuote then [encstr.tchar, encstr.tchar]
  else [encstr.tchar]

/-- The loop, with the number of bytes that are left of the name. -/
def escapeLoop (bufsize : Nat) :
    Nat → EncodedStr → Nat → List UInt8 → Option (Nat × List UInt8)
  | 0, _, outlen, dest => some (outlen, dest)
  | left + 1, encstr, outlen, dest =>
    if outlen < bufsize - 1 then
      let bytes := escapeChar escapeCh doubleQuote encstr
      (putInt dest outlen bytes).bind fun dest ↦
        escapeLoop bufsize left encstr.nextchar (outlen + bytes.length) dest
    else some (outlen, dest)

end

/-- The quote around a name. -/
def nameQuote (doubleQuote : Bool) : List UInt8 := if doubleQuote then [identifierQuote] else []

/-- The memory for a name of `srclen` bytes: that of the caller, or new one. -/
def escapeDest (buf : Option (List UInt8)) (srclen : Nat) : List UInt8 :=
  match buf with
  | none => List.replicate (2 * srclen + 1) 0
  | some [] => List.replicate (2 * srclen + 1) 0
  | some (c :: cs) => c :: cs

/-- The length of a name that is given with `srclen`. -/
def srcLength (src : List UInt8) (srclen : Int) : Int :=
  if srclen = -3 then strlen src else srclen

/-- `identifierEscape`, with the memory from `src` on and that of the buffer: there is no result if
something is stored outside of the buffer, and `some none` for `NULL`. -/
def identifierEscape (src : Option (List UInt8)) (srclen : Int) (conn : ConnectionClass)
    (buf : Option (List UInt8)) (doubleQuote : Bool) : Option (Option (List UInt8)) :=
  match src with
  | none => some none
  | some src =>
    if srclen = -1 then some none
    else if srcLength src srclen ≤ 0 then some none
    else
      let dest := escapeDest buf (srcLength src srclen).toNat
      (putInt dest 0 (nameQuote doubleQuote)).bind fun dest' ↦
        (escapeLoop (ccGetEscape conn) doubleQuote dest.length (srcLength src srclen).toNat
            (EncodedStr.constr conn.ccsc src).nextchar (nameQuote doubleQuote).length dest').bind
          fun (outlen, dest') ↦
            (putInt dest' outlen (nameQuote doubleQuote)).bind fun dest' ↦
              (store dest' (outlen + (nameQuote doubleQuote).length) 0).map some

/-- `simpleCatalogEscape`. -/
def simpleCatalogEscape (src : Option (List UInt8)) (srclen : Int) (conn : ConnectionClass) :
    Option (Option (List UInt8)) :=
  identifierEscape src srclen conn none false

/-! ## What the text has to be -/

namespace Server

/-- The rest of a quoted identifier, from inside it: the name and the text after its closing
quote. -/
def lexIdentifierBody (ccsc : CharSet) : Nat → List UInt8 → Option (List UInt8 × List UInt8)
  | _, [] => none
  | owed + 1, b :: bs => emit b (lexIdentifierBody ccsc owed bs)
  | 0, [b] =>
    if b = identifierQuote then some ([], [])
    else none
  | 0, b :: c :: bs =>
    if b = identifierQuote then
      if c = identifierQuote then emit b (lexIdentifierBody ccsc 0 bs) else some ([], c :: bs)
    else emit b (lexIdentifierBody ccsc (mbLen ccsc (b :: c :: bs) - 1) (c :: bs))

/-- The quoted identifier at the head of a text. -/
def lexIdentifier (ccsc : CharSet) : List UInt8 → Option (List UInt8 × List UInt8)
  | [] => none
  | b :: bs => if b = identifierQuote then lexIdentifierBody ccsc 0 bs else none

end Server

/-- A name as the application gives it. -/
structure NameArg (ccsc : CharSet) where
  src : List UInt8
  srclen : Int
  /-- `SQL_NTS`, or a length inside of the memory. -/
  proper : srclen = -3 ∨ 0 ≤ srclen ∧ srclen ≤ src.length
  noNul : 0 ∉ src.take (srcLength src srclen).toNat
  valid : ValidText ccsc (src.take (srcLength src srclen).toNat)

/-- The bytes of the name. -/
def NameArg.name {ccsc : CharSet} (arg : NameArg ccsc) : List UInt8 :=
  arg.src.take (srcLength arg.src arg.srclen).toNat

section

variable (conn : ConnectionClass) (doubleQuote : Bool)

/-- A byte of a name, doubled if it has to be and the walk calls it ASCII. -/
def escapedByte (ccst : Nat) (b : UInt8) : List UInt8 :=
  if mbcsNonAscii ccst b then [b]
  else if b = literalQuote ∨ b = ccGetEscape conn then [b, b]
  else if doubleQuote = true ∧ b = identifierQuote then [b, b]
  else [b]

/-- A name with the characters doubled that the walk calls ASCII. -/
def escapedName : Nat → List UInt8 → List UInt8
  | _, [] => []
  | ccst, b :: bs =>
    escapedByte conn doubleQuote (pgCSStat ccst b conn.ccsc) b ++
      escapedName (pgCSStat ccst b conn.ccsc) bs

/-- The bytes that a name needs, without the terminator. -/
def nameNeed (name : List UInt8) : Nat :=
  (escapedName conn doubleQuote 0 name).length + 2 * (nameQuote doubleQuote).length

/-- The text between single quotes is one literal, and its value is the name or a quoted identifier
of the name. -/
def NameEscaped (name text : List UInt8) : Prop :=
  ∃ value, lexLiteral conn.ccsc (ccGetEscape conn = 0)
      ((if ccGetEscape conn ≠ 0 then [literalExt] else []) ++
        literalQuote :: (text ++ [literalQuote])) = some (value, []) ∧
    if doubleQuote then lexIdentifier conn.ccsc value = some (name, []) else value = name

/-- All is stored inside of the buffer and, if nothing is cut, the text is as it has to be. -/
def EscapesRight (arg : NameArg conn.ccsc) (buf : Option (List UInt8)) : Prop :=
  ∃ result, identifierEscape (some arg.src) arg.srclen conn buf doubleQuote = some result ∧
    match result with
    | none => arg.name = []
    | some dest => nameNeed conn doubleQuote arg.name < (escapeDest buf arg.name.length).length →
        NameEscaped conn doubleQuote arg.name (dest.takeWhile (· ≠ 0))

/-- The name fits with its quotes and the terminator, or it is cut, without quotes, where a
character of it ends at the last byte but one. -/
def NameRoom (name : List UInt8) (bufsize : Nat) : Prop :=
  name = [] ∨
    nameNeed conn doubleQuote name < min bufsize (2 ^ 31) ∨
    doubleQuote = false ∧ bufsize ≤ 2 ^ 31 ∧
      ∃ n, (escapedName conn doubleQuote 0 (name.take n)).length + 1 = bufsize

/-- The walk is right about the quotes and escape characters of a name. -/
def NameSafe (name : List UInt8) : Prop :=
  WalkAll conn.ccsc (fun ccst k bs ↦ QuoteSafe ccst bs ∧
    EscapeSafe conn.ccsc (ccGetEscape conn) ccst k bs ∧
    (doubleQuote = true → bs.headD 0 = identifierQuote →
      mbcsNonAscii ccst identifierQuote = false)) 0 0 name

end

/-! ## The loop -/

/-- The text can be stored, and counted by an `int`. -/
def Storable (mem text : List UInt8) : Prop := text.length < 2 ^ 31 ∧ text.length ≤ mem.length

instance (mem text : List UInt8) : Decidable (Storable mem text) :=
  inferInstanceAs (Decidable (_ ∧ _))

section

variable {conn : ConnectionClass} {doubleQuote : Bool} {mem done xs name src : List UInt8}
  {ccst i n limit outlen : Nat}

theorem putInt_overwrite (h : done.length ≤ mem.length) (xs : List UInt8) :
    putInt (overwrite mem done) done.length xs =
      if Storable mem (done ++ xs) then some (overwrite mem (done ++ xs)) else none := by
  rw [putInt, ← List.length_append]
  by_cases hint : (done ++ xs).length < 2 ^ 31
  · rw [if_pos hint]
    by_cases hroom : (done ++ xs).length ≤ mem.length
    · rw [storeAll_overwrite hroom, if_pos ⟨hint, hroom⟩]
    · rw [storeAll_overwrite_full (by omega) h, if_neg fun h ↦ hroom h.2]
  · rw [if_neg hint, if_neg fun h ↦ hint h.1]

/-- The cursor on a byte of the name. -/
theorem EncodedStr.walk_byte (ccsc : CharSet) (h0 : 0 ∉ src.take n) (hi : i < n)
    (hn : n ≤ src.length) :
    (EncodedStr.walk ccsc src (i + 1)).tchar = src.getD i 0 ∧
      (EncodedStr.walk ccsc src (i + 1)).nonAscii =
        mbcsNonAscii (walkState ccsc 0 (src.take (i + 1))) (src.getD i 0) := by
  have h0' : 0 ∉ src.take (i + 1) := fun h ↦ h0 (List.take_subset_take_left _ hi h)
  have hpos : (((i + 1 : Nat) : Int) - 1).toNat = i := by omega
  rw [EncodedStr.walk_take ccsc h0' (by omega), EncodedStr.tchar, EncodedStr.nonAscii,
    EncodedStr.byteAt, hpos]
  exact ⟨rfl, rfl⟩

theorem escapeChar_walk (conn : ConnectionClass) (doubleQuote : Bool) (h0 : 0 ∉ src.take n)
    (hi : i < n) (hn : n ≤ src.length) :
    escapeChar (ccGetEscape conn) doubleQuote (EncodedStr.walk conn.ccsc src (i + 1)) =
      escapedByte conn doubleQuote (walkState conn.ccsc 0 (src.take (i + 1))) (src.getD i 0) := by
  obtain ⟨htchar, hnon⟩ := EncodedStr.walk_byte conn.ccsc h0 hi hn
  rw [escapeChar, htchar, hnon, escapedByte]

variable (conn doubleQuote) in
/-- The bytes of a name that the loop takes, from `outlen` up to the limit. -/
def fitName (limit : Nat) : Nat → Nat → List UInt8 → List UInt8
  | _, _, [] => []
  | outlen, ccst, b :: bs =>
    if outlen < limit then
      b :: fitName limit
        (outlen + (escapedByte conn doubleQuote (pgCSStat ccst b conn.ccsc) b).length)
        (pgCSStat ccst b conn.ccsc) bs
    else []

theorem length_escapedByte (conn : ConnectionClass) (doubleQuote : Bool) (ccst : Nat) (b : UInt8) :
    1 ≤ (escapedByte conn doubleQuote ccst b).length ∧
      (escapedByte conn doubleQuote ccst b).length ≤ 2 := by
  rw [escapedByte]
  split_ifs <;> simp only [List.length_cons, List.length_nil] <;> omega

theorem escapedName_append (conn : ConnectionClass) (doubleQuote : Bool) (ccst : Nat)
    (xs ys : List UInt8) :
    escapedName conn doubleQuote ccst (xs ++ ys) = escapedName conn doubleQuote ccst xs ++
      escapedName conn doubleQuote (walkState conn.ccsc ccst xs) ys := by
  induction xs generalizing ccst with
  | nil => rfl
  | cons b xs ih =>
    rw [List.cons_append, escapedName, escapedName, ih, List.append_assoc, walkState_cons]

/-- The loop takes a beginning of the name; it stops at the end of the name or at the limit, and
not before. -/
theorem fitName_spec (limit outlen ccst : Nat) (name : List UInt8) :
    ∃ rest, name = fitName conn doubleQuote limit outlen ccst name ++ rest ∧
      (rest = [] ∨ limit ≤ outlen + (escapedName conn doubleQuote ccst
        (fitName conn doubleQuote limit outlen ccst name)).length) ∧
      ∀ pre c post, fitName conn doubleQuote limit outlen ccst name = pre ++ c :: post →
        outlen + (escapedName conn doubleQuote ccst pre).length < limit := by
  induction name generalizing outlen ccst with
  | nil => exact ⟨[], rfl, .inl rfl, fun pre c post h ↦ by cases pre <;> cases h⟩
  | cons b bs ih =>
    rw [fitName]
    by_cases hlt : outlen < limit
    · rw [if_pos hlt]
      obtain ⟨rest, hname, hstop, hbefore⟩ := ih (outlen +
        (escapedByte conn doubleQuote (pgCSStat ccst b conn.ccsc) b).length)
        (pgCSStat ccst b conn.ccsc)
      refine ⟨rest, congrArg (b :: ·) hname, hstop.imp_right fun h ↦ ?_, ?_⟩
      · rw [escapedName, List.length_append]
        omega
      · intro pre c post h
        cases pre with
        | nil => exact hlt
        | cons d pre =>
          obtain ⟨rfl, htail⟩ := List.cons.inj h
          have hlimit := hbefore pre c post htail
          rw [escapedName, List.length_append]
          omega
    · rw [if_neg hlt]
      exact ⟨b :: bs, rfl, .inr (by omega), fun pre c post h ↦ by cases pre <;> cases h⟩

/-- The loop, from the byte `i` on. -/
theorem escapeLoop_eq (h0 : 0 ∉ src.take n) (hn : n ≤ src.length) (bufsize : Nat) (left : Nat)
    (hleft : i + left = n) (hdone : Storable mem done) :
    escapeLoop (ccGetEscape conn) doubleQuote bufsize left
        (EncodedStr.walk conn.ccsc src (i + 1)) done.length (overwrite mem done) =
      let text := done ++ escapedName conn doubleQuote (walkState conn.ccsc 0 (src.take i))
        (fitName conn doubleQuote (bufsize - 1) done.length
          (walkState conn.ccsc 0 (src.take i)) ((src.take n).drop i))
      if Storable mem text then some (text.length, overwrite mem text) else none := by
  induction left generalizing i done with
  | zero =>
    rw [List.drop_eq_nil_of_le (by rw [List.length_take]; omega), escapeLoop, fitName, escapedName,
      List.append_nil]
    exact (if_pos hdone).symm
  | succ left ih =>
    have hi : i < n := by omega
    have hlt : i < src.length := by omega
    have hdrop : (src.take n).drop i = src.getD i 0 :: (src.take n).drop (i + 1) := by
      rw [List.drop_eq_getElem_cons (by rw [List.length_take]; omega), List.getElem_take,
        List.getD_eq_getElem _ _ hlt]
    have hstate : pgCSStat (walkState conn.ccsc 0 (src.take i)) (src.getD i 0) conn.ccsc =
        walkState conn.ccsc 0 (src.take (i + 1)) := by
      rw [List.take_succ_eq_append_getElem hlt, walkState_append, walkState_cons, walkState_nil,
        List.getD_eq_getElem _ _ hlt]
    have hnext : (EncodedStr.walk conn.ccsc src (i + 1)).nextchar =
        EncodedStr.walk conn.ccsc src (i + 1 + 1) := by
      rw [EncodedStr.walk, EncodedStr.walk, Function.iterate_succ_apply' _ (i + 1)]
    rw [hdrop, fitName, hstate, escapeLoop, escapeChar_walk conn doubleQuote h0 hi hn, hnext]
    by_cases hlimit : done.length < bufsize - 1
    · rw [if_pos hlimit, if_pos hlimit]
      dsimp only
      rw [putInt_overwrite hdone.2, escapedName, hstate]
      generalize hbytes : escapedByte conn doubleQuote
        (walkState conn.ccsc 0 (src.take (i + 1))) (src.getD i 0) = bytes
      rw [← List.append_assoc]
      by_cases hstep : Storable mem (done ++ bytes)
      · rw [if_pos hstep, Option.bind_some, ← List.length_append, ih (by omega) hstep]
      · rw [if_neg hstep, if_neg, Option.bind_none]
        rintro ⟨hint, hmem⟩
        rw [List.length_append] at hint hmem
        exact hstep ⟨by omega, by omega⟩
    · rw [if_neg hlimit, if_neg hlimit, escapedName, List.append_nil]
      exact (if_pos hdone).symm

/-- The text that `identifierEscape` makes of a name. -/
def nameText (conn : ConnectionClass) (doubleQuote : Bool) (bufsize : Nat) (name : List UInt8) :
    List UInt8 :=
  nameQuote doubleQuote ++ escapedName conn doubleQuote 0
    (fitName conn doubleQuote (bufsize - 1) (nameQuote doubleQuote).length 0 name) ++
    nameQuote doubleQuote

theorem length_nameQuote_le (doubleQuote : Bool) : (nameQuote doubleQuote).length ≤ 1 := by
  cases doubleQuote <;> decide

theorem escapeDest_pos (buf : Option (List UInt8)) (n : Nat) : 1 ≤ (escapeDest buf n).length := by
  rw [escapeDest.eq_def]
  split
  · rw [List.length_replicate]
    omega
  · rw [List.length_replicate]
    omega
  · rw [List.length_cons]
    omega

theorem NameArg.length_name {ccsc : CharSet} (arg : NameArg ccsc) :
    arg.name.length = (srcLength arg.src arg.srclen).toNat ∧
      (srcLength arg.src arg.srclen).toNat ≤ arg.src.length := by
  have hle : (srcLength arg.src arg.srclen).toNat ≤ arg.src.length := by
    rw [srcLength]
    split
    · rw [Int.toNat_natCast, strlen]
      exact (List.takeWhile_prefix _).length_le
    · have := arg.proper
      omega
  rw [NameArg.name, List.length_take]
  omega

/-- `identifierEscape` stores the text and a terminator, if there is room. -/
theorem identifierEscape_eq (arg : NameArg conn.ccsc) (hne : arg.name ≠ [])
    (buf : Option (List UInt8)) :
    identifierEscape (some arg.src) arg.srclen conn buf doubleQuote =
      let dest := escapeDest buf arg.name.length
      let text := nameText conn doubleQuote dest.length arg.name
      if text.length < 2 ^ 31 ∧ text.length < dest.length then
        some (some (overwrite dest (text ++ [0])))
      else none := by
  obtain ⟨hlength, hle⟩ := arg.length_name
  have hpos : 0 < arg.name.length := List.length_pos_iff.2 hne
  have hone := length_nameQuote_le doubleQuote
  have hdest := escapeDest_pos buf arg.name.length
  have hnull : arg.srclen ≠ -1 := by
    have := arg.proper
    omega
  rw [identifierEscape, if_neg hnull, if_neg (by omega), ← hlength]
  generalize escapeDest buf arg.name.length = dest at hdest
  dsimp only
  have hquote := @putInt_overwrite dest [] (Nat.zero_le _) (nameQuote doubleQuote)
  rw [overwrite_nil, List.length_nil, List.nil_append, if_pos ⟨by omega, by omega⟩] at hquote
  have hloop := @escapeLoop_eq conn doubleQuote _ _ _ 0 _ arg.noNul hle
    dest.length arg.name.length (by omega)
    (show Storable dest (nameQuote doubleQuote) from ⟨by omega, by omega⟩)
  rw [List.take_zero, walkState_nil, List.drop_zero] at hloop
  rw [hquote, Option.bind_some]
  refine (congrArg (Option.bind · _) hloop).trans ?_
  rw [nameText, show arg.src.take _ = arg.name from rfl]
  dsimp only
  generalize nameQuote doubleQuote ++ escapedName conn doubleQuote 0 _ = text
  by_cases htext : Storable dest text
  · rw [if_pos htext, Option.bind_some]
    dsimp only
    rw [putInt_overwrite htext.2]
    by_cases hend : Storable dest (text ++ nameQuote doubleQuote)
    · rw [if_pos hend, Option.bind_some, ← List.length_append]
      by_cases hroom : (text ++ nameQuote doubleQuote).length < dest.length
      · rw [store_overwrite hroom, if_pos ⟨hend.1, hroom⟩]
        rfl
      · rw [if_neg (fun h ↦ hroom h.2), store, length_overwrite hend.2, if_neg hroom]
        rfl
    · rw [if_neg hend, if_neg (fun h ↦ hend ⟨h.1, Nat.le_of_lt h.2⟩)]
      rfl
  · rw [if_neg htext, if_neg]
    · rfl
    · rintro ⟨hint, hmem⟩
      rw [List.length_append] at hint hmem
      exact htext ⟨by omega, by omega⟩

/-! ## How much room a name needs -/

theorem nameText_fits {bufsize : Nat} (h : nameNeed conn doubleQuote name < bufsize) :
    nameText conn doubleQuote bufsize name =
      nameQuote doubleQuote ++ escapedName conn doubleQuote 0 name ++ nameQuote doubleQuote := by
  obtain ⟨rest, hname, hstop, -⟩ := @fitName_spec conn doubleQuote (bufsize - 1) (nameQuote doubleQuote).length 0 name
  rw [nameText]
  rcases hstop with rfl | hstop
  · rw [List.append_nil] at hname
    rw [← hname]
  · -- Another byte of the name would need another byte in the buffer.
    cases rest with
    | nil =>
      rw [List.append_nil] at hname
      rw [← hname]
    | cons b bs =>
      have hlength := congrArg (fun name ↦ (escapedName conn doubleQuote 0 name).length) hname
      rw [escapedName_append, List.length_append, escapedName, List.length_append] at hlength
      have hone := (length_escapedByte conn doubleQuote (pgCSStat (walkState conn.ccsc 0
        (fitName conn doubleQuote (bufsize - 1) (nameQuote doubleQuote).length 0 name)) b
        conn.ccsc) b).1
      rw [nameNeed] at h
      omega

/-- The text and its terminator are stored inside of the buffer exactly if there is room. -/
theorem nameText_lt_iff (hne : name ≠ []) {bufsize : Nat} (hpos : 1 ≤ bufsize) :
    ((nameText conn doubleQuote bufsize name).length < 2 ^ 31 ∧
        (nameText conn doubleQuote bufsize name).length < bufsize) ↔
      NameRoom conn doubleQuote name bufsize := by
  have hfits : nameNeed conn doubleQuote name < bufsize →
      (nameText conn doubleQuote bufsize name).length = nameNeed conn doubleQuote name := by
    intro h
    rw [nameText_fits h, nameNeed, List.length_append, List.length_append]
    omega
  obtain ⟨rest, hname, hstop, hbefore⟩ := @fitName_spec conn doubleQuote (bufsize - 1) (nameQuote doubleQuote).length 0 name
  have hlength : (nameText conn doubleQuote bufsize name).length =
      (escapedName conn doubleQuote 0 (fitName conn doubleQuote (bufsize - 1)
        (nameQuote doubleQuote).length 0 name)).length + 2 * (nameQuote doubleQuote).length := by
    rw [nameText, List.length_append, List.length_append]
    omega
  generalize hpre : fitName conn doubleQuote (bufsize - 1) (nameQuote doubleQuote).length 0 name =
    taken at hname hstop hbefore hlength
  constructor
  · rintro ⟨hint, hmem⟩
    by_cases hneed : nameNeed conn doubleQuote name < bufsize
    · exact .inr (.inl (lt_min hneed (hfits hneed ▸ hint)))
    · rcases hstop with rfl | hstop
      · rw [List.append_nil] at hname
        rw [nameNeed, hname] at hneed
        omega
      · have hquote : doubleQuote = false := by
          cases doubleQuote
          · rfl
          · have hone : (nameQuote true).length = 1 := rfl
            omega
        have hzero : (nameQuote doubleQuote).length = 0 := by rw [hquote]; rfl
        refine .inr (.inr ⟨hquote, by omega, taken.length, ?_⟩)
        rw [hname, List.take_left]
        omega
  · rintro (h | h | ⟨hquote, hint, n, hn⟩)
    · exact absurd h hne
    · rw [hfits (by omega)]
      omega
    · -- The loop stops where the character ends, or before.
      have hzero : (nameQuote doubleQuote).length = 0 := by rw [hquote]; rfl
      have hle : (escapedName conn doubleQuote 0 taken).length ≤ bufsize - 1 := by
        by_cases htaken : taken.length ≤ n
        · have hsplit : name.take n = taken ++ rest.take (n - taken.length) := by
            rw [hname, List.take_append, List.take_of_length_le htaken]
          rw [hsplit, escapedName_append, List.length_append] at hn
          omega
        · have hsplit : taken = name.take n ++ taken.drop n := by
            rw [hname, List.take_append_of_le_length (by omega), List.take_append_drop]
          rw [List.drop_eq_getElem_cons (by omega)] at hsplit
          have := hbefore _ _ _ hsplit
          omega
      omega

/-! ## The literal -/

variable {k : Nat} {bs : List UInt8}

/-- A name with its double quotes doubled, where the walk calls them ASCII. -/
def dquotedName (ccsc : CharSet) : Nat → List UInt8 → List UInt8
  | _, [] => []
  | ccst, b :: bs =>
    if mbcsNonAscii (pgCSStat ccst b ccsc) b = false ∧ b = identifierQuote then
      b :: b :: dquotedName ccsc (pgCSStat ccst b ccsc) bs
    else b :: dquotedName ccsc (pgCSStat ccst b ccsc) bs

theorem escape_ne_quote (conn : ConnectionClass) : identifierQuote ≠ ccGetEscape conn := by
  rcases ccGetEscape_eq conn with h | h <;> rw [h] <;> decide

theorem dquote_not_special (conn : ConnectionClass) :
    ¬(identifierQuote = literalQuote ∨ identifierQuote = ccGetEscape conn) := by
  rintro (h | h)
  · exact absurd h (by decide)
  · exact escape_ne_quote conn h

/-- Both kinds of doubling, one after the other. -/
theorem escapedName_dquoted (conn : ConnectionClass) (ccst : Nat) (bs : List UInt8) :
    escapedName conn true ccst bs =
      escapedName conn false ccst (dquotedName conn.ccsc ccst bs) := by
  induction bs generalizing ccst with
  | nil => rfl
  | cons b bs ih =>
    rw [dquotedName, escapedName, ih]
    by_cases hquote : mbcsNonAscii (pgCSStat ccst b conn.ccsc) b = false ∧ b = identifierQuote
    · obtain ⟨hascii, rfl⟩ := hquote
      have hzero := (mbcsNonAscii_eq_false.1 hascii).1
      have hspecial := dquote_not_special conn
      rw [if_pos ⟨hascii, rfl⟩, escapedName, escapedName, hzero, pgCSStat_quote_zero]
      rw [hzero] at hascii
      simp only [escapedByte, hascii, if_neg hspecial, Bool.false_eq_true, if_false, and_self,
        if_true, false_and, List.cons_append, List.nil_append]
    · rw [if_neg hquote, escapedName]
      refine congrArg (· ++ _) ?_
      rw [escapedByte, escapedByte]
      by_cases hascii : mbcsNonAscii (pgCSStat ccst b conn.ccsc) b = true
      · rw [if_pos hascii, if_pos hascii]
      · have hother : b ≠ identifierQuote :=
          fun h ↦ hquote ⟨Bool.eq_false_iff.2 hascii, h⟩
        simp only [hother, and_false, if_false]

/-- Without double quotes it is the loop over the value of a parameter. -/
theorem escapedName_eq_walkChars (conn : ConnectionClass) (next : UInt8) (ccst : Nat)
    (bs : List UInt8) :
    escapedName conn false ccst bs =
      walkChars conn.ccsc false true (ccGetEscape conn) next ccst bs := by
  induction bs generalizing ccst with
  | nil => rfl
  | cons b bs ih =>
    rw [escapedName, walkChars, ih, escapedByte]
    by_cases hascii : mbcsNonAscii (pgCSStat ccst b conn.ccsc) b = true
    · simp only [hascii, if_true, List.cons_append, List.nil_append]
    · simp only [hascii, Bool.false_eq_true, if_false, Bool.false_and, Bool.true_and, false_and,
        Bool.or_eq_true, decide_eq_true_eq]
      split <;> rfl

theorem walkChars_self (ccsc : CharSet) (escape next : UInt8) (ccst : Nat) (bs : List UInt8) :
    walkChars ccsc false false escape next ccst bs = bs := by
  induction bs generalizing ccst with
  | nil => rfl
  | cons b bs ih =>
    rw [walkChars, ih]
    simp only [Bool.false_and, Bool.false_eq_true, if_false, ite_self]

/-- What stands behind a character does not change its length, if it starts in the same way. -/
theorem mbLen_congr {ccsc : CharSet} {b : UInt8} {bs cs : List UInt8}
    (h : bs.head? = cs.head? ∨ bs = [] ∧ cs.head? = some identifierQuote) :
    mbLen ccsc (b :: cs) = mbLen ccsc (b :: bs) := by
  by_cases hg : ccsc = .gb18030
  · subst hg
    rcases h with h | ⟨rfl, h⟩
    · cases bs with
      | nil =>
        cases cs with
        | nil => rfl
        | cons d cs => cases h
      | cons c bs =>
        cases cs with
        | nil => cases h
        | cons d cs =>
          cases h
          simp only [mbLen]
    · cases cs with
      | nil => cases h
      | cons d cs =>
        cases h
        have hq : ¬((0x30 : UInt8) ≤ identifierQuote ∧ identifierQuote ≤ 0x39) := by decide
        simp only [mbLen, if_neg hq]
  · exact mbLen_cons_congr hg b _ _

theorem head?_dquoted (ccsc : CharSet) (ccst : Nat) (bs : List UInt8) :
    bs.head? = (dquotedName ccsc ccst bs ++ [identifierQuote]).head? ∨
      bs = [] ∧ (dquotedName ccsc ccst bs ++ [identifierQuote]).head? = some identifierQuote := by
  cases bs with
  | nil => exact .inr ⟨rfl, rfl⟩
  | cons b bs =>
    rw [dquotedName]
    split <;> exact .inl rfl

/-- What `lexBody_walkChars` asks of a text. -/
def LiteralSafe (conn : ConnectionClass) (ccst k : Nat) (bs : List UInt8) : Prop :=
  WalkAll conn.ccsc (fun ccst k bs ↦ QuoteSafe ccst bs ∧
    EscapeSafe conn.ccsc (ccGetEscape conn) ccst k bs) ccst k bs

/-- The walk is right about a double quote. -/
def DquoteSafe (ccst : Nat) (bs : List UInt8) : Prop :=
  bs.headD 0 = identifierQuote → mbcsNonAscii ccst identifierQuote = false

/-- A double quote is a character of its own. -/
theorem WholeChars.owed_eq {ccsc : CharSet} (hw : WholeChars ccsc k (identifierQuote :: bs)) :
    k = 0 ∧ mbLen ccsc (identifierQuote :: bs) = 1 := by
  have hlen : mbLen ccsc (identifierQuote :: bs) = 1 := mbLen_ascii ccsc (by decide) bs
  refine ⟨?_, hlen⟩
  cases k with
  | zero => rfl
  | succ k => exact absurd (hw.1 (asciiAt_succ _ _ _)) (by decide)

theorem wholeChars_dquote {ccsc : CharSet} (hw : WholeChars ccsc 0 bs) :
    WholeChars ccsc 0 (identifierQuote :: bs) := by
  have hlen : mbLen ccsc (identifierQuote :: bs) = 1 := mbLen_ascii ccsc (by decide) bs
  refine ⟨fun h ↦ ?_, ?_⟩
  · rw [asciiAt, hlen] at h
    exact absurd h (by rw [List.headD_cons]; decide)
  · rw [owedAfter_zero, hlen]
    exact hw

theorem literalSafe_dquote {ccst : Nat}
    (h : LiteralSafe conn (pgCSStat ccst identifierQuote conn.ccsc) 0 bs) :
    LiteralSafe conn ccst 0 (identifierQuote :: bs) := by
  refine ⟨⟨fun h ↦ absurd h (by decide : identifierQuote ≠ literalQuote),
    fun _ h ↦ absurd h (escape_ne_quote conn)⟩, ?_⟩
  rw [owedAfter_zero, mbLen_ascii conn.ccsc (by decide)]
  exact h

/-- The doubled name and its closing quote are whole characters, and the walk is right about
them. -/
theorem dquotedName_safe {ccst : Nat} (hw : WholeChars conn.ccsc k bs)
    (hsafe : LiteralSafe conn ccst k bs) :
    WholeChars conn.ccsc k (dquotedName conn.ccsc ccst bs ++ [identifierQuote]) ∧
      LiteralSafe conn ccst k (dquotedName conn.ccsc ccst bs ++ [identifierQuote]) := by
  induction bs generalizing ccst k with
  | nil =>
    obtain rfl : k = 0 := hw
    exact ⟨wholeChars_dquote rfl, literalSafe_dquote trivial⟩
  | cons b bs ih =>
    obtain ⟨hwhole, hlit⟩ := ih hw.2 hsafe.2
    rw [dquotedName]
    by_cases hquote : mbcsNonAscii (pgCSStat ccst b conn.ccsc) b = false ∧ b = identifierQuote
    · obtain ⟨hascii, rfl⟩ := hquote
      obtain ⟨rfl, hlen⟩ := hw.owed_eq
      have hzero := (mbcsNonAscii_eq_false.1 hascii).1
      rw [owedAfter_zero, hlen] at hwhole hlit
      rw [if_pos ⟨hascii, rfl⟩]
      refine ⟨wholeChars_dquote (wholeChars_dquote hwhole), literalSafe_dquote ?_⟩
      rw [hzero] at hlit ⊢
      refine literalSafe_dquote ?_
      rw [pgCSStat_quote_zero]
      exact hlit
    · rw [if_neg hquote, List.cons_append]
      have hlen := @mbLen_congr conn.ccsc b _ _
        (head?_dquoted conn.ccsc (pgCSStat ccst b conn.ccsc) bs)
      generalize dquotedName conn.ccsc (pgCSStat ccst b conn.ccsc) bs ++ [identifierQuote] = text
        at hwhole hlit hlen
      have howed : owedAfter conn.ccsc k (b :: text) = owedAfter conn.ccsc k (b :: bs) := by
        rw [owedAfter, owedAfter, hlen]
      have hat : asciiAt conn.ccsc k (b :: text) = asciiAt conn.ccsc k (b :: bs) := by
        rw [asciiAt, asciiAt, hlen, List.headD_cons, List.headD_cons]
      refine ⟨⟨fun h ↦ hw.1 (hat ▸ h), howed ▸ hwhole⟩, ⟨hsafe.1.1, fun he hb ↦ ?_⟩, howed ▸ hlit⟩
      rw [hat]
      exact hsafe.1.2 he hb

/-- The doubled name reads as the name. -/
theorem lexIdentifierBody_dquoted {ccsc : CharSet} {ccst : Nat} (hw : WholeChars ccsc k bs)
    (hquote : WalkAll ccsc (fun ccst _ bs ↦ DquoteSafe ccst bs) ccst k bs) :
    lexIdentifierBody ccsc k (dquotedName ccsc ccst bs ++ [identifierQuote]) = some (bs, []) := by
  induction bs generalizing ccst k with
  | nil =>
    obtain rfl : k = 0 := hw
    rfl
  | cons b bs ih =>
    have hrest := ih hw.2 hquote.2
    rw [dquotedName]
    by_cases hb : b = identifierQuote
    · subst hb
      obtain ⟨rfl, hlen⟩ := hw.owed_eq
      have hascii := hquote.1 rfl
      rw [owedAfter_zero, hlen] at hrest
      rw [if_pos ⟨hascii, rfl⟩, List.cons_append, List.cons_append, lexIdentifierBody, if_pos rfl,
        if_pos rfl, hrest, emit_some]
    · rw [if_neg (fun h ↦ hb h.2), List.cons_append]
      have hlen := @mbLen_congr ccsc b _ _
        (head?_dquoted ccsc (pgCSStat ccst b ccsc) bs)
      have hne : dquotedName ccsc (pgCSStat ccst b ccsc) bs ++ [identifierQuote] ≠ [] :=
        List.append_ne_nil_of_right_ne_nil _ (List.cons_ne_nil _ _)
      generalize dquotedName ccsc (pgCSStat ccst b ccsc) bs ++ [identifierQuote] = text
        at hrest hlen hne
      cases k with
      | succ k =>
        rw [owedAfter_succ] at hrest
        rw [lexIdentifierBody, hrest, emit_some]
      | zero =>
        rw [owedAfter_zero] at hrest
        cases text with
        | nil => exact absurd rfl hne
        | cons c text => rw [lexIdentifierBody, if_neg hb, hlen, hrest, emit_some]

theorem mem_dquotedName {ccsc : CharSet} {c : UInt8} {ccst : Nat}
    (h : c ∈ dquotedName ccsc ccst bs) : c ∈ bs := by
  induction bs generalizing ccst with
  | nil => exact h
  | cons b bs ih =>
    rw [dquotedName] at h
    split at h
    · rcases List.mem_cons.1 h with rfl | h
      · exact List.mem_cons_self
      · rcases List.mem_cons.1 h with rfl | h
        · exact List.mem_cons_self
        · exact List.mem_cons_of_mem _ (ih h)
    · rcases List.mem_cons.1 h with rfl | h
      · exact List.mem_cons_self
      · exact List.mem_cons_of_mem _ (ih h)

theorem escapedByte_dquote (conn : ConnectionClass) (ccst : Nat) :
    escapedByte conn false ccst identifierQuote = [identifierQuote] := by
  have hsingle : ¬(false = true ∧ identifierQuote = identifierQuote) :=
    fun h ↦ Bool.false_ne_true h.1
  rw [escapedByte, if_neg (dquote_not_special conn), if_neg hsingle, ite_self]

theorem mem_escapedName {c : UInt8} {ccst : Nat} (h : c ∈ escapedName conn doubleQuote ccst bs) :
    c ∈ bs := by
  induction bs generalizing ccst with
  | nil => exact h
  | cons b bs ih =>
    rw [escapedName, List.mem_append] at h
    rcases h with h | h
    · have hb : c = b := by
        rw [escapedByte] at h
        split_ifs at h <;> simpa using h
      exact hb ▸ List.mem_cons_self
    · exact List.mem_cons_of_mem _ (ih h)

/-- The text that is given to the server, read back, with the prefix `E` where it may stand. -/
theorem lexLiteral_escaped {ext : List UInt8}
    (hext : ext = [] ∨ ext = [literalExt] ∧ ccGetEscape conn ≠ 0) (h0 : 0 ∉ bs)
    (hw : WholeChars conn.ccsc 0 bs) (hsafe : LiteralSafe conn 0 0 bs) :
    lexLiteral conn.ccsc (ccGetEscape conn = 0)
      (ext ++ literalQuote :: (escapedName conn false 0 bs ++ [literalQuote])) = some (bs, []) := by
  have hbody := @lexBody_walkChars conn.ccsc false _ 0 [] (ccGetEscape_eq conn)
    (by decide) 0 0 bs h0 hw hsafe
  rw [← escapedName_eq_walkChars, walkChars_self] at hbody
  rcases hext with rfl | ⟨rfl, hescape⟩
  · rw [List.nil_append]
    simpa only [lexLiteral, if_true, ne_eq, decide_not] using hbody
  · have hne : literalExt ≠ literalQuote := by decide
    rw [List.cons_append, List.nil_append]
    simpa only [lexLiteral, if_neg hne, true_or, and_self, if_true, hescape, ne_eq,
      not_false_eq_true, decide_true] using hbody

theorem nameExt_eq (conn : ConnectionClass) :
    (if ccGetEscape conn ≠ 0 then [literalExt] else []) = [] ∨
      (if ccGetEscape conn ≠ 0 then [literalExt] else []) = [literalExt] ∧
        ccGetEscape conn ≠ 0 := by
  by_cases h : ccGetEscape conn = 0
  · exact .inl (if_neg (not_not_intro h))
  · exact .inr ⟨if_pos h, h⟩

theorem NameSafe.literalSafe (h : NameSafe conn doubleQuote name) : LiteralSafe conn 0 0 name :=
  h.imp fun _ _ _ h ↦ ⟨h.1, h.2.1⟩

/-- A name that is not cut is escaped as it has to be, where the walk is right. -/
theorem nameEscaped_of_safe (h0 : 0 ∉ name) (hw : WholeChars conn.ccsc 0 name)
    (hsafe : NameSafe conn doubleQuote name) :
    NameEscaped conn doubleQuote name
      (nameQuote doubleQuote ++ escapedName conn doubleQuote 0 name ++ nameQuote doubleQuote) := by
  cases doubleQuote with
  | false =>
    refine ⟨name, ?_, rfl⟩
    rw [nameQuote, if_neg Bool.false_ne_true, List.nil_append, List.append_nil]
    exact lexLiteral_escaped (nameExt_eq conn) h0 hw hsafe.literalSafe
  | true =>
    obtain ⟨hwhole, hlit⟩ := dquotedName_safe hw hsafe.literalSafe
    have hquote : WalkAll conn.ccsc (fun ccst _ bs ↦ DquoteSafe ccst bs) 0 0 name :=
      hsafe.imp fun _ _ _ h ↦ h.2.2 rfl
    have hzero := pgCSStat_quote_zero conn.ccsc
    refine ⟨identifierQuote :: (dquotedName conn.ccsc 0 name ++ [identifierQuote]), ?_, ?_⟩
    · have htext : nameQuote true ++ escapedName conn true 0 name ++ nameQuote true =
          escapedName conn false 0
            (identifierQuote :: (dquotedName conn.ccsc 0 name ++ [identifierQuote])) := by
        rw [escapedName, hzero, escapedByte_dquote, escapedName_append, escapedName,
          escapedByte_dquote, ← escapedName_dquoted]
        rfl
      have hmem : 0 ∉ identifierQuote :: (dquotedName conn.ccsc 0 name ++ [identifierQuote]) := by
        intro h
        rcases List.mem_cons.1 h with h | h
        · exact absurd h (by decide)
        · rcases List.mem_append.1 h with h | h
          · exact h0 (mem_dquotedName h)
          · exact absurd (List.mem_singleton.1 h) (by decide)
      rw [htext]
      exact lexLiteral_escaped (nameExt_eq conn) hmem (wholeChars_dquote hwhole)
        (literalSafe_dquote (hzero.symm ▸ hlit))
    · rw [if_pos rfl, lexIdentifier, if_pos rfl, lexIdentifierBody_dquoted hw hquote]

/-! ## The main result -/

theorem takeWhile_stored {text dest : List UInt8} (h0 : 0 ∉ text) :
    (overwrite dest (text ++ [0])).takeWhile (· ≠ 0) = text := by
  rw [overwrite_eq_append, List.append_assoc, List.takeWhile_append_of_pos]
  · rw [List.singleton_append, List.takeWhile_cons_of_neg (by decide), List.append_nil]
  · intro c hc
    exact decide_eq_true fun h ↦ h0 (h ▸ hc)

theorem WalkAll.nameSafe {ccst k : Nat} (ha : WalkAll conn.ccsc (WalkAgreesAt conn.ccsc) ccst k bs)
    (hw : WholeChars conn.ccsc k bs) :
    WalkAll conn.ccsc (fun ccst k bs ↦ QuoteSafe ccst bs ∧
      EscapeSafe conn.ccsc (ccGetEscape conn) ccst k bs ∧
      (doubleQuote = true → bs.headD 0 = identifierQuote →
        mbcsNonAscii ccst identifierQuote = false)) ccst k bs := by
  induction bs generalizing ccst k with
  | nil => trivial
  | cons b bs ih =>
    refine ⟨⟨?_, fun _ hb ↦ hb ▸ ha.1, fun _ ↦ ?_⟩, ih ha.2 hw.2⟩
    · rintro rfl
      exact not_mbcsNonAscii_of_agrees ha.1 hw (by decide)
    · rintro rfl
      exact not_mbcsNonAscii_of_agrees ha.1 hw (by decide)

/-- Without room, a byte is stored outside of the buffer. -/
theorem nameRoom_of_escapesRight {arg : NameArg conn.ccsc} {buf : Option (List UInt8)}
    (h : EscapesRight conn doubleQuote arg buf) :
    NameRoom conn doubleQuote arg.name (escapeDest buf arg.name.length).length := by
  obtain ⟨result, hresult, -⟩ := h
  by_cases hne : arg.name = []
  · exact .inl hne
  · rw [identifierEscape_eq arg hne] at hresult
    by_contra hroom
    rw [← nameText_lt_iff hne (escapeDest_pos buf arg.name.length)] at hroom
    dsimp only at hresult
    rw [if_neg hroom] at hresult
    cases hresult

end

/-- A name is escaped as it has to be, and inside of the buffer, if there is room and the walk is
right about it, and only if there is room; in every encoding but JOHAB the walk is right. -/
theorem escapesRight_of_room (conn : ConnectionClass) (doubleQuote : Bool)
    (arg : NameArg conn.ccsc) (buf : Option (List UInt8)) :
    (NameRoom conn doubleQuote arg.name (escapeDest buf arg.name.length).length ∧
        NameSafe conn doubleQuote arg.name → EscapesRight conn doubleQuote arg buf) ∧
      (EscapesRight conn doubleQuote arg buf →
        NameRoom conn doubleQuote arg.name (escapeDest buf arg.name.length).length) ∧
      (conn.ccsc ≠ .johab → NameSafe conn doubleQuote arg.name) := by
  refine ⟨?_, ?_, fun hj ↦ ?_⟩
  · rintro ⟨hroom, hsafe⟩
    by_cases hne : arg.name = []
    · have hlength := arg.length_name.1
      have hproper := arg.proper
      rw [hne, List.length_nil] at hlength
      refine ⟨none, ?_, hne⟩
      rw [identifierEscape, if_neg (by omega), if_pos (by omega)]
    · have hlt := (nameText_lt_iff hne (escapeDest_pos buf arg.name.length)).2 hroom
      refine ⟨_, (identifierEscape_eq arg hne buf).trans (if_pos hlt), fun hneed ↦ ?_⟩
      rw [nameText_fits hneed, takeWhile_stored]
      · exact nameEscaped_of_safe arg.noNul arg.valid.wholeChars hsafe
      · have hquote : 0 ∉ nameQuote doubleQuote := by cases doubleQuote <;> decide
        simp only [List.mem_append, not_or]
        exact ⟨⟨hquote, fun h ↦ arg.noNul (mem_escapedName h)⟩, hquote⟩
  · exact nameRoom_of_escapesRight
  · exact (arg.valid.walkAgrees hj (settled_zero _)).nameSafe arg.valid.wholeChars

/-- An application's name of `n` letters. -/
def plainName (n : Nat) : NameArg .utf8 where
  src := List.replicate n 0x61
  srclen := -3
  proper := .inl rfl
  noNul h := absurd (List.eq_of_mem_replicate (List.mem_of_mem_take h)) (by decide)
  valid := by
    rw [List.take_replicate]
    generalize min _ n = k
    induction k with
    | zero => exact .nil
    | succ k ih => exact .cons (c := [0x61]) (.ascii (by decide)) ih

/-- With a buffer of 128 bytes, the terminator of a quoted name of 126 letters is stored behind
it. -/
theorem not_escapesRight :
    ¬∀ (conn : ConnectionClass) (doubleQuote : Bool) (arg : NameArg conn.ccsc)
      (buf : Option (List UInt8)), EscapesRight conn doubleQuote arg buf := by
  intro h
  have hroom := nameRoom_of_escapesRight
    (h ⟨some "on", 16, 0, .utf8, false⟩ true (plainName 126) (some (List.replicate 128 0)))
  have hname : (plainName 126).name = List.replicate 126 0x61 := by decide +kernel
  rw [hname] at hroom
  rcases hroom with hroom | hroom | ⟨hroom, -⟩
  · cases hroom
  · exact absurd hroom (by decide +kernel)
  · cases hroom

end PsqlOdbc
