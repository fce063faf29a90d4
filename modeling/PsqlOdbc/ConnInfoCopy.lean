import PsqlOdbc.ConnInfo

/-!
# Copies of connection information

`CC_copy_conninfo` leaves four of the fields behind that a connection string has something of: the
two flags of the settings in brackets, and the last two of the settings for federated
authentication.  A connection string of the copy is one of the settings without them
(`makeConnectString_copy`), and it is another one wherever there is room for one, unless nothing has
been left behind.
-/

namespace PsqlOdbc

open Lib

variable {size : FederatedItem → Nat}

/-! ## Printing -/

theorem printAt_end (s text : List UInt8) {n : Nat} (h : text.length < n) :
    printAt s s.length n text = s ++ text := by
  rw [printAt, if_neg (Nat.ne_zero_of_lt h), List.take_length,
    List.take_of_length_le (Nat.le_sub_one_of_lt h)]

/-- Printing uses all of the room if that is not enough. -/
theorem length_printAt_full {s text : List UInt8} {h n : Nat} (hn : n ≠ 0) (hs : h ≤ s.length)
    (hfull : n ≤ text.length) : (printAt s h n text).length = h + (n - 1) := by
  rw [printAt, if_neg hn, List.length_append, List.length_take_of_le hs,
    List.length_take_of_le (Nat.le_trans (Nat.sub_le n 1) hfull)]

namespace ConnectTexts

variable {t : ConnectTexts} {len : Nat} {abbreviate : Bool} {s : List UInt8}

/-- The part that is printed in any case. -/
def common (t : ConnectTexts) : List UInt8 :=
  t.fundamental ++ t.auth ++ t.limitless ++ t.failover

/-- The text with the extra info in full. -/
def inFull (t : ConnectTexts) : List UInt8 := t.common ++ attributeDelimiter :: t.full ++ t.extra

/-- The text with the extra info abbreviated. -/
def inShort (t : ConnectTexts) : List UInt8 :=
  t.common ++ t.sslmode ++ attributeDelimiter :: t.abbreviated ++
    attributeDelimiter :: t.protocol ++ t.extra

/-- The extra info is printed in full. -/
def TakesFull (t : ConnectTexts) (len : Nat) (abbreviate : Bool) : Prop :=
  abbreviate = false ∧ (t.common ++ attributeDelimiter :: t.full).length < len

instance : Decidable (t.TakesFull len abbreviate) := inferInstanceAs (Decidable (_ ∧ _))

/-- There is room for a connection string.  An SSL mode takes the place of extra info that there is
no room for; where there is none, the room is used up. -/
def HasRoom (t : ConnectTexts) (len : Nat) (abbreviate : Bool) : Prop :=
  if t.TakesFull len abbreviate then t.inFull.length < len
  else t.common.length < len ∧ (abbreviate = true ∨ t.sslmode ≠ []) ∧ t.inShort.length < len

instance : Decidable (t.HasRoom len abbreviate) := by
  unfold HasRoom
  infer_instance

theorem hasRoom_of_takesFull (h : t.TakesFull len abbreviate) :
    t.HasRoom len abbreviate ↔ t.inFull.length < len := by
  rw [HasRoom, if_pos h]

theorem hasRoom_of_not_takesFull (h : ¬t.TakesFull len abbreviate) :
    t.HasRoom len abbreviate ↔
      t.common.length < len ∧ (abbreviate = true ∨ t.sslmode ≠ []) ∧ t.inShort.length < len := by
  rw [HasRoom, if_neg h]

theorem printExtra_full (t : ConnectTexts) (s : List UInt8) {olen nlen : Nat} (h : nlen ≤ olen) :
    t.printExtra len (s, olen, nlen) = [] := by
  rw [printExtra, if_neg (Nat.not_lt.2 h)]

theorem printExtra_of_lt (t : ConnectTexts) (s : List UInt8) {olen nlen : Nat} (h : olen < nlen)
    (hs : s.length < len) :
    t.printExtra len (s, olen, nlen) =
      if (s ++ t.extra).length < len then s ++ t.extra else [] := by
  rw [printExtra, if_pos h]
  by_cases hextra : t.extra = []
  · rw [if_pos hextra, hextra, List.append_nil, if_pos hs]
  rw [if_neg hextra, List.length_append]
  dsimp only
  by_cases hfull : len - s.length ≤ t.extra.length
  · rw [if_pos hfull, if_neg (by omega)]
  · rw [if_neg hfull, if_pos (by omega), printAt_end s t.extra (Nat.not_le.1 hfull)]

/-- The extra info abbreviated is printed behind `s` as a whole, or nothing is. -/
theorem printExtra_printShort (t : ConnectTexts) (hs : s.length < len) :
    t.printExtra len (t.printShort len s) =
      let whole := s ++ attributeDelimiter :: t.abbreviated ++
        attributeDelimiter :: t.protocol ++ t.extra
      if whole.length < len then whole else [] := by
  have hwhole : (s ++ attributeDelimiter :: t.abbreviated ++
      attributeDelimiter :: t.protocol ++ t.extra).length =
      s.length + (t.abbreviated.length + 1) + (t.protocol.length + 1) + t.extra.length := by
    simp only [List.length_append, List.length_cons]
  simp only [printShort]
  by_cases hfit : (attributeDelimiter :: t.abbreviated).length < len - s.length
  · rw [if_pos (Or.inl hfit), printAt_end s _ hfit]
    have hlen : (s ++ attributeDelimiter :: t.abbreviated).length < len := by
      rw [List.length_append]
      omega
    by_cases hfit' : (attributeDelimiter :: t.protocol).length <
        len - (s ++ attributeDelimiter :: t.abbreviated).length
    · rw [printAt_end _ _ hfit', printExtra_of_lt t _ hfit']
      rw [List.length_append]
      omega
    · rw [printExtra_full t _ (Nat.not_lt.1 hfit'), if_neg]
      rw [hwhole]
      simp only [List.length_append, List.length_cons] at hfit'
      omega
  · have hroom : len - s.length ≠ 0 := by omega
    have hshort := length_printAt_full hroom (Nat.le_refl s.length) (Nat.not_lt.1 hfit)
    rw [if_neg (show ¬(_ < len) by rw [hwhole]; rw [List.length_cons] at hfit; omega)]
    split
    · -- One character is left, for the terminator.
      refine printExtra_full t _ ?_
      rw [List.length_cons, hshort]
      omega
    · exact printExtra_full t _ (Nat.not_lt.1 hfit)

/-- The common part is printed as a whole, or nothing is. -/
theorem print_eq (t : ConnectTexts) (len : Nat) (abbreviate : Bool) :
    t.print len abbreviate =
      if len ≤ t.common.length then []
      else if abbreviate then
        t.printExtra len (t.printAbbreviated len t.common.length t.common)
      else
        let nlen := len - t.common.length
        let s := printAt t.common t.common.length nlen (attributeDelimiter :: t.full)
        let olen := (attributeDelimiter :: t.full).length
        if nlen ≤ olen then t.printExtra len (t.printAbbreviated len t.common.length s)
        else t.printExtra len (s, olen, nlen) := by
  have hlength : t.common.length = t.fundamental.length + t.auth.length + t.limitless.length +
      t.failover.length := by
    simp only [common, List.length_append]
  by_cases hfull : len ≤ t.common.length
  · rw [if_pos hfull]
    simp only [print]
    rw [if_pos (by omega)]
  · have hfundamental : printAt [] 0 len t.fundamental = t.fundamental := by
      rw [show 0 = ([] : List UInt8).length from rfl, printAt_end [] t.fundamental (by omega)]
      rfl
    have hauth : printAt t.fundamental t.fundamental.length (len - t.fundamental.length) t.auth =
        t.fundamental ++ t.auth := printAt_end _ _ (by omega)
    have hlimitless : printAt (t.fundamental ++ t.auth) (t.fundamental.length + t.auth.length)
        (len - (t.fundamental.length + t.auth.length)) t.limitless =
        t.fundamental ++ t.auth ++ t.limitless := by
      rw [← List.length_append, printAt_end]
      rw [List.length_append]
      omega
    have hcommon : printAt (t.fundamental ++ t.auth ++ t.limitless)
        (t.fundamental.length + t.auth.length + t.limitless.length)
        (len - (t.fundamental.length + t.auth.length + t.limitless.length)) t.failover =
        t.common := by
      rw [← List.length_append, ← List.length_append, printAt_end]
      · rfl
      rw [List.length_append, List.length_append]
      omega
    rw [if_neg hfull, print]
    dsimp only
    rw [hfundamental, hauth, hlimitless, hcommon, ← hlength, if_neg hfull]

/-- With an SSL mode to print, it does not matter what has been tried before. -/
theorem printExtra_printAbbreviated (t : ConnectTexts) (hssl : t.sslmode ≠ [])
    (hs : s.take t.common.length = t.common) (hcommon : t.common.length < len) :
    t.printExtra len (t.printAbbreviated len t.common.length s) =
      if t.inShort.length < len then t.inShort else [] := by
  have hprint : printAt s t.common.length (len - t.common.length) t.sslmode =
      t.common ++ t.sslmode.take (len - t.common.length - 1) := by
    rw [printAt, if_neg (by omega), hs]
  have hroom : (t.common ++ t.sslmode.take (len - t.common.length - 1)).length < len := by
    rw [List.length_append, List.length_take]
    omega
  rw [printAbbreviated, if_neg hssl, hprint, printExtra_printShort t hroom]
  by_cases hfit : t.sslmode.length < len - t.common.length
  · rw [List.take_of_length_le (Nat.le_sub_one_of_lt hfit)]
    rfl
  · dsimp only
    rw [if_neg, if_neg]
    · simp only [inShort, List.length_append, List.length_cons]
      omega
    · simp only [List.length_append, List.length_cons, List.length_take]
      omega

/-- Without one, the extra info abbreviated is behind what there is. -/
theorem printExtra_printAbbreviated_nil (t : ConnectTexts) (hssl : t.sslmode = [])
    (hcommon : t.common.length < len) :
    t.printExtra len (t.printAbbreviated len t.common.length t.common) =
      if t.inShort.length < len then t.inShort else [] := by
  have hshort : t.inShort = t.common ++ attributeDelimiter :: t.abbreviated ++
      attributeDelimiter :: t.protocol ++ t.extra := by
    rw [inShort, hssl, List.append_nil]
  rw [printAbbreviated, if_pos hssl, printExtra_printShort t hcommon, hshort]

theorem length_common_lt_inFull (t : ConnectTexts) : t.common.length < t.inFull.length := by
  simp only [inFull, List.length_append, List.length_cons]
  omega

/-- A connection string is printed as a whole, or nothing is. -/
theorem print_eq_ite (t : ConnectTexts) (len : Nat) (abbreviate : Bool) :
    t.print len abbreviate =
      if t.HasRoom len abbreviate then
        if t.TakesFull len abbreviate then t.inFull else t.inShort
      else [] := by
  rw [print_eq]
  by_cases hcommon : len ≤ t.common.length
  · rw [if_pos hcommon, if_neg]
    rw [HasRoom]
    split
    · exact Nat.not_lt.2 (Nat.le_trans hcommon (Nat.le_of_lt t.length_common_lt_inFull))
    · exact fun h ↦ absurd h.1 (Nat.not_lt.2 hcommon)
  rw [if_neg hcommon]
  have hlt : t.common.length < len := Nat.not_le.1 hcommon
  by_cases habbreviate : abbreviate = true
  · -- Only the abbreviated text is tried.
    have hno : ¬t.TakesFull len abbreviate :=
      fun h ↦ Bool.noConfusion (h.1.symm.trans habbreviate)
    have hroom : t.HasRoom len abbreviate ↔ t.inShort.length < len :=
      (hasRoom_of_not_takesFull hno).trans
        ⟨fun h ↦ h.2.2, fun h ↦ ⟨hlt, Or.inl habbreviate, h⟩⟩
    rw [if_pos habbreviate, if_congr hroom rfl rfl, if_neg hno]
    by_cases hssl : t.sslmode = []
    · exact printExtra_printAbbreviated_nil t hssl hlt
    · exact printExtra_printAbbreviated t hssl List.take_length hlt
  rw [if_neg habbreviate]
  have hfalse : abbreviate = false := Bool.eq_false_iff.2 habbreviate
  dsimp only
  by_cases hfit : (attributeDelimiter :: t.full).length < len - t.common.length
  · have htakes : t.TakesFull len abbreviate := by
      refine ⟨hfalse, ?_⟩
      rw [List.length_append]
      omega
    rw [if_neg (Nat.not_le.2 hfit), printAt_end _ _ hfit, printExtra_of_lt t _ hfit htakes.2,
      if_congr (hasRoom_of_takesFull htakes) rfl rfl, if_pos htakes]
    rfl
  · have hno : ¬t.TakesFull len abbreviate := by
      intro h
      have hlen := h.2
      rw [List.length_append] at hlen
      omega
    rw [if_pos (Nat.not_lt.1 hfit), if_congr (hasRoom_of_not_takesFull hno) rfl rfl, if_neg hno]
    by_cases hssl : t.sslmode = []
    · -- What has been tried uses up the room.
      have hnone : ¬(t.common.length < len ∧ (abbreviate = true ∨ t.sslmode ≠ []) ∧
          t.inShort.length < len) := by
        rintro ⟨-, h | h, -⟩
        · exact habbreviate h
        · exact h hssl
      have hfull := length_printAt_full (show len - t.common.length ≠ 0 by omega)
        (Nat.le_refl t.common.length) (Nat.not_lt.1 hfit)
      rw [if_neg hnone, printAbbreviated, if_pos hssl, printExtra_printShort t (by omega)]
      dsimp only
      rw [if_neg]
      simp only [List.length_append, List.length_cons] at hfull ⊢
      omega
    · have hand : (t.common.length < len ∧ (abbreviate = true ∨ t.sslmode ≠ []) ∧
          t.inShort.length < len) ↔ t.inShort.length < len :=
        ⟨fun h ↦ h.2.2, fun h ↦ ⟨hlt, Or.inr hssl, h⟩⟩
      rw [if_congr hand rfl rfl]
      refine printExtra_printAbbreviated t hssl ?_ hlt
      rw [printAt, if_neg (by omega), List.take_length]
      exact List.take_left

/-! ## Shorter texts -/

/-- The two ways to print the extra info end differently. -/
structure Delimited (t : ConnectTexts) : Prop where
  full : t.full.getLast? = some attributeDelimiter
  protocol : t.protocol.getLast? ≠ some attributeDelimiter
  protocol_ne : t.protocol ≠ []

/-- Something has been left out of `t` in `t₀`. -/
structure Shortened (t₀ t : ConnectTexts) : Prop where
  extra : t₀.extra = t.extra
  sslmode : t₀.sslmode = t.sslmode
  protocol : t₀.protocol = t.protocol
  common : t₀.common.length ≤ t.common.length
  full : t₀.common.length + t₀.full.length < t.common.length + t.full.length
  abbreviated : t₀.common.length + t₀.abbreviated.length < t.common.length + t.abbreviated.length

theorem length_inFull (t : ConnectTexts) :
    t.inFull.length = t.common.length + t.full.length + 1 + t.extra.length := by
  simp only [inFull, List.length_append, List.length_cons]
  omega

theorem length_inShort (t : ConnectTexts) :
    t.inShort.length = t.common.length + t.abbreviated.length + t.sslmode.length +
      t.protocol.length + 2 + t.extra.length := by
  simp only [inShort, List.length_append, List.length_cons]
  omega

theorem inFull_ne_nil (t : ConnectTexts) : t.inFull ≠ [] := by
  rw [← List.length_pos_iff, length_inFull]
  omega

theorem inShort_ne_nil (t : ConnectTexts) : t.inShort ≠ [] := by
  rw [← List.length_pos_iff, length_inShort]
  omega

theorem inFull_ne_inShort {t₀ t : ConnectTexts} (h₀ : t₀.Delimited) (h : t.Delimited)
    (hextra : t₀.extra = t.extra) : t₀.inFull ≠ t.inShort := by
  intro heq
  rw [inFull, inShort, hextra] at heq
  have hlast := congrArg List.getLast? (List.append_cancel_right heq)
  have hfull : t₀.full ≠ [] := by
    intro hnil
    have hfull := h₀.full
    rw [hnil] at hfull
    cases hfull
  rw [List.getLast?_append_of_ne_nil _ (List.cons_ne_nil _ _),
    List.getLast?_append_of_ne_nil _ (List.cons_ne_nil _ _),
    List.getLast?_cons_of_ne_nil hfull, List.getLast?_cons_of_ne_nil h.protocol_ne,
    h₀.full] at hlast
  exact h.protocol hlast.symm

theorem print_of_hasRoom (h : t.HasRoom len abbreviate) :
    t.print len abbreviate = if t.TakesFull len abbreviate then t.inFull else t.inShort := by
  rw [print_eq_ite, if_pos h]

theorem print_of_not_hasRoom (h : ¬t.HasRoom len abbreviate) : t.print len abbreviate = [] := by
  rw [print_eq_ite, if_neg h]

theorem print_eq_nil_iff : t.print len abbreviate = [] ↔ ¬t.HasRoom len abbreviate := by
  refine ⟨fun heq hroom ↦ ?_, print_of_not_hasRoom⟩
  rw [print_of_hasRoom hroom] at heq
  split at heq
  · exact t.inFull_ne_nil heq
  · exact t.inShort_ne_nil heq

/-- Where there is room for both, more text is not printed as the same text. -/
theorem print_ne {t₀ t : ConnectTexts} (h : Shortened t₀ t) (h₀ : t₀.Delimited)
    (hdelimited : t.Delimited) (hroom₀ : t₀.HasRoom len abbreviate)
    (hroom : t.HasRoom len abbreviate) : t₀.print len abbreviate ≠ t.print len abbreviate := by
  have hextra := congrArg List.length h.extra
  have hfull := h.full
  rw [print_of_hasRoom hroom₀, print_of_hasRoom hroom]
  by_cases htakes : t.TakesFull len abbreviate
  · have htakes₀ : t₀.TakesFull len abbreviate := by
      refine ⟨htakes.1, ?_⟩
      have hlt := htakes.2
      simp only [List.length_append, List.length_cons] at hlt ⊢
      omega
    rw [if_pos htakes, if_pos htakes₀]
    intro heq
    have hlength := congrArg List.length heq
    rw [length_inFull, length_inFull] at hlength
    omega
  · rw [if_neg htakes]
    by_cases htakes₀ : t₀.TakesFull len abbreviate
    · rw [if_pos htakes₀]
      exact inFull_ne_inShort h₀ hdelimited h.extra
    · rw [if_neg htakes₀]
      intro heq
      have hlength := congrArg List.length heq
      rw [length_inShort, length_inShort, h.sslmode, h.protocol, h.extra] at hlength
      have habbreviated := h.abbreviated
      omega

/-- The two are printed as the same text only where neither has room. -/
theorem print_eq_print_iff {t₀ t : ConnectTexts} (h : Shortened t₀ t) (h₀ : t₀.Delimited)
    (hdelimited : t.Delimited) : t₀.print len abbreviate = t.print len abbreviate ↔
      ¬t.HasRoom len abbreviate ∧ ¬t₀.HasRoom len abbreviate := by
  constructor
  · intro heq
    by_cases hroom : t.HasRoom len abbreviate
    · by_cases hroom₀ : t₀.HasRoom len abbreviate
      · exact absurd heq (print_ne h h₀ hdelimited hroom₀ hroom)
      · rw [print_of_not_hasRoom hroom₀] at heq
        exact absurd hroom (print_eq_nil_iff.1 heq.symm)
    · rw [print_of_not_hasRoom hroom] at heq
      exact ⟨hroom, print_eq_nil_iff.1 heq⟩
  · rintro ⟨hroom, hroom₀⟩
    rw [print_of_not_hasRoom hroom, print_of_not_hasRoom hroom₀]

end ConnectTexts

/-! ## What the copy leaves out -/

/-- `makeBracketConnectString` has room for its text. -/
def bracketText (inStr : Bool) (item : PgName) (option : BracketOption) : List UInt8 :=
  if inStr then option.optname ++ equalsSign :: bracesOf (item.getD []) ++ [attributeDelimiter]
  else []

theorem makeBracketConnectString_eq_some (inStr : Bool) (item : PgName) (option : BracketOption) :
    makeBracketConnectString inStr item option = some (bracketText inStr item option) := by
  cases inStr with
  | false => rfl
  | true => exact makeBracketConnectString_eq (item.getD []) option

theorem length_bracketText (inStr : Bool) (item : PgName) (option : BracketOption) :
    0 < (bracketText inStr item option).length ↔ inStr = true := by
  cases inStr with
  | false => exact iff_of_false (Nat.lt_irrefl 0) Bool.false_ne_true
  | true =>
    refine iff_of_true ?_ rfl
    rw [bracketText, if_pos rfl, List.length_append]
    exact Nat.succ_pos _

namespace ConnInfo

variable {ci : ConnInfo size} {mem : List UInt8}

/-- The settings without what the copy leaves behind. -/
def withoutSkipped (ci : ConnInfo size) : ConnInfo size :=
  { ci with
    connSettingsInStr := false
    pqoptInStr := false
    federationCfg :=
      { ci.federationCfg with
        relayingPartyId := ci.federationCfg.relayingPartyId.cleared
        appId := ci.federationCfg.appId.cleared } }

/-- Nothing is left behind. -/
structure SkippedUnused (ci : ConnInfo size) : Prop where
  connSettings : ci.connSettingsInStr = false
  pqopt : ci.pqoptInStr = false
  relayingPartyId : ci.federationCfg.relayingPartyId.text = []
  appId : ci.federationCfg.appId.text = []

/-- The texts with the password encoded. -/
def textsOf (mem : List UInt8) (ci : ConnInfo size) (encoded : List UInt8) : ConnectTexts where
  fundamental := ci.fundamentalText
  auth := ci.authText encoded
  limitless := ci.limitlessText
  failover := ci.failoverText
  full := ci.fullText (bracketText ci.connSettingsInStr ci.connSettings .connSettings)
    (bracketText ci.pqoptInStr ci.pqopt .pqopt)
  sslmode := ci.sslText mem
  abbreviated := ci.abbreviatedText
    (bracketText ci.connSettingsInStr ci.connSettings .abbrConnSettings)
    (bracketText ci.pqoptInStr ci.pqopt .abbrPqopt)
  protocol := ascii "A1=" ++ ci.protocolAnd
  extra := ci.extraText
  rollback := 0 ≤ ci.rollbackOnError

theorem texts_eq (mem : List UInt8) (ci : ConnInfo size) :
    ci.texts mem = (encodedItem ci.password).map (ci.textsOf mem) := by
  simp only [texts, makeBracketConnectString_eq_some]
  cases encodedItem ci.password with
  | none => rfl
  | some encoded => rfl

end ConnInfo

theorem ccCopyConninfo_eq (ci : ConnInfo size) :
    ccCopyConninfo ci = { ci.withoutSkipped with pqopt := none, wcsDebug := 0 } := by
  simp only [ccCopyConninfo, copyGlobals, CharArray.strncpyNull_eq]
  rfl

/-- A connection string of the copy. -/
theorem makeConnectString_copy (mem : List UInt8) (ci : ConnInfo size) (len : UInt16) :
    makeConnectString mem (ccCopyConninfo ci) len =
      makeConnectString mem ci.withoutSkipped len := by
  rw [ccCopyConninfo_eq, makeConnectString, makeConnectString, ConnInfo.texts_eq,
    ConnInfo.texts_eq]
  rfl

namespace ConnInfo

variable {ci : ConnInfo size} {mem encoded : List UInt8}

theorem length_attributes_cons (name : String) (value : List UInt8)
    (items : List (String × List UInt8)) :
    (attributes ((name, value) :: items)).length =
      (ascii name).length + value.length + 2 + (attributes items).length := by
  simp only [attributes, List.flatMap_cons, List.length_append, List.length_cons, List.length_nil]
  omega

theorem length_authText (ci : ConnInfo size) (encoded : List UInt8) :
    (ci.authText encoded).length = (ci.withoutSkipped.authText encoded).length +
      ci.federationCfg.relayingPartyId.text.length + ci.federationCfg.appId.text.length := by
  simp only [authText, length_attributes_cons, withoutSkipped, CharArray.cleared_text,
    List.length_nil]
  omega

theorem length_fullText (ci : ConnInfo size) (connset pqopt : List UInt8) :
    (ci.fullText connset pqopt).length =
      (ci.fullText [] []).length + connset.length + pqopt.length := by
  simp only [fullText, List.length_append, List.length_nil]
  omega

theorem length_abbreviatedText (ci : ConnInfo size) (connset pqopt : List UInt8) :
    (ci.abbreviatedText connset pqopt).length =
      (ci.abbreviatedText [] []).length + connset.length + pqopt.length := by
  simp only [abbreviatedText, List.length_append, List.length_nil]
  omega

/-- Nothing of the texts is lost if nothing is left behind. -/
theorem textsOf_withoutSkipped (mem : List UInt8) (h : ci.SkippedUnused) :
    ci.withoutSkipped.textsOf mem = ci.textsOf mem := by
  funext encoded
  have hauth : ci.withoutSkipped.authText encoded = ci.authText encoded := by
    simp only [authText, withoutSkipped, CharArray.cleared_text, h.relayingPartyId, h.appId]
  have hconnset (option : BracketOption) :
      bracketText ci.connSettingsInStr ci.connSettings option = [] := by
    rw [h.connSettings]
    rfl
  have hpqopt (option : BracketOption) : bracketText ci.pqoptInStr ci.pqopt option = [] := by
    rw [h.pqopt]
    rfl
  simp only [textsOf, hconnset, hpqopt, hauth]
  rfl

theorem lengths_of_not_skippedUnused (h : ¬ci.SkippedUnused) (abbreviate : Bool) :
    0 < ci.federationCfg.relayingPartyId.text.length + ci.federationCfg.appId.text.length +
      (bracketText ci.connSettingsInStr ci.connSettings
        (if abbreviate then .abbrConnSettings else .connSettings)).length +
      (bracketText ci.pqoptInStr ci.pqopt (if abbreviate then .abbrPqopt else .pqopt)).length := by
  by_contra hzero
  refine h ⟨?_, ?_, List.eq_nil_iff_length_eq_zero.2 (by omega),
    List.eq_nil_iff_length_eq_zero.2 (by omega)⟩
  · rw [Bool.eq_false_iff, ne_eq, ← length_bracketText _ ci.connSettings
      (if abbreviate then .abbrConnSettings else .connSettings)]
    omega
  · rw [Bool.eq_false_iff, ne_eq, ← length_bracketText _ ci.pqopt
      (if abbreviate then .abbrPqopt else .pqopt)]
    omega

theorem length_common_textsOf (mem : List UInt8) (ci : ConnInfo size) (encoded : List UInt8) :
    (ci.textsOf mem encoded).common.length =
      (ci.withoutSkipped.textsOf mem encoded).common.length +
        ci.federationCfg.relayingPartyId.text.length + ci.federationCfg.appId.text.length := by
  have hfundamental : ci.withoutSkipped.fundamentalText = ci.fundamentalText := rfl
  have hlimitless : ci.withoutSkipped.limitlessText = ci.limitlessText := rfl
  have hfailover : ci.withoutSkipped.failoverText = ci.failoverText := rfl
  simp only [ConnectTexts.common, textsOf, List.length_append, hfundamental, hlimitless, hfailover,
    length_authText ci]
  omega

theorem shortened_withoutSkipped (mem encoded : List UInt8) (h : ¬ci.SkippedUnused) :
    ConnectTexts.Shortened (ci.withoutSkipped.textsOf mem encoded) (ci.textsOf mem encoded) := by
  have hcommon := length_common_textsOf mem ci encoded
  constructor
  case extra => rfl
  case sslmode => rfl
  case protocol => rfl
  case common => omega
  case full =>
    have hlengths := lengths_of_not_skippedUnused h false
    have hfull : (ci.withoutSkipped.textsOf mem encoded).full = ci.fullText [] [] := rfl
    have hlength := length_fullText ci
      (bracketText ci.connSettingsInStr ci.connSettings .connSettings)
      (bracketText ci.pqoptInStr ci.pqopt .pqopt)
    rw [hfull]
    simp only [textsOf, Bool.false_eq_true, if_false] at hcommon hlengths ⊢
    omega
  case abbreviated =>
    have hlengths := lengths_of_not_skippedUnused h true
    have hshort : (ci.withoutSkipped.textsOf mem encoded).abbreviated =
        ci.abbreviatedText [] [] := rfl
    have hlength := length_abbreviatedText ci
      (bracketText ci.connSettingsInStr ci.connSettings .abbrConnSettings)
      (bracketText ci.pqoptInStr ci.pqopt .abbrPqopt)
    rw [hshort]
    simp only [textsOf, if_true] at hcommon hlengths ⊢
    omega

theorem getLast?_attributes_append (items : List (String × List UInt8)) (name : String)
    (value : List UInt8) :
    (attributes (items ++ [(name, value)])).getLast? = some attributeDelimiter := by
  rw [attributes, List.flatMap_append, List.flatMap_singleton, ← List.append_assoc,
    List.getLast?_concat]

/-- A number ends with a digit. -/
theorem getLast?_printfInt (n : Int) : ∃ d, (printfInt n).getLast? = some (digitByte (d % 10)) := by
  refine ⟨n.natAbs, ?_⟩
  rw [printfInt, printfPrecision, decimals_succ]
  split
  · rw [← List.cons_append, List.getLast?_concat]
  · rw [List.getLast?_concat]

theorem delimited_textsOf (mem : List UInt8) (ci : ConnInfo size) (encoded : List UInt8) :
    (ci.textsOf mem encoded).Delimited := by
  constructor
  case full =>
    have hlast := getLast?_attributes_append
      [("D6", printfInt ci.numericAs), ("OptionalErrors", printfInt ci.optionalErrors)]
      "FetchRefcursors" (printfInt ci.fetchRefcursors)
    rw [textsOf, fullText, List.getLast?_append]
    erw [hlast]
    rfl
  case protocol =>
    rw [textsOf, protocolAnd]
    split
    · obtain ⟨d, hd⟩ := getLast?_printfInt ci.rollbackOnError
      rw [List.getLast?_append, List.getLast?_append, hd, Option.some_or, Option.some_or,
        ne_eq, Option.some.injEq]
      have hdigit : ∀ d < 10, digitByte d ≠ attributeDelimiter := by decide
      exact hdigit _ (Nat.mod_lt d (by decide))
    · show (ascii "A1=" ++ ascii "7.4").getLast? ≠ some attributeDelimiter
      decide
  case protocol_ne => exact List.cons_ne_nil _ _

/-- There is room for a connection string of that many characters. -/
def HasRoom (mem : List UInt8) (ci : ConnInfo size) (len : UInt16) : Prop :=
  ∃ t, ci.texts mem = some t ∧ t.HasRoom (roomOf len) (ci.abbrevs len)

theorem makeConnectString_eq_iff (h : ¬ci.SkippedUnused) (len : UInt16) :
    makeConnectString mem ci.withoutSkipped len = makeConnectString mem ci len ↔
      ¬ci.HasRoom mem len ∧ ¬ci.withoutSkipped.HasRoom mem len := by
  have habbrevs : ci.withoutSkipped.abbrevs len = ci.abbrevs len := rfl
  have hpassword : ci.withoutSkipped.password = ci.password := rfl
  rw [makeConnectString, makeConnectString, HasRoom, HasRoom, texts_eq, texts_eq, habbrevs,
    hpassword]
  cases hencoded : encodedItem ci.password with
  | none => simp
  | some encoded =>
    simp only [Option.map_some, Option.some.injEq, exists_eq_left']
    exact ConnectTexts.print_eq_print_iff (shortened_withoutSkipped mem encoded h)
      (delimited_textsOf mem _ encoded) (delimited_textsOf mem ci encoded)

end ConnInfo

/-- A copy has the connection strings of the settings if nothing of them is left behind, or where
there is room for none, neither with it nor without. -/
theorem makeConnectString_copy_iff (mem : List UInt8) (ci : ConnInfo size) :
    (∀ len, makeConnectString mem (ccCopyConninfo ci) len = makeConnectString mem ci len) ↔
      ci.SkippedUnused ∨
        ∀ len, ¬ci.HasRoom mem len ∧ ¬ci.withoutSkipped.HasRoom mem len := by
  simp only [makeConnectString_copy]
  by_cases h : ci.SkippedUnused
  · refine iff_of_true ?_ (Or.inl h)
    intro len
    rw [makeConnectString, makeConnectString, ConnInfo.texts_eq, ConnInfo.texts_eq,
      ConnInfo.textsOf_withoutSkipped mem h]
    rfl
  · rw [or_iff_right h]
    exact forall_congr' fun len ↦ ConnInfo.makeConnectString_eq_iff h len

/-! ## Settings that are lost -/

/-- An array with no text in it. -/
def emptyArray (n : Nat) (h : 0 < n) : CharArray n := ⟨[], h, CharArray.zero_notMem_nil⟩

/-- Settings with an application id, and nothing else. -/
def federatedConn (appId : List UInt8) (ends : appId.length < mediumRegistryLen)
    (noNul : 0 ∉ appId) : ConnInfo fun _ ↦ mediumRegistryLen :=
  let medium := emptyArray mediumRegistryLen (by decide)
  let small := emptyArray smallRegistryLen (by decide)
  let mediumSmall := emptyArray mediumSmallRegistryLen (by decide)
  { extraOpts := 0, forceAbbrevConnstr := 0, fakeMss := 0, bdeEnvironment := 0,
    cvtNullDateString := 0, accessibleOnly := 0, ignoreRoundTripTime := 0, disableKeepalive := 0,
    disableConvertFunc := 0, dsn := medium, desc := medium, drivername := medium, server := medium,
    database := medium, authtype := mediumSmall, username := medium, password := none,
    iamHost := medium, region := medium, port := small, sslmode := mediumSmall,
    tokenExpiration := small, onlyread := small, fakeOidIndex := small, showOidColumn := small,
    rowVersioning := small, showSystemTables := small, translationDll := medium,
    translationOption := small, secretId := medium,
    federationCfg :=
      { idpEndpoint := medium, idpPort := medium, idpUsername := medium, idpPassword := medium,
        iamRoleArn := medium, iamIdpArn := medium, httpClientSocketTimeout := medium,
        httpClientConnectTimeout := medium, relayingPartyId := medium,
        appId := ⟨appId, ends, noNul⟩ },
    limitlessEnabled := 0, limitlessMode := medium, limitlessMonitorIntervalMs := 0,
    limitlessServiceId := medium, logDir := medium, rdsLoggingEnabled := 0, rdsLogThreshold := 0,
    passwordRequired := 0, connSettingsInStr := false, pqoptInStr := false, connSettings := none,
    pqopt := none, allowKeyset := 0, updatableCursors := 0, lfConversion := 0, trueIsMinus1 := 0,
    int8As := 0, byteaAsLongvarbinary := 0, useServerSidePrepare := 0, lowerCaseIdentifier := 0,
    rollbackOnError := 0, wcsDebug := 0, numericAs := 0, optionalErrors := 0, ignoreTimeout := 0,
    fetchRefcursors := 0, keepaliveIdle := 0, keepaliveInterval := 0, batchSize := 0,
    enableFailover := 0, failoverMode := medium, readerHostSelectorStrategy := medium,
    hostPattern := medium, clusterId := medium, topologyRefresh := 0, topologyHighRefresh := 0,
    ignoreTopologyRefresh := 0, failoverTimeout := 0,
    drivers :=
      { drivername := none, fetchMax := 0, unknownSizes := 0, maxVarcharSize := 0,
        maxLongvarcharSize := 0, debug := 0, commlog := 0, uniqueIndex := 0, useDeclarefetch := 0,
        textAsLongvarchar := 0, unknownsAsLongvarchar := 0, boolsAsChar := 0, lie := 0, parse := 0,
        extraSystablePrefixes := medium, protocol := small } }

/-- The settings of an application that is known to the identity provider. -/
def oktaConn : ConnInfo fun _ ↦ mediumRegistryLen :=
  federatedConn (ascii "0oa1") (by decide) (by decide)

theorem hasRoom_oktaConn : ConnInfo.HasRoom [] oktaConn 4096 := by
  have hzero : decimals 1 0 = [0x30] := by
    rw [decimals_succ, Nat.zero_div, decimals_zero]
    rfl
  have hint : printfInt 0 = [0x30] := hzero
  have huint : printfUInt 0 = [0x30] := hzero
  have hcommon : (ConnInfo.textsOf [] oktaConn []).common.length < 1000 := by
    simp only [ConnectTexts.common, ConnInfo.textsOf, ConnInfo.fundamentalText, ConnInfo.authText,
      ConnInfo.limitlessText, ConnInfo.failoverText, oktaConn, federatedConn, emptyArray, hint,
      huint, UInt32.toNat_zero, hzero]
    decide +kernel
  have hfull : (ConnInfo.textsOf [] oktaConn []).full.length < 1000 := by
    simp only [ConnInfo.textsOf, ConnInfo.fullText, ConnInfo.protocolAnd,
      ConnInfo.makeKeepaliveConnectString, oktaConn, federatedConn, emptyArray, hint, huint,
      bracketText]
    decide +kernel
  have hextra : (ConnInfo.textsOf [] oktaConn []).extra = [] := by
    rw [ConnInfo.textsOf, ConnInfo.extraText, if_pos (by decide)]
  have hroom : ConnInfo.roomOf 4096 = 4096 := by decide
  have habbrevs : oktaConn.abbrevs 4096 = false := by decide
  have hencoded : encodedItem none = some [] := by decide +kernel
  have htakes : (ConnInfo.textsOf [] oktaConn []).TakesFull 4096 false := by
    refine ⟨rfl, ?_⟩
    rw [List.length_append, List.length_cons]
    omega
  have hpassword : oktaConn.password = none := rfl
  rw [ConnInfo.HasRoom, ConnInfo.texts_eq, hroom, habbrevs, hpassword, hencoded, Option.map_some]
  refine ⟨_, rfl, ?_⟩
  rw [ConnectTexts.hasRoom_of_takesFull htakes]
  rw [ConnectTexts.length_inFull, hextra, List.length_nil]
  omega

/-- An application id is lost. -/
theorem not_makeConnectString_copy :
    ¬∀ len, makeConnectString [] (ccCopyConninfo oktaConn) len =
      makeConnectString [] oktaConn len := by
  intro h
  have hlen := h 4096
  have hused : ¬oktaConn.SkippedUnused := fun h ↦ absurd h.appId (by decide)
  rw [makeConnectString_copy, ConnInfo.makeConnectString_eq_iff hused] at hlen
  exact hlen.1 hasRoom_oktaConn

end PsqlOdbc
