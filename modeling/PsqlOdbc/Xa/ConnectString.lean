import PsqlOdbc.DlgSpecific
import PsqlOdbc.Xa.XaInfoRight

/-!
# The connection string for recovery (`connection.c`)

The process that recovers transactions connects with a string that `PgDtc_create_connect_string`
writes from what the connection knows.  Nothing is quoted but the name of the driver, so that the
string is split into what was written only if each text can stand where it is
(`DtcInfo.keepsAttributes_iff`).
-/

namespace PsqlOdbc.Xa

open Lib

/-! ## Definitions -/

/-- What of a `ConnInfo` the string is made of. -/
structure DtcInfo where
  drivername : List UInt8
  server : List UInt8
  port : List UInt8
  database : List UInt8
  username : List UInt8
  password : PgName
  sslmode : List UInt8
  xaOpt : Int8
  noNul : 0 ∉ drivername ++ server ++ port ++ database ++ username ++ password.getD [] ++ sslmode

namespace DtcInfo

variable (ci : DtcInfo)

/-- `SAFE_NAME(ci->password)`. -/
def passwordText : List UInt8 := ci.password.getD []

/-- `xaOptStr`. -/
def xaOptStr : List UInt8 :=
  if ci.xaOpt = 1 ∨ ci.xaOpt = 2 then ascii "dtchk=0;" -- `DTC_CHECK_LINK_ONLY`, `_BEFORE_LINK`
  else if ci.xaOpt = 3 then ascii "dtchk=1;" -- `DTC_CHECK_RM_CONNECTION`
  else []

/-- What `snprintf` makes of the format. -/
def connectText : List UInt8 :=
  ascii "DRIVER=" ++ [openingBracket] ++ ci.drivername ++ [closingBracket] ++ ascii ";" ++
    ci.xaOptStr ++ ascii "SERVER=" ++ ci.server ++ ascii ";PORT=" ++ ci.port ++
    ascii ";DATABASE=" ++ ci.database ++ ascii ";UID=" ++ ci.username ++ ascii ";PWD=" ++
    ci.passwordText ++ ascii ";CA=" ++ ci.sslmode

/-- `PgDtc_create_connect_string`; nothing is written where `xa_opt` is not positive. -/
def createConnectString (strsize : ℕ) : Option (List UInt8) :=
  if ci.xaOpt ≤ 0 then none else some (ci.connectText.take (strsize - 1))

/-- The item of `xaOptStr`. -/
def checkAttribute : List (List UInt8 × List UInt8) :=
  if ci.xaOpt = 1 ∨ ci.xaOpt = 2 then [(ascii "dtchk", ascii "0")]
  else if ci.xaOpt = 3 then [(ascii "dtchk", ascii "1")]
  else []

/-- The attributes with their values. -/
def attributes : List (List UInt8 × List UInt8) :=
  (ascii "DRIVER", openingBracket :: (ci.drivername ++ [closingBracket])) ::
    (ci.checkAttribute ++
      [(ascii "SERVER", ci.server), (ascii "PORT", ci.port), (ascii "DATABASE", ci.database),
        (ascii "UID", ci.username), (ascii "PWD", ci.passwordText), (ascii "CA", ci.sslmode)])

/-- The string is written whole, the driver splits it into the attributes and their values, and it
reads the password back. -/
def KeepsAttributes (strsize : ℕ) : Prop :=
  ci.createConnectString strsize = some ci.connectText ∧
    dconnGetAttributes (fun calls attr value ↦ calls ++ [(attr, value)]) ci.connectText [] =
      some (true, ci.attributes) ∧
    (decodeOrRemoveBraces ci.passwordText).map (·.getD []) = some ci.passwordText

end DtcInfo

/-- A password that is read back as it stands. -/
def PasswordStands (password : List UInt8) : Prop :=
  attributeDelimiter ∉ password ∧ password.head? ≠ some openingBracket ∧ plusSign ∉ password ∧
    percent ∉ password

/-- The condition on the connection. -/
structure DtcInfo.AttributesStand (ci : DtcInfo) (strsize : ℕ) : Prop where
  written : 0 < ci.xaOpt
  room : ci.connectText.length < strsize
  drivername : ∃ text, ci.drivername = doubleBrackets text
  server : InnerValue ci.server
  port : InnerValue ci.port
  database : InnerValue ci.database
  username : InnerValue ci.username
  password : PasswordStands ci.passwordText
  sslmode : LastValue ci.sslmode

/-! ## The password -/

theorem length_decodeLoop {skip : ℕ} {ins outs : List UInt8} (h : decodeLoop skip ins = some outs) :
    outs.length + min skip ins.length ≤ ins.length := by
  induction ins generalizing skip outs with
  | nil =>
    cases skip <;> cases h <;> simp
  | cons inc ins ih =>
    cases skip with
    | succ skip =>
      rw [decodeLoop] at h
      have := ih h
      simp only [List.length_cons]
      omega
    | zero =>
      by_cases hplus : inc = plusSign
      · subst hplus
        rw [decodeLoop_plus] at h
        obtain ⟨outs', hloop, rfl⟩ := Option.map_eq_some_iff.1 h
        have := ih hloop
        simp only [List.length_cons]
        omega
      · by_cases hpercent : inc = percent
        · subst hpercent
          rw [decodeLoop, if_neg (by decide), if_pos rfl] at h
          cases ins with
          | nil => cases h
          | cons hi ins =>
            obtain ⟨outs', hloop, rfl⟩ := Option.map_eq_some_iff.1 h
            have := ih hloop
            simp only [List.length_cons] at this ⊢
            omega
        · rw [decodeLoop_other hplus hpercent] at h
          obtain ⟨outs', hloop, rfl⟩ := Option.map_eq_some_iff.1 h
          have := ih hloop
          simp only [List.length_cons]
          omega

/-- Decoding leaves a text as it is if and only if there is nothing to decode. -/
theorem decodeLoop_self_iff {ins : List UInt8} :
    decodeLoop 0 ins = some ins ↔ plusSign ∉ ins ∧ percent ∉ ins := by
  induction ins with
  | nil => simp [decodeLoop]
  | cons inc ins ih =>
    by_cases hplus : inc = plusSign
    · subst hplus
      refine iff_of_false (fun h ↦ ?_) fun h ↦ h.1 List.mem_cons_self
      rw [decodeLoop_plus] at h
      obtain ⟨outs, -, houts⟩ := Option.map_eq_some_iff.1 h
      exact absurd (List.cons.inj houts).1 (by decide)
    · by_cases hpercent : inc = percent
      · subst hpercent
        refine iff_of_false (fun h ↦ ?_) fun h ↦ h.2 List.mem_cons_self
        rw [decodeLoop, if_neg (by decide), if_pos rfl] at h
        cases ins with
        | nil => cases h
        | cons hi ins =>
          -- an escape is longer than what it stands for
          obtain ⟨outs, hloop, houts⟩ := Option.map_eq_some_iff.1 h
          have hlength := length_decodeLoop hloop
          have heq := congrArg List.length houts
          simp only [List.length_cons] at hlength heq
          omega
      · rw [decodeLoop_other hplus hpercent]
        have hcons : (decodeLoop 0 ins).map (inc :: ·) = some (inc :: ins) ↔
            decodeLoop 0 ins = some ins := by
          cases decodeLoop 0 ins <;> simp
        rw [hcons, ih, List.mem_cons, List.mem_cons]
        simp [Ne.symm hplus, Ne.symm hpercent]

/-- `decode` of a text that has no NUL. -/
theorem decode_self_iff {ins : List UInt8} (h0 : 0 ∉ ins) :
    (decode ins).map (·.getD []) = some ins ↔ plusSign ∉ ins ∧ percent ∉ ins := by
  rw [decode]
  by_cases hnil : ins = []
  · subst hnil
    simp
  · rw [if_neg hnil, ← decodeLoop_self_iff]
    cases hloop : decodeLoop 0 ins with
    | none => simp
    | some outs =>
      have hlength := length_decodeLoop hloop
      simp only [Option.map_some, Option.getD_some, Option.some.injEq]
      constructor
      · intro heq
        have htake := (List.takeWhile_prefix (fun b ↦ decide (b ≠ 0)) (l := outs)).eq_of_length_le
        rw [heq] at htake
        exact (htake (by omega)).symm
      · rintro rfl
        exact List.takeWhile_eq_self_iff.2 fun b hb ↦ by
          rw [decide_eq_true_eq]
          rintro rfl
          exact h0 hb

theorem length_le_doubleBrackets (text : List UInt8) :
    text.length ≤ (doubleBrackets text).length := by
  induction text with
  | nil => rfl
  | cons b text ih =>
    rw [doubleBrackets_cons, List.length_append, List.length_cons]
    split <;> simp only [List.length_cons, List.length_nil] <;> omega

/-- A password stands in the string and is read back if and only if it has no special characters. -/
theorem passwordStands_iff {password : List UInt8} (h0 : 0 ∉ password) :
    InnerValue password ∧ (decodeOrRemoveBraces password).map (·.getD []) = some password ↔
      PasswordStands password := by
  have hplain : password.head? ≠ some openingBracket →
      decodeOrRemoveBraces password = decode password := by
    intro hhead
    cases password with
    | nil => rfl
    | cons c password =>
      rw [decodeOrRemoveBraces, if_neg fun h ↦ hhead (by rw [h.1]; rfl)]
  constructor
  · rintro ⟨hvalue | ⟨text, rfl⟩, hread⟩
    · rw [hplain hvalue.2, decode_self_iff h0] at hread
      exact ⟨hvalue.1, hvalue.2, hread⟩
    · -- the braces are removed
      rw [decodeOrRemoveBraces_bracesOf, Option.map_some, Option.getD_some,
        Option.some.injEq] at hread
      have hlength := congrArg List.length hread
      have hle := length_le_doubleBrackets text
      simp only [bracesOf, List.length_cons, List.length_append, List.length_nil] at hlength
      omega
  · rintro ⟨hdelim, hhead, hdecode⟩
    refine ⟨.inl ⟨hdelim, hhead⟩, ?_⟩
    rw [hplain hhead, decode_self_iff h0]
    exact hdecode

/-! ## The attributes -/

/-- The format writes the attributes. -/
theorem connectText_eq (ci : DtcInfo) : ci.connectText = joinPairs ci.attributes := by
  have hdriver : ascii "DRIVER=" = ascii "DRIVER" ++ [equalsSign] := by decide
  have hsemicolon : ascii ";" = [attributeDelimiter] := by decide
  have hserver : ascii "SERVER=" = ascii "SERVER" ++ [equalsSign] := by decide
  have hport : ascii ";PORT=" = attributeDelimiter :: (ascii "PORT" ++ [equalsSign]) := by decide
  have hdatabase : ascii ";DATABASE=" =
      attributeDelimiter :: (ascii "DATABASE" ++ [equalsSign]) := by decide
  have huid : ascii ";UID=" = attributeDelimiter :: (ascii "UID" ++ [equalsSign]) := by decide
  have hpwd : ascii ";PWD=" = attributeDelimiter :: (ascii "PWD" ++ [equalsSign]) := by decide
  have hca : ascii ";CA=" = attributeDelimiter :: (ascii "CA" ++ [equalsSign]) := by decide
  have hzero : ascii "dtchk=0;" =
      ascii "dtchk" ++ equalsSign :: (ascii "0" ++ [attributeDelimiter]) := by decide
  have hone : ascii "dtchk=1;" =
      ascii "dtchk" ++ equalsSign :: (ascii "1" ++ [attributeDelimiter]) := by decide
  rw [DtcInfo.connectText, DtcInfo.attributes, DtcInfo.xaOptStr, DtcInfo.checkAttribute, hdriver,
    hsemicolon, hserver, hport, hdatabase, huid, hpwd, hca, hzero, hone]
  split
  · simp only [joinPairs, List.cons_append, List.nil_append, List.append_assoc]
  · split <;> simp only [joinPairs, List.cons_append, List.nil_append, List.append_assoc]

instance (name : List UInt8) : Decidable (AttrName name) :=
  decidable_of_iff (name ≠ [] ∧ attributeDelimiter ∉ name ∧ equalsSign ∉ name)
    ⟨fun h ↦ ⟨h.1, h.2.1, h.2.2⟩, fun h ↦ ⟨h.ne_nil, h.delim, h.equals⟩⟩

theorem attrName_attributes (ci : DtcInfo) : ∀ p ∈ ci.attributes, AttrName p.1 := by
  have hcheck : ∀ p ∈ ci.checkAttribute, AttrName p.1 := by
    intro p hp
    rw [DtcInfo.checkAttribute] at hp
    split at hp
    · rw [List.mem_singleton.1 hp]
      decide
    · split at hp
      · rw [List.mem_singleton.1 hp]
        decide
      · cases hp
  rw [DtcInfo.attributes, List.forall_mem_cons, List.forall_mem_append]
  refine ⟨show AttrName (ascii "DRIVER") by decide, hcheck, ?_⟩
  simp only [List.forall_mem_cons]
  exact ⟨by decide, by decide, by decide, by decide, by decide, by decide, List.forall_mem_nil _⟩

/-- The name of the driver stands in braces. -/
theorem innerValue_driver {drivername : List UInt8} :
    InnerValue (openingBracket :: (drivername ++ [closingBracket])) ↔
      ∃ text, drivername = doubleBrackets text := by
  constructor
  · rintro (⟨-, hhead⟩ | ⟨text, htext⟩)
    · exact absurd rfl hhead
    · exact ⟨text, List.append_cancel_right (List.cons.inj htext).2⟩
  · rintro ⟨text, rfl⟩
    exact .inr ⟨text, rfl⟩

theorem pairsStand_attributes (ci : DtcInfo) :
    PairsStand ci.attributes ↔
      (∃ text, ci.drivername = doubleBrackets text) ∧ InnerValue ci.server ∧ InnerValue ci.port ∧
        InnerValue ci.database ∧ InnerValue ci.username ∧ InnerValue ci.passwordText ∧
        LastValue ci.sslmode := by
  have hzero : InnerValue (ascii "0") := .inl ⟨by decide, by decide⟩
  have hone : InnerValue (ascii "1") := .inl ⟨by decide, by decide⟩
  rw [DtcInfo.attributes, DtcInfo.checkAttribute, ← innerValue_driver]
  split
  · simp only [List.cons_append, List.nil_append, PairsStand, hzero, true_and]
  · split
    · simp only [List.cons_append, List.nil_append, PairsStand, hone, true_and]
    · simp only [List.nil_append, PairsStand]

theorem zero_notMem_connectText (ci : DtcInfo) : 0 ∉ ci.connectText := by
  have h0 := ci.noNul
  have hopt : 0 ∉ ci.xaOptStr := by
    rw [DtcInfo.xaOptStr]
    split
    · decide
    · split <;> decide
  simp only [List.mem_append, not_or] at h0
  obtain ⟨⟨⟨⟨⟨⟨hdriver, hserver⟩, hport⟩, hdatabase⟩, huser⟩, hpassword⟩, hssl⟩ := h0
  simp only [DtcInfo.connectText, List.mem_append, not_or, and_assoc]
  exact ⟨by decide, by decide, hdriver, by decide, by decide, hopt, by decide, hserver, by decide,
    hport, by decide, hdatabase, by decide, huser, by decide, hpassword, by decide, hssl⟩

/-- The attributes are kept if and only if there is room for them and each text can stand where it
is. -/
theorem DtcInfo.keepsAttributes_iff {ci : DtcInfo} {strsize : ℕ} :
    ci.KeepsAttributes strsize ↔ ci.AttributesStand strsize := by
  have hsplit := dconnGetAttributes_joinPairs_iff (attrName_attributes ci)
    (connectText_eq ci ▸ zero_notMem_connectText ci)
  rw [← connectText_eq, pairsStand_attributes] at hsplit
  have hpassword : 0 ∉ ci.passwordText := by
    have h0 := ci.noNul
    simp only [List.mem_append, not_or] at h0
    exact h0.1.2
  have hwritten : ci.createConnectString strsize = some ci.connectText ↔
      0 < ci.xaOpt ∧ ci.connectText.length < strsize := by
    have hpos : 1 < ci.connectText.length := by
      rw [connectText_eq]
      exact one_lt_length_joinPairs _ (attrName_attributes ci _ List.mem_cons_self)
    rw [createConnectString]
    by_cases hopt : ci.xaOpt ≤ 0
    · rw [if_pos hopt]
      exact iff_of_false (by simp) fun h ↦ absurd h.1 (Int8.not_lt.2 hopt)
    · rw [if_neg hopt, Option.some.injEq, List.take_eq_self_iff]
      have hlt : 0 < ci.xaOpt := Int8.not_le.1 hopt
      constructor
      · exact fun h ↦ ⟨hlt, by omega⟩
      · rintro ⟨-, h⟩
        omega
  rw [KeepsAttributes, hsplit, hwritten]
  constructor
  · rintro ⟨⟨hopt, hroom⟩, ⟨hdriver, hserver, hport, hdatabase, huser, hinner, hssl⟩, hread⟩
    exact ⟨hopt, hroom, hdriver, hserver, hport, hdatabase, huser,
      (passwordStands_iff hpassword).1 ⟨hinner, hread⟩, hssl⟩
  · rintro ⟨hopt, hroom, hdriver, hserver, hport, hdatabase, huser, hstands, hssl⟩
    obtain ⟨hinner, hread⟩ := (passwordStands_iff hpassword).2 hstands
    exact ⟨⟨hopt, hroom⟩, ⟨hdriver, hserver, hport, hdatabase, huser, hinner, hssl⟩, hread⟩

/-! ## The two steps -/

/-- Every attribute is kept, by the parser of a resource manager and by the string for recovery, if
and only if the items and the texts are of the kind that needs no quoting. -/
theorem recoveryString_iff (immediateConnectDefault dtclog last : Bool) (entries : List XaEntry)
    (ci : DtcInfo) (strsize : ℕ) :
    KeepsEntries immediateConnectDefault dtclog last entries ∧ ci.KeepsAttributes strsize ↔
      EntriesStand entries ∧ ci.AttributesStand strsize :=
  and_congr keepsEntries_iff DtcInfo.keepsAttributes_iff

/-- `PWD=` with a value of 64 characters. -/
def longEntry : XaEntry where
  name := ⟨ascii "PWD", false⟩
  value := ⟨List.replicate 64 0x78, false⟩
  name_zero := by decide
  name_delim := by decide
  name_equals := by decide
  name_brace := by decide
  value_zero := by decide
  value_plain _ := ⟨by decide, by decide⟩

/-- A connection whose password has a semicolon. -/
def semicolonInfo : DtcInfo where
  drivername := ascii "PostgreSQL Unicode"
  server := ascii "localhost"
  port := ascii "5432"
  database := ascii "db"
  username := ascii "u"
  password := some (ascii "p;w")
  sslmode := ascii "disable"
  xaOpt := 1
  noNul := by decide

/-- A long value is not stored, and a password is read up to its semicolon. -/
theorem not_kept :
    ¬KeepsEntries false false true [longEntry] ∧
      (ascii "PWD", ascii "p") ∈ ((dconnGetAttributes
        (fun calls attr value ↦ calls ++ [(attr, value)]) semicolonInfo.connectText []).map
          Prod.snd).getD [] ∧
      ¬semicolonInfo.KeepsAttributes 1024 := by
  refine ⟨?_, by decide +kernel, ?_⟩
  · rw [keepsEntries_iff]
    rintro ⟨⟨-, hlength⟩, -⟩
    exact absurd hlength (by decide)
  · rw [DtcInfo.keepsAttributes_iff]
    intro h
    exact h.password.1 (by decide)

end PsqlOdbc.Xa
