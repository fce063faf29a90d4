import PsqlOdbc.ConnInfo
import PsqlOdbc.Lib.Doubling
import PsqlOdbc.Statement.BatchExecute
import Mathlib.Algebra.BigOperators.Group.Finset.Piecewise

/-!
# Connection attributes (`pgapi30.c`, `mylog.c`)

`PGAPI_SetConnectAttr` stores the attributes of the driver's own, each in a field of the connection
by a branch of its own, and `PGAPI_GetConnectAttr` reads them.  The levels of the two logs are also
counted for the whole process: `logs_on_off` is told of the level that goes and of the one that comes.

What an application expects are registers, one for each connection and attribute.
-/

namespace PsqlOdbc

open Lib

/-! ## Attributes -/

/-- The attributes from `SQL_ATTR_PGOPT_DEBUG` on, in the order of their numbers. -/
inductive PgoptAttr
  | debug
  | commlog
  | parse
  | useDeclarefetch
  | serverSidePrepare
  | fetch
  | unknownsizes
  | textaslongvarchar
  | unknownsaslongvarchar
  | boolsaschar
  | maxvarcharsize
  | maxlongvarcharsize
  | wcsdebug
  | msjet
  | batchsize
  | ignoretimeout
  deriving DecidableEq, Repr

/-- The bits of the field: a `char`, which has a sign, or an `int`. -/
def PgoptAttr.bits : PgoptAttr → Nat
  | .fetch | .unknownsizes | .maxvarcharsize | .maxlongvarcharsize | .batchsize => 32
  | .debug | .commlog | .parse | .useDeclarefetch | .serverSidePrepare | .textaslongvarchar
  | .unknownsaslongvarchar | .boolsaschar | .wcsdebug | .msjet | .ignoretimeout => 8

/-- The values that the field of an attribute can hold. -/
def PgoptAttr.InRange (attr : PgoptAttr) (value : Int) : Prop :=
  -2 ^ (attr.bits - 1) ≤ value ∧ value < 2 ^ (attr.bits - 1)

instance (attr : PgoptAttr) (value : Int) : Decidable (attr.InRange value) :=
  inferInstanceAs (Decidable (_ ∧ _))

/-- What the attributes use of a `ConnectionClass` and its `ConnInfo`. -/
structure AttrConnection where
  drivers : GlobalValues
  useServerSidePrepare : Int
  allowKeyset : Int
  updatableCursors : Int
  wcsDebug : Int
  ignoreTimeout : Int
  batchSize : Int
  msJet : Int

namespace AttrConnection

/-- The field of an attribute. -/
def field (conn : AttrConnection) : PgoptAttr → Int
  | .debug => conn.drivers.debug
  | .commlog => conn.drivers.commlog
  | .parse => conn.drivers.parse
  | .useDeclarefetch => conn.drivers.useDeclarefetch
  | .serverSidePrepare => conn.useServerSidePrepare
  | .fetch => conn.drivers.fetchMax
  | .unknownsizes => conn.drivers.unknownSizes
  | .textaslongvarchar => conn.drivers.textAsLongvarchar
  | .unknownsaslongvarchar => conn.drivers.unknownsAsLongvarchar
  | .boolsaschar => conn.drivers.boolsAsChar
  | .maxvarcharsize => conn.drivers.maxVarcharSize
  | .maxlongvarcharsize => conn.drivers.maxLongvarcharSize
  | .wcsdebug => conn.wcsDebug
  | .msjet => conn.msJet
  | .batchsize => conn.batchSize
  | .ignoretimeout => conn.ignoreTimeout

/-- `PGAPI_GetConnectAttr`: the value stored, if it succeeds. -/
def pgapiGetConnectAttr (conn : AttrConnection) : PgoptAttr → Option Int
  | .debug => some conn.drivers.debug
  | .commlog => some conn.drivers.commlog
  | .parse => some conn.drivers.parse
  | .useDeclarefetch => some conn.drivers.useDeclarefetch
  | .serverSidePrepare => some conn.useServerSidePrepare
  | .fetch => some conn.drivers.fetchMax
  | .unknownsizes => some conn.drivers.unknownSizes
  | .textaslongvarchar => some conn.drivers.textAsLongvarchar
  | .unknownsaslongvarchar => some conn.drivers.unknownsAsLongvarchar
  | .boolsaschar => some conn.drivers.boolsAsChar
  | .maxvarcharsize => some conn.drivers.maxVarcharSize
  | .maxlongvarcharsize => some conn.drivers.maxLongvarcharSize
  | .msjet => some conn.msJet
  | .batchsize => some conn.batchSize
  | .ignoretimeout => some conn.ignoreTimeout
  -- There is no case for it, and the `UWORD` of its number, 12, is no option that
  -- `PGAPI_GetConnectOption` knows.
  | .wcsdebug => none

end AttrConnection

/-! ## Log counters -/

/-- What `logs_on_off` keeps of one log, with the level that is set globally. -/
structure LogSwitch where
  onCount : Int
  offCount : Int
  level : Int
  globalLevel : Int
  deriving DecidableEq, Repr

/-- The half of `logs_on_off` for one log. -/
def LogSwitch.onOff (cnopen onoff : Int) (log : LogSwitch) : LogSwitch :=
  let log := if onoff ≠ 0 then { log with onCount := log.onCount + cnopen }
    else { log with offCount := log.offCount + cnopen }
  if 0 < log.onCount then
    if log.level < onoff then { log with level := onoff }
    else if log.level < 1 then { log with level := 1 }
    else log
  else if 0 < log.offCount then { log with level := 0 }
  else if 0 < log.globalLevel then { log with level := log.globalLevel }
  else log

/-- The two logs. -/
structure Logs where
  mylog : LogSwitch
  qlog : LogSwitch
  deriving DecidableEq, Repr

/-- `logs_on_off`. -/
def logsOnOff (cnopen mylogOnoff qlogOnoff : Int) (logs : Logs) : Logs where
  mylog := logs.mylog.onOff cnopen mylogOnoff
  qlog := logs.qlog.onOff cnopen qlogOnoff

/-! ## Setting an attribute -/

/-- `CAST_UPTR(SQLCHAR, value)`. -/
def castUptr (value : Int) : Int := wrapUnsigned 8 value

/-- `CAST_PTR(SQLINTEGER, value)`. -/
def castPtr (value : Int) : Int := wrapSigned 32 value

/-- A value stored in a `char`. -/
def toChar (value : Int) : Int := wrapSigned 8 value

/-- `ci_updatable_cursors_set`, with its bits as numbers. -/
def ciUpdatableCursorsSet (conn : AttrConnection) : AttrConnection :=
  { conn with updatableCursors :=
      if conn.allowKeyset ≠ 0 then
        if conn.drivers.lie ≠ 0 ∨ conn.drivers.useDeclarefetch = 0 then 1 + 2 + 8 + 16
        else 1 + 8 + 16
      else 0 }

/-- `PGAPI_SetConnectAttr` for the attributes of the driver. -/
def pgapiSetConnectAttr (conn : AttrConnection) (logs : Logs) (attr : PgoptAttr)
    (value : Int) : Retcode × AttrConnection × Logs :=
  match attr with
  | .debug =>
    let newValue := castUptr value
    if 0 < newValue then
      let logs := logsOnOff (-1) conn.drivers.debug 0 logs
      let conn := { conn with drivers.debug := toChar newValue }
      (.success, conn, logsOnOff 1 conn.drivers.debug 0 logs)
    else if newValue = 0 ∧ 0 < conn.drivers.debug then
      let logs := logsOnOff (-1) conn.drivers.debug 0 logs
      let conn := { conn with drivers.debug := toChar newValue }
      (.success, conn, logsOnOff 1 0 0 logs)
    else (.success, conn, logs)
  | .commlog =>
    let newValue := castUptr value
    if 0 < newValue then
      let logs := logsOnOff (-1) 0 conn.drivers.commlog logs
      let conn := { conn with drivers.commlog := toChar newValue }
      (.success, conn, logsOnOff 1 0 conn.drivers.commlog logs)
    else if newValue = 0 ∧ 0 < conn.drivers.commlog then
      let logs := logsOnOff (-1) 0 conn.drivers.commlog logs
      -- The level that is cleared is the one of the other log.
      let conn := { conn with drivers.debug := toChar newValue }
      (.success, conn, logsOnOff 1 0 0 logs)
    else (.success, conn, logs)
  | .parse => (.success, { conn with drivers.parse := toChar (castUptr value) }, logs)
  | .useDeclarefetch =>
    (.success, ciUpdatableCursorsSet
      { conn with drivers.useDeclarefetch := toChar (castUptr value) }, logs)
  | .serverSidePrepare =>
    (.success, { conn with useServerSidePrepare := toChar (castUptr value) }, logs)
  | .fetch => (.success, { conn with drivers.fetchMax := castPtr value }, logs)
  | .unknownsizes => (.success, { conn with drivers.unknownSizes := castPtr value }, logs)
  | .textaslongvarchar =>
    (.success, { conn with drivers.textAsLongvarchar := toChar (castPtr value) }, logs)
  | .unknownsaslongvarchar =>
    (.success, { conn with drivers.unknownsAsLongvarchar := toChar (castPtr value) }, logs)
  | .boolsaschar => (.success, { conn with drivers.boolsAsChar := toChar (castPtr value) }, logs)
  | .maxvarcharsize => (.success, { conn with drivers.maxVarcharSize := castPtr value }, logs)
  | .maxlongvarcharsize =>
    (.success, { conn with drivers.maxLongvarcharSize := castPtr value }, logs)
  | .wcsdebug => (.success, { conn with wcsDebug := toChar (castPtr value) }, logs)
  | .msjet => (.success, { conn with msJet := toChar (castPtr value) }, logs)
  | .batchsize => (.success, { conn with batchSize := castPtr value }, logs)
  | .ignoretimeout => (.success, { conn with ignoreTimeout := toChar (castPtr value) }, logs)

/-! ## Registers -/

/-- A register for each connection and attribute. -/
abbrev AttrRegisters (ι : Type) := ι → PgoptAttr → Int

variable {ι : Type} [DecidableEq ι]

/-- A register is set. -/
def AttrRegisters.set (registers : AttrRegisters ι) (c : ι) (attr : PgoptAttr) (value : Int) :
    AttrRegisters ι :=
  Function.update registers c (Function.update (registers c) attr value)

/-- The connections of a process, with the logs they share. -/
structure AttrDriver (ι : Type) where
  conns : ι → AttrConnection
  logs : Logs

namespace AttrDriver

/-- What the fields have for the registers. -/
def registers (driver : AttrDriver ι) : AttrRegisters ι := fun c ↦ (driver.conns c).field

/-- `PGAPI_SetConnectAttr` on a connection. -/
def set (driver : AttrDriver ι) (c : ι) (attr : PgoptAttr) (value : Int) : AttrDriver ι :=
  let answer := pgapiSetConnectAttr (driver.conns c) driver.logs attr value
  { conns := Function.update driver.conns c answer.2.1
    logs := answer.2.2 }

end AttrDriver

/-! ## Fields -/

section Fields

variable {conn : AttrConnection} {logs : Logs} {attr : PgoptAttr} {value : Int}

theorem pgapiGetConnectAttr_eq (conn : AttrConnection) (attr : PgoptAttr) :
    conn.pgapiGetConnectAttr attr = if attr = .wcsdebug then none else some (conn.field attr) := by
  cases attr <;> rfl

theorem pgapiSetConnectAttr_success (conn : AttrConnection) (logs : Logs) (attr : PgoptAttr)
    (value : Int) : (pgapiSetConnectAttr conn logs attr value).1 = .success := by
  cases attr with
  | debug | commlog => dsimp only [pgapiSetConnectAttr]; split_ifs <;> rfl
  | _ => rfl

theorem castUptr_nonneg (value : Int) : 0 ≤ castUptr value := Int.emod_nonneg _ (by decide)

theorem toChar_castUptr (hle : -128 ≤ value) (hlt : value < 128) :
    toChar (castUptr value) = value := by
  simp only [toChar, castUptr, wrapSigned, wrapUnsigned]
  omega

theorem castUptr_eq_zero_iff (hle : -128 ≤ value) (hlt : value < 128) :
    castUptr value = 0 ↔ value = 0 := by
  simp only [castUptr, wrapUnsigned]
  omega

theorem castPtr_eq (hle : -2 ^ 31 ≤ value) (hlt : value < 2 ^ 31) : castPtr value = value :=
  wrapSigned_of_lt (by decide) hle hlt

theorem toChar_castPtr (hle : -128 ≤ value) (hlt : value < 128) :
    toChar (castPtr value) = value := by
  rw [castPtr_eq (by omega) (by omega)]
  exact wrapSigned_of_lt (by decide) hle hlt

/-- The calls that store their value: a level that is negative is not cleared, nor is any level of
the communication log. -/
def AttrConnection.Takes (conn : AttrConnection) (attr : PgoptAttr) (value : Int) : Prop :=
  value = 0 → (attr = .debug → 0 ≤ conn.drivers.debug) ∧
    (attr = .commlog → conn.drivers.commlog = 0)

/-- A level of the log is stored and counted. -/
theorem set_debug (hle : -128 ≤ value) (hlt : value < 128) :
    (pgapiSetConnectAttr conn logs .debug value).2 =
      if value = 0 ∧ conn.drivers.debug ≤ 0 then (conn, logs)
      else ({ conn with drivers.debug := value },
        logsOnOff 1 value 0 (logsOnOff (-1) conn.drivers.debug 0 logs)) := by
  have hzero := castUptr_eq_zero_iff hle hlt
  have hnonneg := castUptr_nonneg value
  dsimp only [pgapiSetConnectAttr]
  rw [toChar_castUptr hle hlt]
  by_cases hv : value = 0
  · rw [if_neg (by rw [hzero.2 hv]; exact Int.lt_irrefl 0)]
    by_cases hdebug : 0 < conn.drivers.debug
    · rw [if_pos ⟨hzero.2 hv, hdebug⟩, if_neg (fun h ↦ by omega), hv]
    · rw [if_neg (fun h ↦ hdebug h.2), if_pos ⟨hv, by omega⟩]
  · rw [if_pos (by omega), if_neg (fun h ↦ hv h.1)]

/-- Of the communication log only a level other than zero is. -/
theorem set_commlog (hle : -128 ≤ value) (hlt : value < 128) :
    (pgapiSetConnectAttr conn logs .commlog value).2 =
      if value = 0 then
        if 0 < conn.drivers.commlog then
          ({ conn with drivers.debug := 0 },
            logsOnOff 1 0 0 (logsOnOff (-1) 0 conn.drivers.commlog logs))
        else (conn, logs)
      else ({ conn with drivers.commlog := value },
        logsOnOff 1 0 value (logsOnOff (-1) 0 conn.drivers.commlog logs)) := by
  have hzero := castUptr_eq_zero_iff hle hlt
  have hnonneg := castUptr_nonneg value
  dsimp only [pgapiSetConnectAttr]
  rw [toChar_castUptr hle hlt]
  by_cases hv : value = 0
  · rw [if_neg (by rw [hzero.2 hv]; exact Int.lt_irrefl 0), if_pos hv]
    by_cases hcommlog : 0 < conn.drivers.commlog
    · rw [if_pos ⟨hzero.2 hv, hcommlog⟩, if_pos hcommlog, hv]
    · rw [if_neg (fun h ↦ hcommlog h.2), if_neg hcommlog]
  · rw [if_pos (by omega), if_neg hv]

/-- The other attributes leave the logs alone. -/
theorem set_logs (hdebug : attr ≠ .debug) (hcommlog : attr ≠ .commlog) :
    (pgapiSetConnectAttr conn logs attr value).2.2 = logs := by
  cases attr with
  | debug => exact absurd rfl hdebug
  | commlog => exact absurd rfl hcommlog
  | _ => rfl

/-- They store their value and change no other attribute. -/
theorem field_set_of_ne (hdebug : attr ≠ .debug) (hcommlog : attr ≠ .commlog)
    (hrange : attr.InRange value) :
    (pgapiSetConnectAttr conn logs attr value).2.1.field =
      Function.update conn.field attr value := by
  obtain ⟨hle, hlt⟩ := hrange
  have hptr : attr.bits = 32 → castPtr value = value := by
    intro hbits
    rw [hbits] at hle hlt
    exact castPtr_eq hle hlt
  have huchar : attr.bits = 8 → toChar (castUptr value) = value := by
    intro hbits
    rw [hbits] at hle hlt
    exact toChar_castUptr hle hlt
  have hchar : attr.bits = 8 → toChar (castPtr value) = value := by
    intro hbits
    rw [hbits] at hle hlt
    exact toChar_castPtr hle hlt
  funext other
  cases attr with
  | debug => exact absurd rfl hdebug
  | commlog => exact absurd rfl hcommlog
  | fetch | unknownsizes | maxvarcharsize | maxlongvarcharsize | batchsize =>
    cases other <;> first | exact hptr rfl | rfl
  | parse | useDeclarefetch | serverSidePrepare =>
    cases other <;> first | exact huchar rfl | rfl
  | textaslongvarchar | unknownsaslongvarchar | boolsaschar | wcsdebug | msjet | ignoretimeout =>
    cases other <;> first | exact hchar rfl | rfl

/-- A call stores its value, and no other, just when it takes it. -/
theorem field_set_iff (hrange : attr.InRange value) :
    (pgapiSetConnectAttr conn logs attr value).2.1.field = Function.update conn.field attr value ↔
      conn.Takes attr value := by
  by_cases hdebug : attr = .debug
  · subst hdebug
    obtain ⟨hle, hlt⟩ : -128 ≤ value ∧ value < 128 := hrange
    rw [set_debug hle hlt]
    by_cases hv : value = 0 ∧ conn.drivers.debug ≤ 0
    · rw [if_pos hv]
      constructor
      · intro heq _
        have hfield : conn.drivers.debug = value := congrFun heq .debug
        exact ⟨fun _ ↦ by omega, nofun⟩
      · intro htakes
        have hdebug := (htakes hv.1).1 rfl
        have hfield : conn.field .debug = value := by
          change conn.drivers.debug = value
          omega
        rw [← hfield, Function.update_eq_self]
    · rw [if_neg hv]
      refine iff_of_true ?_ fun hzero ↦ ⟨fun _ ↦ by omega, nofun⟩
      funext other
      cases other <;> rfl
  by_cases hcommlog : attr = .commlog
  · subst hcommlog
    obtain ⟨hle, hlt⟩ : -128 ≤ value ∧ value < 128 := hrange
    rw [set_commlog hle hlt]
    by_cases hv : value = 0
    · subst hv
      rw [if_pos rfl]
      constructor
      · intro heq _
        refine ⟨nofun, fun _ ↦ ?_⟩
        -- Neither of the two branches stores the level.
        split_ifs at heq
        · exact congrFun heq .commlog
        · exact congrFun heq .commlog
      · intro htakes
        have hlevel : conn.field .commlog = 0 := (htakes rfl).2 rfl
        rw [if_neg (by rw [show conn.drivers.commlog = 0 from hlevel]; exact Int.lt_irrefl 0)]
        rw [← hlevel, Function.update_eq_self]
    · rw [if_neg hv]
      refine iff_of_true ?_ fun hzero ↦ absurd hzero hv
      funext other
      cases other <;> rfl
  · exact iff_of_true (field_set_of_ne hdebug hcommlog hrange)
      fun _ ↦ ⟨fun h ↦ absurd h hdebug, fun h ↦ absurd h hcommlog⟩

end Fields

/-! ## Calls on registers -/

namespace AttrDriver

variable {driver : AttrDriver ι} {c : ι} {attr : PgoptAttr} {value : Int}

theorem registers_set (driver : AttrDriver ι) (c : ι) (attr : PgoptAttr) (value : Int) :
    (driver.set c attr value).registers = Function.update driver.registers c
      (pgapiSetConnectAttr (driver.conns c) driver.logs attr value).2.1.field := by
  funext d
  rcases eq_or_ne d c with rfl | hne
  · simp [registers, set]
  · simp [registers, set, Function.update_of_ne hne]

/-- A call on the fields is one on the registers just when the connection takes the value. -/
theorem registers_set_iff (hrange : attr.InRange value) :
    (driver.set c attr value).registers = driver.registers.set c attr value ↔
      (driver.conns c).Takes attr value := by
  rw [registers_set, AttrRegisters.set, (Function.update_injective _ c).eq_iff]
  exact field_set_iff hrange

theorem registers_set_at (registers : AttrRegisters ι) (c : ι) (attr other : PgoptAttr)
    (value : Int) : (fun d ↦ registers.set c attr value d other) =
      if other = attr then Function.update (fun d ↦ registers d other) c value
      else fun d ↦ registers d other := by
  funext d
  rcases eq_or_ne d c with rfl | hne
  · rcases eq_or_ne other attr with rfl | hother
    · simp [AttrRegisters.set]
    · simp [AttrRegisters.set, hother]
  · split_ifs <;> simp [AttrRegisters.set, Function.update_of_ne hne]

end AttrDriver

/-! ## Counters -/

section Counters

variable [Fintype ι] {log : LogSwitch} {levels : ι → Int}

/-- How many connections have a level that is on, or not. -/
def levelsWith (p : Int → Prop) [DecidablePred p] (levels : ι → Int) : Int :=
  ∑ c, if p (levels c) then 1 else 0

theorem levelsWith_update (p : Int → Prop) [DecidablePred p] (levels : ι → Int) (c : ι)
    (value : Int) : levelsWith p (Function.update levels c value) =
      levelsWith p levels - (if p (levels c) then 1 else 0) + if p value then 1 else 0 := by
  have hupdate : ∀ d, (if p (Function.update levels c value d) then (1 : Int) else 0) =
      Function.update (fun d ↦ if p (levels d) then (1 : Int) else 0) c
        (if p value then 1 else 0) d := by
    intro d
    rcases eq_or_ne d c with rfl | hne
    · rw [Function.update_self, Function.update_self]
    · rw [Function.update_of_ne hne, Function.update_of_ne hne]
  rw [levelsWith, levelsWith, Finset.sum_congr rfl fun d _ ↦ hupdate d,
    Finset.sum_update_of_mem (Finset.mem_univ c),
    Finset.sum_eq_add_sum_sdiff_singleton_of_mem (Finset.mem_univ c)
      fun d ↦ if p (levels d) then (1 : Int) else 0]
  omega

/-- The counters of a log have the numbers of connections with the log on and off. -/
structure LogSwitch.Counts (log : LogSwitch) (levels : ι → Int) : Prop where
  on : log.onCount = levelsWith (· ≠ 0) levels
  off : log.offCount = levelsWith (· = 0) levels

theorem LogSwitch.onOff_onCount (cnopen onoff : Int) (log : LogSwitch) :
    (log.onOff cnopen onoff).onCount = log.onCount + if onoff ≠ 0 then cnopen else 0 := by
  unfold LogSwitch.onOff
  by_cases h : onoff ≠ 0
  · simp only [if_pos h]
    split_ifs <;> rfl
  · simp only [if_neg h, Int.add_zero]
    split_ifs <;> rfl

theorem LogSwitch.onOff_offCount (cnopen onoff : Int) (log : LogSwitch) :
    (log.onOff cnopen onoff).offCount = log.offCount + if onoff = 0 then cnopen else 0 := by
  unfold LogSwitch.onOff
  by_cases h : onoff = 0
  · simp only [if_pos h, if_neg (not_not.2 h)]
    split_ifs <;> rfl
  · simp only [if_neg h, if_pos h, Int.add_zero]
    split_ifs <;> rfl

/-- The level of a connection goes and another comes. -/
theorem LogSwitch.Counts.update (hcounts : log.Counts levels) (c : ι) (value : Int) :
    ((log.onOff (-1) (levels c)).onOff 1 value).Counts (Function.update levels c value) := by
  have hon := hcounts.on
  have hoff := hcounts.off
  constructor
  · rw [LogSwitch.onOff_onCount, LogSwitch.onOff_onCount, levelsWith_update, hon]
    split_ifs <;> omega
  · rw [LogSwitch.onOff_offCount, LogSwitch.onOff_offCount, levelsWith_update, hoff]
    split_ifs <;> omega

omit [DecidableEq ι] in
/-- A connection that goes and comes with the other log counts for nothing in this one. -/
theorem LogSwitch.Counts.onOff_zero (hcounts : log.Counts levels) :
    ((log.onOff (-1) 0).onOff 1 0).Counts levels := by
  constructor
  · rw [LogSwitch.onOff_onCount, LogSwitch.onOff_onCount, hcounts.on]
    simp
  · rw [LogSwitch.onOff_offCount, LogSwitch.onOff_offCount, hcounts.off]
    exact Int.neg_add_cancel_right _ _

namespace AttrDriver

variable {driver : AttrDriver ι} {c : ι} {attr : PgoptAttr} {value : Int}

/-- The counters of the two logs are right. -/
structure Counted (driver : AttrDriver ι) : Prop where
  mylog : driver.logs.mylog.Counts fun c ↦ driver.registers c .debug
  qlog : driver.logs.qlog.Counts fun c ↦ driver.registers c .commlog

/-- A value that is taken is counted. -/
theorem Counted.set (hcounted : driver.Counted) (hrange : attr.InRange value)
    (htakes : (driver.conns c).Takes attr value) : (driver.set c attr value).Counted := by
  have hregisters := (@registers_set_iff _ _ driver c attr value hrange).2 htakes
  have hat := registers_set_at driver.registers c attr
  have hmylog := hcounted.mylog
  have hqlog := hcounted.qlog
  by_cases hdebug : attr = .debug
  · subst hdebug
    have hlogs : (driver.set c .debug value).logs = _ :=
      congrArg Prod.snd (@set_debug (driver.conns c) _ _ hrange.1 hrange.2)
    refine ⟨?_, ?_⟩ <;> rw [hregisters, hat, hlogs]
    · rw [if_pos rfl]
      by_cases hv : value = 0 ∧ (driver.conns c).drivers.debug ≤ 0
      · have hlevel : driver.registers c .debug = value := by
          have hnonneg := (htakes hv.1).1 rfl
          change (driver.conns c).drivers.debug = value
          omega
        rw [if_pos hv, ← hlevel, Function.update_eq_self]
        exact hmylog
      · rw [if_neg hv]
        exact hmylog.update c value
    · rw [if_neg (show ¬PgoptAttr.commlog = .debug by decide)]
      split_ifs
      · exact hqlog
      · exact hqlog.onOff_zero
  by_cases hcommlog : attr = .commlog
  · subst hcommlog
    have hlogs : (driver.set c .commlog value).logs = _ :=
      congrArg Prod.snd (@set_commlog (driver.conns c) _ _ hrange.1 hrange.2)
    by_cases hv : value = 0
    · have hlevel : driver.registers c .commlog = 0 := (htakes hv).2 rfl
      have hnot : ¬0 < (driver.conns c).drivers.commlog := by
        change ¬0 < driver.registers c .commlog
        omega
      rw [if_pos hv, if_neg hnot] at hlogs
      refine ⟨?_, ?_⟩ <;> rw [hregisters, hat, hlogs]
      · rw [if_neg (by decide)]
        exact hmylog
      · rw [if_pos rfl, hv, ← hlevel, Function.update_eq_self]
        exact hqlog
    · rw [if_neg hv] at hlogs
      refine ⟨?_, ?_⟩ <;> rw [hregisters, hat, hlogs]
      · rw [if_neg (by decide)]
        exact hmylog.onOff_zero
      · rw [if_pos rfl]
        exact hqlog.update c value
  · have hlogs : (driver.set c attr value).logs = driver.logs := set_logs hdebug hcommlog
    refine ⟨?_, ?_⟩ <;> rw [hregisters, hat, hlogs]
    · rw [if_neg (Ne.symm hdebug)]
      exact hmylog
    · rw [if_neg (Ne.symm hcommlog)]
      exact hqlog

end AttrDriver

/-! ## Runs -/

/-- A call of `PGAPI_SetConnectAttr` or `PGAPI_GetConnectAttr` on a connection. -/
inductive AttrCall (ι : Type)
  | set (c : ι) (attr : PgoptAttr) (value : Int)
  | get (c : ι) (attr : PgoptAttr)

/-- The value that is set is one that the field can hold. -/
def AttrCall.InRange : AttrCall ι → Prop
  | .set _ attr value => attr.InRange value
  | .get _ _ => True

namespace AttrDriver

/-- The calls of a run are calls on the registers: a value that is set is in its register and every
other register is as before, a value that is read is the one in the register, and the counters stay
right. -/
def Independent : AttrDriver ι → AttrRegisters ι → List (AttrCall ι) → Prop
  | _, _, [] => True
  | driver, registers, .set c attr value :: calls =>
    (pgapiSetConnectAttr (driver.conns c) driver.logs attr value).1 = .success ∧
      (driver.set c attr value).registers = registers.set c attr value ∧
      (driver.Counted → (driver.set c attr value).Counted) ∧
      (driver.set c attr value).Independent (registers.set c attr value) calls
  | driver, registers, .get c attr :: calls =>
    (driver.conns c).pgapiGetConnectAttr attr = some (registers c attr) ∧
      driver.Independent registers calls

/-- Every value that is set is one the connection takes, and the one attribute that cannot be read
is not. -/
def AllTaken : AttrDriver ι → List (AttrCall ι) → Prop
  | _, [] => True
  | driver, .set c attr value :: calls =>
    (driver.conns c).Takes attr value ∧ (driver.set c attr value).AllTaken calls
  | driver, .get _ attr :: calls => attr ≠ .wcsdebug ∧ driver.AllTaken calls

/-- The attributes are independent registers just in the runs whose values are all taken. -/
theorem independent_iff (driver : AttrDriver ι) (calls : List (AttrCall ι))
    (hrange : ∀ call ∈ calls, call.InRange) :
    driver.Independent driver.registers calls ↔ driver.AllTaken calls := by
  induction calls generalizing driver with
  | nil => exact Iff.rfl
  | cons call calls ih =>
    have htail : ∀ call ∈ calls, call.InRange := fun call hcall ↦
      hrange call (List.mem_cons_of_mem _ hcall)
    cases call with
    | get c attr =>
      have hget : (driver.conns c).pgapiGetConnectAttr attr = some (driver.registers c attr) ↔
          attr ≠ .wcsdebug := by
        rw [pgapiGetConnectAttr_eq]
        split_ifs with h
        · exact iff_of_false nofun fun hne ↦ hne h
        · exact iff_of_true rfl h
      exact and_congr hget (ih driver htail)
    | set c attr value =>
      have hvalue : attr.InRange value := hrange (.set c attr value) List.mem_cons_self
      constructor
      · rintro ⟨-, hregisters, -, hrest⟩
        refine ⟨(registers_set_iff hvalue).1 hregisters, ?_⟩
        rw [← hregisters] at hrest
        exact (ih _ htail).1 hrest
      · rintro ⟨htakes, hrest⟩
        have hregisters := (registers_set_iff hvalue).2 htakes
        refine ⟨pgapiSetConnectAttr_success _ _ _ _, hregisters,
          fun hcounted ↦ hcounted.set hvalue htakes, ?_⟩
        rw [← hregisters]
        exact (ih _ htail).2 hrest

/-- A connection with both logs on, and both counted. -/
def bothLogs : AttrDriver Unit where
  conns _ :=
    { drivers :=
        { drivername := none
          fetchMax := 100
          unknownSizes := 0
          maxVarcharSize := 255
          maxLongvarcharSize := 8190
          debug := 2
          commlog := 1
          uniqueIndex := 1
          useDeclarefetch := 0
          textAsLongvarchar := 1
          unknownsAsLongvarchar := 0
          boolsAsChar := 1
          lie := 0
          parse := 0
          extraSystablePrefixes := ⟨[], by decide, CharArray.zero_notMem_nil⟩
          protocol := ⟨[], by decide, CharArray.zero_notMem_nil⟩ }
      useServerSidePrepare := 1
      allowKeyset := 1
      updatableCursors := 0
      wcsDebug := 0
      ignoreTimeout := 0
      batchSize := 100
      msJet := 0 }
  logs :=
    { mylog := { onCount := 1, offCount := 0, level := 2, globalLevel := 0 }
      qlog := { onCount := 1, offCount := 0, level := 1, globalLevel := 0 } }

/-- The levels are raised, and the one of the log file is cleared. -/
theorem independent_levels : bothLogs.Independent bothLogs.registers
    [.set () .debug 3, .set () .commlog 2, .set () .debug 0, .get () .debug, .get () .commlog] := by
  refine (independent_iff bothLogs _ ?_).2 ?_
  · intro call hcall
    simp only [List.mem_cons, List.not_mem_nil, or_false] at hcall
    rcases hcall with rfl | rfl | rfl | rfl | rfl
    · exact ⟨by decide, by decide⟩
    · exact ⟨by decide, by decide⟩
    · exact ⟨by decide, by decide⟩
    · trivial
    · trivial
  · refine ⟨fun h ↦ absurd h (by decide), fun h ↦ absurd h (by decide), ?_, by decide, by decide,
      trivial⟩
    exact fun _ ↦ ⟨fun _ ↦ by decide, nofun⟩

/-- The level of the communication log cannot be cleared.  The one of the other log is, and the
counters have it as on. -/
theorem commlog_not_cleared :
    bothLogs.Counted ∧ PgoptAttr.InRange .commlog 0 ∧
      ((bothLogs.set () .commlog 0).conns ()).pgapiGetConnectAttr .commlog = some 1 ∧
      ((bothLogs.set () .commlog 0).conns ()).pgapiGetConnectAttr .debug = some 0 ∧
      (bothLogs.set () .commlog 0).logs.mylog.onCount = 1 ∧
      (bothLogs.set () .commlog 0).logs.qlog.onCount = 0 ∧
      ¬bothLogs.Independent bothLogs.registers [.set () .commlog 0] := by
  refine ⟨⟨⟨by decide, by decide⟩, ⟨by decide, by decide⟩⟩, by decide, rfl, rfl, rfl, rfl, ?_⟩
  rintro ⟨-, hregisters, -⟩
  have hcommlog : (1 : Int) = 0 := congrFun (congrFun hregisters ()) .commlog
  exact absurd hcommlog (by decide)

end AttrDriver

end Counters

end PsqlOdbc
