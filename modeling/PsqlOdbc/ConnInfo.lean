import PsqlOdbc.DlgSpecific
import PsqlOdbc.ExtraOptions

/-!
# Connection information (`psqlodbc.h`, `dlg_specific.c`)

A `ConnInfo` has the settings of a connection.  `makeConnectString` makes a connection string of
them, in full if there is room for it and otherwise abbreviated, and `CC_copy_conninfo` copies them,
field by field, to a `ConnInfo` that is cleared first.
-/

namespace PsqlOdbc

open Lib

/-! ## Settings -/

/-- An array of characters with a text in it. -/
structure CharArray (size : Nat) where
  text : List UInt8
  ends : text.length < size
  noNul : 0 ∉ text
  deriving DecidableEq

namespace CharArray

variable {size : Nat}

/-- `strncpy_null` from an array to one of the same size. -/
def strncpyNull (src : CharArray size) : CharArray size where
  text := src.text.take (size - 1)
  ends := by
    have hle := List.length_take_le (size - 1) src.text
    have hends := src.ends
    omega
  noNul h := src.noNul (List.mem_of_mem_take h)

theorem zero_notMem_nil : (0 : UInt8) ∉ ([] : List UInt8) := List.not_mem_nil

/-- An array that is cleared. -/
def cleared (src : CharArray size) : CharArray size where
  text := []
  ends := Nat.zero_lt_of_lt src.ends
  noNul := zero_notMem_nil

/-- An array that ends behind its text has room for the same text. -/
@[simp] theorem strncpyNull_eq (src : CharArray size) : src.strncpyNull = src := by
  have htake : src.text.take (size - 1) = src.text :=
    List.take_of_length_le (Nat.le_sub_one_of_lt src.ends)
  cases src
  simpa [strncpyNull] using htake

@[simp] theorem cleared_text (src : CharArray size) : src.cleared.text = [] := rfl

end CharArray

def smallRegistryLen : Nat := 10
def mediumSmallRegistryLen : Nat := 16
def mediumRegistryLen : Nat := 1024
def largeRegistryLen : Nat := 4096
def maxConnectString : Nat := 4096

/-- The arrays of a `FederatedAuthConfig`. -/
inductive FederatedItem
  | idpEndpoint
  | idpPort
  | idpUsername
  | idpPassword
  | iamRoleArn
  | iamIdpArn
  | httpClientSocketTimeout
  | httpClientConnectTimeout
  | relayingPartyId
  | appId
  deriving DecidableEq, Repr

/-- A `FederatedAuthConfig`, with the sizes that its arrays have. -/
structure FederatedAuthConfig (size : FederatedItem → Nat) where
  idpEndpoint : CharArray (size .idpEndpoint)
  idpPort : CharArray (size .idpPort)
  idpUsername : CharArray (size .idpUsername)
  idpPassword : CharArray (size .idpPassword)
  iamRoleArn : CharArray (size .iamRoleArn)
  iamIdpArn : CharArray (size .iamIdpArn)
  httpClientSocketTimeout : CharArray (size .httpClientSocketTimeout)
  httpClientConnectTimeout : CharArray (size .httpClientConnectTimeout)
  relayingPartyId : CharArray (size .relayingPartyId)
  appId : CharArray (size .appId)

/-- `GLOBAL_VALUES`. -/
structure GlobalValues where
  drivername : PgName
  fetchMax : Int
  unknownSizes : Int
  maxVarcharSize : Int
  maxLongvarcharSize : Int
  debug : Int
  commlog : Int
  uniqueIndex : Int
  useDeclarefetch : Int
  textAsLongvarchar : Int
  unknownsAsLongvarchar : Int
  boolsAsChar : Int
  lie : Int
  parse : Int
  extraSystablePrefixes : CharArray mediumRegistryLen
  protocol : CharArray smallRegistryLen

/-- A `ConnInfo`. -/
structure ConnInfo (size : FederatedItem → Nat) extends ExtraInfo where
  dsn : CharArray mediumRegistryLen
  desc : CharArray mediumRegistryLen
  drivername : CharArray mediumRegistryLen
  server : CharArray mediumRegistryLen
  database : CharArray mediumRegistryLen
  authtype : CharArray mediumSmallRegistryLen
  username : CharArray mediumRegistryLen
  password : PgName
  iamHost : CharArray mediumRegistryLen
  region : CharArray mediumRegistryLen
  port : CharArray smallRegistryLen
  sslmode : CharArray mediumSmallRegistryLen
  tokenExpiration : CharArray smallRegistryLen
  onlyread : CharArray smallRegistryLen
  fakeOidIndex : CharArray smallRegistryLen
  showOidColumn : CharArray smallRegistryLen
  rowVersioning : CharArray smallRegistryLen
  showSystemTables : CharArray smallRegistryLen
  translationDll : CharArray mediumRegistryLen
  translationOption : CharArray smallRegistryLen
  secretId : CharArray mediumRegistryLen
  federationCfg : FederatedAuthConfig size
  limitlessEnabled : Int
  limitlessMode : CharArray mediumRegistryLen
  limitlessMonitorIntervalMs : Int
  limitlessServiceId : CharArray mediumRegistryLen
  logDir : CharArray mediumRegistryLen
  rdsLoggingEnabled : Int
  rdsLogThreshold : Int
  passwordRequired : Int
  connSettingsInStr : Bool
  pqoptInStr : Bool
  connSettings : PgName
  pqopt : PgName
  allowKeyset : Int
  updatableCursors : Int
  lfConversion : Int
  trueIsMinus1 : Int
  int8As : Int
  byteaAsLongvarbinary : Int
  useServerSidePrepare : Int
  lowerCaseIdentifier : Int
  rollbackOnError : Int
  wcsDebug : Int
  numericAs : Int
  optionalErrors : Int
  ignoreTimeout : Int
  fetchRefcursors : Int
  keepaliveIdle : Int
  keepaliveInterval : Int
  batchSize : Int
  enableFailover : Int
  failoverMode : CharArray mediumRegistryLen
  readerHostSelectorStrategy : CharArray mediumRegistryLen
  hostPattern : CharArray mediumRegistryLen
  clusterId : CharArray mediumRegistryLen
  topologyRefresh : UInt32
  topologyHighRefresh : UInt32
  ignoreTopologyRefresh : UInt32
  failoverTimeout : UInt32
  drivers : GlobalValues

variable {size : FederatedItem → Nat}

/-! ## Copying -/

/-- `copy_globals`. -/
def copyGlobals (src : GlobalValues) : GlobalValues where
  drivername := src.drivername
  fetchMax := src.fetchMax
  unknownSizes := src.unknownSizes
  maxVarcharSize := src.maxVarcharSize
  maxLongvarcharSize := src.maxLongvarcharSize
  debug := src.debug
  commlog := src.commlog
  uniqueIndex := src.uniqueIndex
  useDeclarefetch := src.useDeclarefetch
  textAsLongvarchar := src.textAsLongvarchar
  unknownsAsLongvarchar := src.unknownsAsLongvarchar
  boolsAsChar := src.boolsAsChar
  lie := src.lie
  parse := src.parse
  extraSystablePrefixes := src.extraSystablePrefixes.strncpyNull
  protocol := src.protocol.strncpyNull

/-- `CC_copy_conninfo`: what it does not copy is as `pg_memset` leaves it. -/
def ccCopyConninfo (sci : ConnInfo size) : ConnInfo size where
  dsn := sci.dsn.strncpyNull
  desc := sci.desc.strncpyNull
  drivername := sci.drivername.strncpyNull
  server := sci.server.strncpyNull
  database := sci.database.strncpyNull
  authtype := sci.authtype.strncpyNull
  username := sci.username.strncpyNull
  password := sci.password
  iamHost := sci.iamHost.strncpyNull
  region := sci.region.strncpyNull
  port := sci.port.strncpyNull
  tokenExpiration := sci.tokenExpiration.strncpyNull
  secretId := sci.secretId.strncpyNull
  limitlessEnabled := sci.limitlessEnabled
  limitlessMode := sci.limitlessMode.strncpyNull
  limitlessMonitorIntervalMs := sci.limitlessMonitorIntervalMs
  limitlessServiceId := sci.limitlessServiceId.strncpyNull
  rdsLoggingEnabled := sci.rdsLoggingEnabled
  rdsLogThreshold := sci.rdsLogThreshold
  logDir := sci.logDir.strncpyNull
  federationCfg :=
    { idpEndpoint := sci.federationCfg.idpEndpoint.strncpyNull
      idpPort := sci.federationCfg.idpPort.strncpyNull
      iamRoleArn := sci.federationCfg.iamRoleArn.strncpyNull
      iamIdpArn := sci.federationCfg.iamIdpArn.strncpyNull
      idpUsername := sci.federationCfg.idpUsername.strncpyNull
      idpPassword := sci.federationCfg.idpPassword.strncpyNull
      httpClientSocketTimeout := sci.federationCfg.httpClientSocketTimeout.strncpyNull
      httpClientConnectTimeout := sci.federationCfg.httpClientConnectTimeout.strncpyNull
      -- These two are not copied, though the connection string has them.
      relayingPartyId := sci.federationCfg.relayingPartyId.cleared
      appId := sci.federationCfg.appId.cleared }
  sslmode := sci.sslmode.strncpyNull
  onlyread := sci.onlyread.strncpyNull
  fakeOidIndex := sci.fakeOidIndex.strncpyNull
  showOidColumn := sci.showOidColumn.strncpyNull
  rowVersioning := sci.rowVersioning.strncpyNull
  showSystemTables := sci.showSystemTables.strncpyNull
  translationDll := sci.translationDll.strncpyNull
  translationOption := sci.translationOption.strncpyNull
  passwordRequired := sci.passwordRequired
  connSettings := sci.connSettings
  -- Nor are these, nor is `wcs_debug`.
  connSettingsInStr := false
  pqoptInStr := false
  pqopt := none
  wcsDebug := 0
  allowKeyset := sci.allowKeyset
  updatableCursors := sci.updatableCursors
  lfConversion := sci.lfConversion
  trueIsMinus1 := sci.trueIsMinus1
  int8As := sci.int8As
  numericAs := sci.numericAs
  optionalErrors := sci.optionalErrors
  byteaAsLongvarbinary := sci.byteaAsLongvarbinary
  useServerSidePrepare := sci.useServerSidePrepare
  lowerCaseIdentifier := sci.lowerCaseIdentifier
  rollbackOnError := sci.rollbackOnError
  forceAbbrevConnstr := sci.forceAbbrevConnstr
  bdeEnvironment := sci.bdeEnvironment
  fakeMss := sci.fakeMss
  cvtNullDateString := sci.cvtNullDateString
  accessibleOnly := sci.accessibleOnly
  ignoreRoundTripTime := sci.ignoreRoundTripTime
  disableKeepalive := sci.disableKeepalive
  disableConvertFunc := sci.disableConvertFunc
  extraOpts := sci.extraOpts
  keepaliveIdle := sci.keepaliveIdle
  keepaliveInterval := sci.keepaliveInterval
  batchSize := sci.batchSize
  ignoreTimeout := sci.ignoreTimeout
  fetchRefcursors := sci.fetchRefcursors
  enableFailover := sci.enableFailover
  failoverMode := sci.failoverMode.strncpyNull
  readerHostSelectorStrategy := sci.readerHostSelectorStrategy.strncpyNull
  hostPattern := sci.hostPattern.strncpyNull
  clusterId := sci.clusterId.strncpyNull
  topologyRefresh := sci.topologyRefresh
  topologyHighRefresh := sci.topologyHighRefresh
  ignoreTopologyRefresh := sci.ignoreTopologyRefresh
  failoverTimeout := sci.failoverTimeout
  drivers := copyGlobals sci.drivers

/-! ## The texts of a connection string -/

/-- `%d`. -/
def printfInt (n : Int) : List UInt8 := printfPrecision 1 n

/-- `%u` of an `int`. -/
def printfUInt (n : Int) : List UInt8 := decimals 1 (n % 2 ^ 32).toNat

/-- `%x`. -/
def printfHex (n : BitVec 32) : List UInt8 := (hexadecimals 1 n.toNat).map toLower

/-- Names with their values, each of them with the delimiter behind it. -/
def attributes (items : List (String × List UInt8)) : List UInt8 :=
  items.flatMap fun item ↦ ascii item.1 ++ equalsSign :: item.2 ++ [attributeDelimiter]

/-- `abbrev_sslmode`; `mem` is what there is in the array, which a mode that has no abbreviation
leaves there. -/
def abbrevSslmode (mem sslmode : List UInt8) : List UInt8 :=
  match sslmode with
  | [] => mem
  | c :: rest =>
    if c = 0x64 ∨ c = 0x61 ∨ c = 0x70 ∨ c = 0x72 then [c]
    else if c = 0x76 then
      if rest.head? = some 0x66 ∨ rest.head? = some 0x63 then c :: rest.take 1
      else if strnicmpEq sslmode (ascii "verify_") then c :: (sslmode.drop 7).take 1
      else sslmode.take (mediumSmallRegistryLen - 1)
    else mem

/-- `SAFE_NAME` of the encoded password; what there is in the array before does not matter, for
`encode` ends the text it writes. -/
def encodedItem (password : PgName) : Option (List UInt8) :=
  (encode password (List.replicate largeRegistryLen 0)).bind (Lib.cstr · 0)

namespace ConnInfo

/-- `makeKeepaliveConnectString`, in an array of 64 characters. -/
def makeKeepaliveConnectString (ci : ConnInfo size) (abbreviate : Bool) : List UInt8 :=
  if ci.disableKeepalive ≠ 0 then []
  else
    let buf := if 0 ≤ ci.keepaliveIdle then
        (attributes [(if abbreviate then "D1" else "KeepaliveTime",
          printfUInt ci.keepaliveIdle)]).take 63
      else []
    if 0 ≤ ci.keepaliveInterval then
      buf ++ (attributes [(if abbreviate then "D2" else "KeepaliveInterval",
        printfUInt ci.keepaliveInterval)]).take (63 - buf.length)
    else buf

/-- Fundamental info. -/
def fundamentalText (ci : ConnInfo size) : List UInt8 :=
  attributes
    [if ci.dsn.text ≠ [] then ("DSN", ci.dsn.text) else ("DRIVER", ci.drivername.text),
      ("DATABASE", ci.database.text),
      ("SERVER", ci.server.text),
      ("PORT", ci.port.text)]

def authText (ci : ConnInfo size) (encoded : List UInt8) : List UInt8 :=
  attributes
    [("AUTHTYPE", ci.authtype.text),
      ("UID", ci.username.text),
      ("PWD", encoded),
      ("IAMHOST", ci.iamHost.text),
      ("REGION", ci.region.text),
      ("TOKENEXPIRATION", ci.tokenExpiration.text),
      ("IDPENDPOINT", ci.federationCfg.idpEndpoint.text),
      ("IDPPORT", ci.federationCfg.idpPort.text),
      ("IDPUSERNAME", ci.federationCfg.idpUsername.text),
      ("IDPPASSWORD", ci.federationCfg.idpPassword.text),
      ("IDPARN", ci.federationCfg.iamIdpArn.text),
      ("IDPROLEARN", ci.federationCfg.iamRoleArn.text),
      ("SOCKETTIMEOUT", ci.federationCfg.httpClientSocketTimeout.text),
      ("CONNTIMEOUT", ci.federationCfg.httpClientConnectTimeout.text),
      ("RELAYINGPARTYID", ci.federationCfg.relayingPartyId.text),
      ("APPID", ci.federationCfg.appId.text),
      ("SECRETID", ci.secretId.text)]

def limitlessText (ci : ConnInfo size) : List UInt8 :=
  attributes
    [("LIMITLESSENABLED", printfInt ci.limitlessEnabled),
      ("LIMITLESSMODE", ci.limitlessMode.text),
      ("LIMITLESSMONITORINTERVALMS", printfUInt ci.limitlessMonitorIntervalMs),
      ("LIMITLESSSERVICEID", ci.limitlessServiceId.text)]

def failoverText (ci : ConnInfo size) : List UInt8 :=
  attributes
    [("CLUSTERID", ci.clusterId.text),
      ("ENABLECLUSTERFAILOVER", printfInt ci.enableFailover),
      ("FAILOVERMODE", ci.failoverMode.text),
      ("FAILOVERTIMEOUT", decimals 1 ci.failoverTimeout.toNat),
      ("HOSTPATTERN", ci.hostPattern.text),
      ("IGNORETOPOLOGYREQUEST", decimals 1 ci.ignoreTopologyRefresh.toNat),
      ("READERHOSTSELECTORSTRATEGY", ci.readerHostSelectorStrategy.text),
      ("TOPOLOGYHIGHREFRESHRATE", decimals 1 ci.topologyHighRefresh.toNat),
      ("TOPOLOGYREFRESHRATE", decimals 1 ci.topologyRefresh.toNat)]

/-- The value of the protocol setting. -/
def protocolAnd (ci : ConnInfo size) : List UInt8 :=
  if 0 ≤ ci.rollbackOnError then ascii "7.4-" ++ printfInt ci.rollbackOnError else ascii "7.4"

/-- The extra info in full, behind the delimiter at its beginning; `connset` and `pqopt` are the
two settings in brackets. -/
def fullText (ci : ConnInfo size) (connset pqopt : List UInt8) : List UInt8 :=
  attributes
    [("SSLmode", ci.sslmode.text),
      ("ReadOnly", ci.onlyread.text),
      ("Protocol", ci.protocolAnd),
      ("FakeOidIndex", ci.fakeOidIndex.text),
      ("ShowOidColumn", ci.showOidColumn.text),
      ("RowVersioning", ci.rowVersioning.text),
      ("ShowSystemTables", ci.showSystemTables.text)] ++
  connset ++
  attributes
    [("Fetch", printfInt ci.drivers.fetchMax),
      ("UnknownSizes", printfInt ci.drivers.unknownSizes),
      ("MaxVarcharSize", printfInt ci.drivers.maxVarcharSize),
      ("MaxLongVarcharSize", printfInt ci.drivers.maxLongvarcharSize),
      ("Debug", printfInt ci.drivers.debug),
      ("CommLog", printfInt ci.drivers.commlog),
      ("UseDeclareFetch", printfInt ci.drivers.useDeclarefetch),
      ("TextAsLongVarchar", printfInt ci.drivers.textAsLongvarchar),
      ("UnknownsAsLongVarchar", printfInt ci.drivers.unknownsAsLongvarchar),
      ("BoolsAsChar", printfInt ci.drivers.boolsAsChar),
      ("Parse", printfInt ci.drivers.parse),
      ("ExtraSysTablePrefixes", ci.drivers.extraSystablePrefixes.text),
      ("LFConversion", printfInt ci.lfConversion),
      ("UpdatableCursors", printfInt ci.allowKeyset),
      ("TrueIsMinus1", printfInt ci.trueIsMinus1),
      ("BI", printfInt ci.int8As),
      ("ByteaAsLongVarBinary", printfInt ci.byteaAsLongvarbinary),
      ("UseServerSidePrepare", printfInt ci.useServerSidePrepare),
      ("LowerCaseIdentifier", printfInt ci.lowerCaseIdentifier)] ++
  pqopt ++
  ci.makeKeepaliveConnectString false ++
  attributes
    [("D6", printfInt ci.numericAs),
      ("OptionalErrors", printfInt ci.optionalErrors),
      ("FetchRefcursors", printfInt ci.fetchRefcursors)]

/-- The flag that stands for the settings that are on. -/
def abbreviateFlag (ci : ConnInfo size) : BitVec 32 :=
  let settings : List (Bool × Nat) :=
    [(ci.allowKeyset ≠ 0, 1),
      (ci.lfConversion ≠ 0, 0),
      (ci.drivers.uniqueIndex ≠ 0, 3),
      (ci.drivers.unknownSizes = 1, 6),
      (ci.drivers.unknownSizes = 0, 7),
      (ci.drivers.commlog ≠ 0, 10),
      (ci.drivers.debug ≠ 0, 11),
      (ci.drivers.parse ≠ 0, 12),
      (ci.drivers.useDeclarefetch ≠ 0, 14),
      (ci.onlyread.text.head? = some 0x31, 15),
      (ci.drivers.textAsLongvarchar ≠ 0, 16),
      (ci.drivers.unknownsAsLongvarchar ≠ 0, 17),
      (ci.drivers.boolsAsChar ≠ 0, 18),
      (ci.rowVersioning.text.head? = some 0x31, 19),
      (ci.showSystemTables.text.head? = some 0x31, 20),
      (ci.showOidColumn.text.head? = some 0x31, 21),
      (ci.fakeOidIndex.text.head? = some 0x31, 22),
      (ci.trueIsMinus1 ≠ 0, 23),
      (ci.byteaAsLongvarbinary ≠ 0, 24),
      (ci.useServerSidePrepare ≠ 0, 25),
      (ci.lowerCaseIdentifier ≠ 0, 26),
      (ci.optionalErrors ≠ 0, 27),
      (ci.fetchRefcursors ≠ 0, 28)]
  settings.foldl (fun flag setting ↦ if setting.1 then flag ||| 1 <<< setting.2 else flag) 0

/-- `EFFECTIVE_BIT_COUNT`. -/
def effectiveBitCount : Nat := 28

/-- The extra info abbreviated, behind the delimiter at its beginning. -/
def abbreviatedText (ci : ConnInfo size) (connset pqopt : List UInt8) : List UInt8 :=
  connset ++
  attributes
    [("A7", printfInt ci.drivers.fetchMax),
      ("B0", printfInt ci.drivers.maxVarcharSize),
      ("B1", printfInt ci.drivers.maxLongvarcharSize),
      ("BI", printfInt ci.int8As),
      ("C2", ci.drivers.extraSystablePrefixes.text)] ++
  pqopt ++
  ci.makeKeepaliveConnectString true ++
  attributes [("D6", printfInt ci.numericAs)] ++
  ascii "CX=" ++ (hexadecimals 2 effectiveBitCount).map toLower ++ printfHex ci.abbreviateFlag

/-- The SSL mode abbreviated, if there is one. -/
def sslText (mem : List UInt8) (ci : ConnInfo size) : List UInt8 :=
  if ci.sslmode.text = [] then [] else ascii ";CA=" ++ abbrevSslmode mem ci.sslmode.text

/-- The extra options, if there are any. -/
def extraText (ci : ConnInfo size) : List UInt8 :=
  if ci.getExtraOptions = 0 then []
  else ascii ";AB=" ++ printfHex ci.getExtraOptions ++ [attributeDelimiter]

end ConnInfo

/-! ## Printing them -/

/-- `snprintf` behind the first `h` characters of a text, with room for `n` characters. -/
def printAt (s : List UInt8) (h n : Nat) (text : List UInt8) : List UInt8 :=
  if n = 0 then s else s.take h ++ text.take (n - 1)

/-- What is printed into a connection string.  The two texts with the extra info and the one with
the protocol setting have a delimiter before them. -/
structure ConnectTexts where
  fundamental : List UInt8
  auth : List UInt8
  limitless : List UInt8
  failover : List UInt8
  full : List UInt8
  sslmode : List UInt8
  abbreviated : List UInt8
  protocol : List UInt8
  extra : List UInt8
  /-- `ci->rollback_on_error >= 0`. -/
  rollback : Bool
  deriving DecidableEq

namespace ConnectTexts

/-- The extra info abbreviated behind `s`, with room up to `len` in all: the text, how long what has
been printed last is, and the room that there was for it. -/
def printShort (t : ConnectTexts) (len : Nat) (s : List UInt8) : List UInt8 × Nat × Nat :=
  let nlen := len - s.length
  let s := printAt s s.length nlen (attributeDelimiter :: t.abbreviated)
  let olen := (attributeDelimiter :: t.abbreviated).length
  if olen < nlen ∨ t.rollback = true then
    let nlen := len - s.length
    let s := printAt s s.length nlen (attributeDelimiter :: t.protocol)
    (s, (attributeDelimiter :: t.protocol).length, nlen)
  else (s, olen, nlen)

/-- The SSL mode before it is printed at `hlen`, where the common part ends. -/
def printAbbreviated (t : ConnectTexts) (len hlen : Nat) (s : List UInt8) :
    List UInt8 × Nat × Nat :=
  t.printShort len (if t.sslmode = [] then s else printAt s hlen (len - hlen) t.sslmode)

/-- The extra options and the end of `makeConnectString`: `olen` characters with room for `nlen`
have been printed last. -/
def printExtra (t : ConnectTexts) (len : Nat) : List UInt8 × Nat × Nat → List UInt8
  | (s, olen, nlen) =>
    if olen < nlen then
      if t.extra = [] then s
      else
        let nlen := len - s.length
        let s := printAt s s.length nlen t.extra
        if nlen ≤ t.extra.length then [] else s
    else []

/-- `makeConnectString`, of the texts that it prints. -/
def print (t : ConnectTexts) (len : Nat) (abbreviate : Bool) : List UInt8 :=
  let s := printAt [] 0 len t.fundamental
  let olen := t.fundamental.length
  let s := printAt s olen (len - olen) t.auth
  let olen := olen + t.auth.length
  let s := printAt s olen (len - olen) t.limitless
  let olen := olen + t.limitless.length
  let s := printAt s olen (len - olen) t.failover
  let olen := olen + t.failover.length
  if len ≤ olen then []
  else
    let hlen := s.length
    let nlen := len - hlen
    if abbreviate then t.printExtra len (t.printAbbreviated len hlen s)
    else
      let s := printAt s hlen nlen (attributeDelimiter :: t.full)
      let olen := (attributeDelimiter :: t.full).length
      if nlen ≤ olen then t.printExtra len (t.printAbbreviated len hlen s)
      else t.printExtra len (s, olen, nlen)

end ConnectTexts

namespace ConnInfo

/-- The texts that are made of the settings. -/
def texts (mem : List UInt8) (ci : ConnInfo size) : Option ConnectTexts := do
  let encoded ← encodedItem ci.password
  let connset ← makeBracketConnectString ci.connSettingsInStr ci.connSettings .connSettings
  let pqopt ← makeBracketConnectString ci.pqoptInStr ci.pqopt .pqopt
  let abbrConnset ← makeBracketConnectString ci.connSettingsInStr ci.connSettings .abbrConnSettings
  let abbrPqopt ← makeBracketConnectString ci.pqoptInStr ci.pqopt .abbrPqopt
  return {
    fundamental := ci.fundamentalText
    auth := ci.authText encoded
    limitless := ci.limitlessText
    failover := ci.failoverText
    full := ci.fullText connset pqopt
    sslmode := ci.sslText mem
    abbreviated := ci.abbreviatedText abbrConnset abbrPqopt
    protocol := ascii "A1=" ++ ci.protocolAnd
    extra := ci.extraText
    rollback := 0 ≤ ci.rollbackOnError }

/-- `len`, if it is not too large. -/
def roomOf (len : UInt16) : Nat := min len.toNat maxConnectString

def abbrevs (ci : ConnInfo size) (len : UInt16) : Bool :=
  roomOf len < 1024 || 0 < ci.forceAbbrevConnstr

end ConnInfo

/-- `makeConnectString`; there is no result if the password leaves the array it is encoded in. -/
def makeConnectString (mem : List UInt8) (ci : ConnInfo size) (len : UInt16) :
    Option (List UInt8) :=
  (ci.texts mem).map fun t ↦ t.print (ConnInfo.roomOf len) (ci.abbrevs len)

end PsqlOdbc
