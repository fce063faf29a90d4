import PsqlOdbc.Convert.Identifiers

/-!
# The table types of `SQLTables` (`PGAPI_Tables` in `info.c`)

The list of types becomes five flags, and a relation is let in by its kind or as a regular table, which
is every one that is neither a system table nor a view.  The type that is reported is found apart from
that.
-/

namespace PsqlOdbc

/-! ## The driver -/

/-- The values of `TABLE_TYPE`. -/
inductive TableType
  | systemTable | table | view | foreignTable | matview
  deriving DecidableEq

/-- `CSTR_SYS_TABLE` and so on. -/
def TableType.name : TableType → List UInt8
  | systemTable => ascii "SYSTEM TABLE"
  | table => ascii "TABLE"
  | view => ascii "VIEW"
  | foreignTable => ascii "FOREIGN TABLE"
  | matview => ascii "MATVIEW"

/-- A relation of the catalog query. -/
structure TableRelation where
  tableName : List UInt8
  tableOwner : List UInt8
  relkind : UInt8
  deriving DecidableEq

/-- The settings of the connection. -/
structure TablesConn where
  currCat : List UInt8
  showSystemTables : Bool
  extraSystablePrefixes : List UInt8

/-- The tokens of `strtok_r`. -/
def strtokAll (delim : UInt8) (text : List UInt8) : List (List UInt8) :=
  (text.splitOn delim).filter (· ≠ [])

/-- `systable`. -/
def TablesConn.systable (conn : TablesConn) (relation : TableRelation) : Bool :=
  !conn.showSystemTables &&
    (stricmpEq relation.tableOwner (ascii "pg_catalog") ||
      stricmpEq relation.tableOwner (ascii "pg_toast") ||
      strnicmpEq relation.tableOwner (ascii "pg_temp_") ||
      stricmpEq relation.tableOwner (ascii "information_schema") ||
      ((strtokAll 59 conn.extraSystablePrefixes).take 32).any (·.isPrefixOf relation.tableName))

/-- The flags of the types that are asked for. -/
structure ShowTables where
  systemTables : Bool
  regularTables : Bool
  views : Bool
  foreignTables : Bool
  matviews : Bool

namespace ShowTables

/-- No types. -/
def none : ShowTables := ⟨false, false, false, false, false⟩

/-- All types but system tables. -/
def all : ShowTables := ⟨false, true, true, true, true⟩

/-- `strnicmp` with the name of a type. -/
def isType (typestr : List UInt8) (type : TableType) : Bool :=
  strnicmpEq typestr (type.name.map toLower)

/-- Blanks and a quote are skipped. -/
def skipQuote (typestr : List UInt8) : List UInt8 :=
  match typestr.dropWhile isSpace with
  | c :: rest => if c = 39 then rest else c :: rest
  | [] => []

/-- One token of the list. -/
def add (shown : ShowTables) (token : List UInt8) : ShowTables :=
  let typestr := skipQuote token
  if isType typestr .systemTable = true then { shown with systemTables := true }
  else if isType typestr .table = true then { shown with regularTables := true }
  else if isType typestr .view = true then { shown with views := true }
  else if isType typestr .foreignTable = true then { shown with foreignTables := true }
  else if isType typestr .matview = true then { shown with matviews := true }
  else shown

/-- The flags for the argument `tableType`. -/
def parse : Option (List UInt8) → ShowTables
  | .none => all
  | some tableType =>
    if stricmpEq tableType (ascii "%") = true then all -- `SQL_ALL_TABLE_TYPES`
    else (strtokAll 44 tableType).foldl add none

/-- A flag. -/
def shows (shown : ShowTables) : TableType → Bool
  | .systemTable => shown.systemTables
  | .table => shown.regularTables
  | .view => shown.views
  | .foreignTable => shown.foreignTables
  | .matview => shown.matviews

end ShowTables

/-- A row of the result. -/
structure TablesRow where
  catalogName : List UInt8
  schemaName : List UInt8
  tableName : List UInt8
  tableType : TableType
  deriving DecidableEq

namespace TablesConn

/-- Whether a relation goes into the result. -/
def included (conn : TablesConn) (shown : ShowTables) (relation : TableRelation) : Bool :=
  let systable := conn.systable relation
  let view : Bool := relation.relkind = 118
  let foreignTable : Bool := relation.relkind = 102
  let matview : Bool := relation.relkind = 109
  let regularTable := !systable && !view
  (systable && shown.systemTables) || (view && shown.views) ||
    (foreignTable && shown.foreignTables) || (matview && shown.matviews) ||
    (regularTable && shown.regularTables)

/-- The type that is reported. -/
def reportedType (conn : TablesConn) (relation : TableRelation) : TableType :=
  if conn.systable relation = true then .systemTable
  else if relation.relkind = 118 then .view
  else if relation.relkind = 109 then .matview
  else if relation.relkind = 102 then .foreignTable
  else .table

/-- The row of a relation. -/
def row (conn : TablesConn) (relation : TableRelation) : TablesRow :=
  ⟨conn.currCat, relation.tableOwner, relation.tableName, conn.reportedType relation⟩

/-- The loop of `PGAPI_Tables` over the relations that the query delivers. -/
def pgapiTables (conn : TablesConn) (tableType : Option (List UInt8)) :
    List TableRelation → List TablesRow
  | [] => []
  | relation :: relations =>
    if conn.included (.parse tableType) relation = true then
      conn.row relation :: conn.pgapiTables tableType relations
    else conn.pgapiTables tableType relations

end TablesConn

/-! ## What the application may expect -/

/-- A type in the list, with blanks around it. -/
structure TypeEntry where
  blanks : List UInt8
  quoted : Bool
  name : List UInt8
  trailing : List UInt8
  blanks_space : ∀ c ∈ blanks, isSpace c = true
  trailing_space : ∀ c ∈ trailing, isSpace c = true
  name_plain : ∀ c ∈ name, c ≠ 0 ∧ c ≠ 44 ∧ c ≠ 39
  trimmed : quoted = false → ∀ c, name.head? = some c ∨ name.getLast? = some c → isSpace c = false

namespace TypeEntry

/-- The text of an entry. -/
def text (entry : TypeEntry) : List UInt8 :=
  entry.blanks ++ (if entry.quoted = true then 39 :: entry.name ++ [39] else entry.name) ++
    entry.trailing

/-- The text of a list. -/
def listText (entries : List TypeEntry) : List UInt8 := [44].intercalate (entries.map text)

/-- A type is in the list. -/
def Named (entries : List TypeEntry) (type : TableType) : Prop :=
  ∃ entry ∈ entries, stricmpEq entry.name type.name = true

/-- An entry begins with the name of a type. -/
def Begins (entries : List TypeEntry) (type : TableType) : Prop :=
  ∃ entry ∈ entries, ShowTables.isType entry.name type = true

instance (entries : List TypeEntry) (type : TableType) : Decidable (Named entries type) :=
  inferInstanceAs (Decidable (∃ entry ∈ entries, _))

instance (entries : List TypeEntry) (type : TableType) : Decidable (Begins entries type) :=
  inferInstanceAs (Decidable (∃ entry ∈ entries, _))

end TypeEntry

namespace TablesConn

/-- The rows are those of the relations whose types are in the list. -/
def TablesRight (conn : TablesConn) (entries : List TypeEntry) (relations : List TableRelation) :
    Prop :=
  conn.pgapiTables (some (TypeEntry.listText entries)) relations =
    (relations.filter fun relation ↦ TypeEntry.Named entries (conn.reportedType relation)).map
      conn.row

/-- The types whose flags let a relation in though another type is reported for it. -/
def letIn (conn : TablesConn) (relation : TableRelation) : List TableType :=
  if conn.systable relation = true then
    if relation.relkind = 118 then [.view]
    else if relation.relkind = 109 then [.matview]
    else if relation.relkind = 102 then [.foreignTable]
    else []
  else if relation.relkind = 109 ∨ relation.relkind = 102 then [.table]
  else []

/-- No relation is let in by an entry that is not its type. -/
def TypesFit (conn : TablesConn) (entries : List TypeEntry) (relations : List TableRelation) :
    Prop :=
  ∀ relation ∈ relations, ¬TypeEntry.Named entries (conn.reportedType relation) →
    ∀ type ∈ conn.reportedType relation :: conn.letIn relation,
      if TypeEntry.listText entries = [37] then type = .systemTable
      else ¬TypeEntry.Begins entries type

end TablesConn

/-! ## Names of types -/

namespace ShowTables

/-- The names begin with different letters. -/
theorem isType_inj {typestr : List UInt8} {a b : TableType} (ha : isType typestr a = true)
    (hb : isType typestr b = true) : a = b := by
  have hhead : ∀ type, isType typestr type = true →
      (typestr.headD 0 |> toLower) = (type.name.headD 0 |> toLower) := by
    intro type htype
    have heq := of_decide_eq_true htype
    cases typestr with
    | nil => cases type <;> cases heq
    | cons c rest => cases type <;> exact (List.cons.inj heq).1
  have heq := (hhead a ha).symm.trans (hhead b hb)
  cases a <;> cases b <;> first | rfl | exact absurd heq (by decide)

/-- A longer text begins with a name too. -/
theorem isType_append_left {name : List UInt8} {type : TableType} (h : isType name type = true)
    (rest : List UInt8) : isType (name ++ rest) type = true := by
  have heq := of_decide_eq_true h
  have hlen : type.name.length ≤ name.length := by
    have hlength := congrArg List.length heq
    rw [List.length_map, List.length_take, List.length_map] at hlength
    omega
  refine decide_eq_true ?_
  rw [List.take_append_of_le_length (by rwa [List.length_map])]
  exact heq

/-- Blanks and quotes are not the end of a name. -/
theorem isType_append {name rest : List UInt8} (hrest : ∀ c ∈ rest, isSpace c = true ∨ c = 39)
    (type : TableType) : isType (name ++ rest) type = true ↔ isType name type = true := by
  refine ⟨fun h ↦ ?_, fun h ↦ isType_append_left h rest⟩
  have heq := of_decide_eq_true h
  by_cases hlen : (type.name.map toLower).length ≤ name.length
  · refine decide_eq_true ?_
    rwa [List.take_append_of_le_length hlen] at heq
  exfalso
  obtain ⟨front, last, hname, hlast⟩ : ∃ front last, type.name.map toLower = front ++ [last] ∧
      (last = 101 ∨ last = 119) := by
    cases type with
    | systemTable => exact ⟨ascii "system tabl", 101, by decide, .inl rfl⟩
    | table => exact ⟨ascii "tabl", 101, by decide, .inl rfl⟩
    | view => exact ⟨ascii "vie", 119, by decide, .inr rfl⟩
    | foreignTable => exact ⟨ascii "foreign tabl", 101, by decide, .inl rfl⟩
    | matview => exact ⟨ascii "matvie", 119, by decide, .inr rfl⟩
  have hmem : last ∈ rest.map toLower := by
    rw [List.take_append, List.map_append] at heq
    have htail : ((rest.take ((type.name.map toLower).length - name.length)).map toLower) ≠ [] := by
      intro hnil
      have hlength := congrArg List.length heq
      rw [hnil, List.append_nil, List.length_map, List.length_take] at hlength
      omega
    have hgetLast := congrArg List.getLast? heq
    rw [List.getLast?_append_of_ne_nil _ htail, hname, List.getLast?_concat] at hgetLast
    obtain ⟨c, hc, rfl⟩ := List.mem_map.1 (List.mem_of_getLast? hgetLast)
    exact List.mem_map_of_mem (List.mem_of_mem_take hc)
  obtain ⟨c, hc, hcl⟩ := List.mem_map.1 hmem
  have hle : c ≤ 39 := by
    rcases hrest c hc with hspace | rfl
    · exact UInt8.le_trans (le_of_isSpace hspace) (by decide)
    · exact UInt8.le_refl _
  have hlower : toLower c = c := by
    rw [toLower, if_neg]
    intro hupper
    rw [Bool.and_eq_true, decide_eq_true_eq] at hupper
    exact absurd (UInt8.le_trans hupper.1 hle) (by decide)
  rw [hlower] at hcl
  rw [hcl] at hle
  rcases hlast with rfl | rfl <;> exact absurd hle (by decide)

/-- A name in any letter case. -/
theorem isType_of_stricmpEq {name : List UInt8} {type : TableType}
    (h : stricmpEq name type.name = true) : isType name type = true := by
  have heq : name.map toLower = type.name.map toLower := of_decide_eq_true h
  have hlen := congrArg List.length heq
  rw [List.length_map] at hlen
  refine decide_eq_true ?_
  rw [← hlen, List.take_length, heq]

/-! ## Flags -/

/-- One flag more. -/
def set (shown : ShowTables) : TableType → ShowTables
  | .systemTable => { shown with systemTables := true }
  | .table => { shown with regularTables := true }
  | .view => { shown with views := true }
  | .foreignTable => { shown with foreignTables := true }
  | .matview => { shown with matviews := true }

theorem shows_set (shown : ShowTables) (a type : TableType) :
    (shown.set a).shows type = true ↔ shown.shows type = true ∨ a = type := by
  cases a <;> cases type <;> simp [set, shows]

theorem add_of_isType (shown : ShowTables) {token : List UInt8} {a : TableType}
    (h : isType (skipQuote token) a = true) : shown.add token = shown.set a := by
  have hnot : ∀ b, b ≠ a → ¬isType (skipQuote token) b = true :=
    fun b hne hb ↦ hne (isType_inj hb h)
  rw [add]
  cases a with
  | systemTable => rw [if_pos h, set]
  | table => rw [if_neg (hnot .systemTable (by decide)), if_pos h, set]
  | view =>
    rw [if_neg (hnot .systemTable (by decide)), if_neg (hnot .table (by decide)), if_pos h, set]
  | foreignTable =>
    rw [if_neg (hnot .systemTable (by decide)), if_neg (hnot .table (by decide)),
      if_neg (hnot .view (by decide)), if_pos h, set]
  | matview =>
    rw [if_neg (hnot .systemTable (by decide)), if_neg (hnot .table (by decide)),
      if_neg (hnot .view (by decide)), if_neg (hnot .foreignTable (by decide)), if_pos h, set]

theorem shows_add (shown : ShowTables) (token : List UInt8) (type : TableType) :
    (shown.add token).shows type = true ↔
      shown.shows type = true ∨ isType (skipQuote token) type = true := by
  by_cases hany : ∃ a, isType (skipQuote token) a = true
  · obtain ⟨a, ha⟩ := hany
    rw [add_of_isType shown ha, shows_set]
    refine or_congr_right ⟨?_, isType_inj ha⟩
    rintro rfl
    exact ha
  · have hnone : ∀ a, ¬isType (skipQuote token) a = true := fun a ha ↦ hany ⟨a, ha⟩
    rw [or_iff_left (hnone type), add, if_neg (hnone _), if_neg (hnone _), if_neg (hnone _), if_neg (hnone _), if_neg (hnone _)]

/-- The tokens one after the other. -/
theorem shows_foldl (shown : ShowTables) (tokens : List (List UInt8)) (type : TableType) :
    (tokens.foldl add shown).shows type = true ↔
      shown.shows type = true ∨ ∃ token ∈ tokens, isType (skipQuote token) type = true := by
  induction tokens generalizing shown with
  | nil => exact ⟨.inl, fun h ↦ h.resolve_right nofun⟩
  | cons token tokens ih =>
    rw [List.foldl_cons, ih, shows_add, or_assoc]
    refine or_congr_right ?_
    constructor
    · rintro (h | ⟨token', hmem, h⟩)
      · exact ⟨token, List.mem_cons_self, h⟩
      · exact ⟨token', List.mem_cons_of_mem _ hmem, h⟩
    · rintro ⟨token', hmem, h⟩
      rcases List.mem_cons.1 hmem with rfl | hmem
      · exact .inl h
      · exact .inr ⟨token', hmem, h⟩

end ShowTables

/-! ## Lists of types -/

namespace TypeEntry

theorem comma_notMem_text (entry : TypeEntry) : 44 ∉ entry.text := by
  have hblank : ∀ {blanks : List UInt8}, (∀ c ∈ blanks, isSpace c = true) → 44 ∉ blanks := by
    intro blanks hblanks hmem
    exact absurd (hblanks 44 hmem) (by decide)
  have hname : 44 ∉ entry.name := fun hmem ↦ (entry.name_plain 44 hmem).2.1 rfl
  rw [text, List.mem_append, List.mem_append]
  rintro ((hmem | hmem) | hmem)
  · exact hblank entry.blanks_space hmem
  · split_ifs at hmem
    · rw [List.cons_append, List.mem_cons, List.mem_append, List.mem_singleton] at hmem
      rcases hmem with hmem | hmem | hmem
      · exact absurd hmem (by decide)
      · exact hname hmem
      · exact absurd hmem (by decide)
    · exact hname hmem
  · exact hblank entry.trailing_space hmem

/-- The tokens are the entries that are not empty. -/
theorem strtokAll_listText (entries : List TypeEntry) :
    strtokAll 44 (listText entries) = (entries.map text).filter (· ≠ []) := by
  cases entries with
  | nil => rfl
  | cons entry entries =>
    rw [strtokAll, listText, List.splitOn_intercalate]
    · intro l hl
      obtain ⟨entry', -, rfl⟩ := List.mem_map.1 hl
      exact comma_notMem_text entry'
    · exact List.cons_ne_nil _ _

/-- A token is a name with blanks or a quote behind it. -/
theorem skipQuote_text (entry : TypeEntry) : ∃ rest, (∀ c ∈ rest, isSpace c = true ∨ c = 39) ∧
    ShowTables.skipQuote entry.text = entry.name ++ rest := by
  have hspace : ∀ c ∈ entry.trailing, isSpace c = true ∨ c = 39 :=
    fun c hc ↦ .inl (entry.trailing_space c hc)
  rw [ShowTables.skipQuote, text, List.append_assoc,
    List.dropWhile_append_of_pos entry.blanks_space]
  cases hquoted : entry.quoted with
  | true =>
    refine ⟨39 :: entry.trailing, ?_, ?_⟩
    · intro c hc
      rcases List.mem_cons.1 hc with rfl | hc
      · exact .inr rfl
      · exact hspace c hc
    · rw [if_pos rfl, List.cons_append, List.cons_append,
        List.dropWhile_cons_of_neg (by decide)]
      dsimp only
      rw [if_pos rfl, List.append_assoc]
      rfl
  | false =>
    rw [if_neg Bool.false_ne_true]
    cases hname : entry.name with
    | nil =>
      have hdrop : entry.trailing.dropWhile isSpace = [] :=
        List.dropWhile_eq_nil_iff.2 entry.trailing_space
      rw [List.nil_append, hdrop]
      exact ⟨[], List.forall_mem_nil _, rfl⟩
    | cons c rest =>
      have hhead : isSpace c = false := entry.trimmed hquoted c (.inl (by rw [hname]; rfl))
      have hquote : c ≠ 39 := (entry.name_plain c (by rw [hname]; exact List.mem_cons_self)).2.2
      refine ⟨entry.trailing, hspace, ?_⟩
      rw [List.cons_append, List.dropWhile_cons_of_neg (by rw [hhead]; exact Bool.false_ne_true)]
      dsimp only
      rw [if_neg hquote]

theorem isType_skipQuote (entry : TypeEntry) (type : TableType) :
    ShowTables.isType (ShowTables.skipQuote entry.text) type = true ↔
      ShowTables.isType entry.name type = true := by
  obtain ⟨rest, hrest, heq⟩ := skipQuote_text entry
  rw [heq]
  exact ShowTables.isType_append hrest type

theorem not_isType_nil (type : TableType) : ¬ShowTables.isType [] type = true := by
  cases type <;> decide

/-- A type is shown if an entry begins with its name. -/
theorem shows_listText (entries : List TypeEntry) (type : TableType) :
    ((strtokAll 44 (listText entries)).foldl ShowTables.add .none).shows type = true ↔
      Begins entries type := by
  have hnone : ¬ShowTables.none.shows type = true := by
    cases type <;> decide
  rw [ShowTables.shows_foldl, or_iff_right hnone, strtokAll_listText]
  constructor
  · rintro ⟨token, hmem, htype⟩
    obtain ⟨entry, hentry, rfl⟩ := List.mem_map.1 (List.mem_filter.1 hmem).1
    exact ⟨entry, hentry, (isType_skipQuote entry type).1 htype⟩
  · rintro ⟨entry, hentry, htype⟩
    have htoken := (isType_skipQuote entry type).2 htype
    refine ⟨entry.text, List.mem_filter.2 ⟨List.mem_map_of_mem hentry, decide_eq_true ?_⟩, htoken⟩
    intro hnil
    rw [hnil] at htoken
    exact not_isType_nil type htoken

theorem stricmpEq_percent (tableType : List UInt8) :
    stricmpEq tableType (ascii "%") = true ↔ tableType = [37] := by
  have hlower : ∀ c, toLower c = 37 → c = 37 := by
    intro c hc
    rw [toLower] at hc
    split at hc
    · next hupper =>
      -- A letter is not made a sign.
      obtain rfl : c = 37 - 0x20 := eq_sub_of_add_eq hc
      exact absurd hupper (by decide)
    · exact hc
  constructor
  · intro h
    have heq : tableType.map toLower = [37] := of_decide_eq_true h
    obtain ⟨c, rest, rfl, hc, hrest⟩ := List.map_eq_cons_iff.1 heq
    rw [hlower c hc, List.map_eq_nil_iff.1 hrest]
  · rintro rfl
    decide

/-- The flags of a list. -/
theorem shows_parse (entries : List TypeEntry) (type : TableType) :
    (ShowTables.parse (some (listText entries))).shows type = true ↔
      if listText entries = [37] then type ≠ .systemTable else Begins entries type := by
  rw [ShowTables.parse]
  by_cases hall : listText entries = [37]
  · rw [if_pos ((stricmpEq_percent _).2 hall), if_pos hall]
    cases type <;> decide
  · rw [if_neg (mt (stricmpEq_percent _).1 hall), if_neg hall]
    exact shows_listText entries type

theorem Named.begins {entries : List TypeEntry} {type : TableType} (h : Named entries type) :
    Begins entries type := by
  obtain ⟨entry, hentry, hname⟩ := h
  exact ⟨entry, hentry, ShowTables.isType_of_stricmpEq hname⟩

/-- The sign for all types is no list with a type. -/
theorem Named.ne_percent {entries : List TypeEntry} {type : TableType} (h : Named entries type) :
    listText entries ≠ [37] := by
  intro hall
  have hbegins := (shows_listText entries type).2 h.begins
  rw [hall] at hbegins
  cases type <;> exact absurd hbegins (by decide)

end TypeEntry

/-! ## Relations -/

namespace TablesConn

variable {conn : TablesConn} {entries : List TypeEntry} {relations : List TableRelation}

/-- A relation is let in by its type, or by one of the others. -/
theorem included_iff (shown : ShowTables) (relation : TableRelation) :
    conn.included shown relation = true ↔
      ∃ type ∈ conn.reportedType relation :: conn.letIn relation, shown.shows type = true := by
  rw [included, reportedType, letIn]
  cases conn.systable relation with
  | true =>
    by_cases hview : relation.relkind = 118
    · simp [hview, ShowTables.shows]
    by_cases hmatview : relation.relkind = 109
    · simp [hmatview, ShowTables.shows]
    by_cases hforeign : relation.relkind = 102
    · simp [hforeign, ShowTables.shows]
    · simp [hview, hmatview, hforeign, ShowTables.shows]
  | false =>
    by_cases hview : relation.relkind = 118
    · simp [hview, ShowTables.shows]
    by_cases hmatview : relation.relkind = 109
    · simp [hmatview, ShowTables.shows]
    by_cases hforeign : relation.relkind = 102
    · simp [hforeign, ShowTables.shows]
    · simp [hview, hmatview, hforeign, ShowTables.shows]

theorem pgapiTables_eq (conn : TablesConn) (tableType : Option (List UInt8))
    (relations : List TableRelation) : conn.pgapiTables tableType relations =
      (relations.filter (conn.included (.parse tableType))).map conn.row := by
  induction relations with
  | nil => rfl
  | cons relation relations ih =>
    rw [pgapiTables, ih, List.filter_cons]
    split_ifs
    · rw [List.map_cons]
    · rfl

/-- The rows of relations with different names are the same for the same relations only. -/
theorem map_row_filter_inj (conn : TablesConn)
    (hnodup : (relations.map fun r ↦ (r.tableOwner, r.tableName)).Nodup)
    {p q : TableRelation → Bool} (h : (relations.filter p).map conn.row =
      (relations.filter q).map conn.row) {relation : TableRelation} (hmem : relation ∈ relations)
    (hp : p relation = true) : q relation = true := by
  have hrow : conn.row relation ∈ (relations.filter q).map conn.row := by
    rw [← h]
    exact List.mem_map_of_mem (List.mem_filter.2 ⟨hmem, hp⟩)
  obtain ⟨other, hother, heq⟩ := List.mem_map.1 hrow
  obtain ⟨hmem', hq⟩ := List.mem_filter.1 hother
  have hkey : (other.tableOwner, other.tableName) = (relation.tableOwner, relation.tableName) :=
    Prod.ext (congrArg TablesRow.schemaName heq) (congrArg TablesRow.tableName heq)
  rwa [← List.inj_on_of_nodup_map hnodup hmem' hmem hkey]

/-- The filter is right exactly where no other entry lets a relation in. -/
theorem tablesRight_iff (hnodup : (relations.map fun r ↦ (r.tableOwner, r.tableName)).Nodup) :
    conn.TablesRight entries relations ↔ conn.TypesFit entries relations := by
  rw [TablesRight, pgapiTables_eq]
  constructor
  · intro h relation hmem hnamed type htype
    have hnot : ¬(ShowTables.parse (some (TypeEntry.listText entries))).shows type = true := by
      intro hshows
      have hincluded := (included_iff _ relation).2 ⟨type, htype, hshows⟩
      exact hnamed (of_decide_eq_true (map_row_filter_inj conn hnodup h hmem hincluded))
    rw [TypeEntry.shows_parse] at hnot
    split_ifs with hall
    · rw [if_pos hall] at hnot
      exact not_not.1 hnot
    · rwa [if_neg hall] at hnot
  · intro hfit
    refine congrArg (List.map conn.row) (List.filter_congr fun relation hmem ↦ ?_)
    by_cases hnamed : TypeEntry.Named entries (conn.reportedType relation)
    · have hincluded : conn.included (.parse (some (TypeEntry.listText entries))) relation = true := by
        refine (included_iff _ relation).2 ⟨_, List.mem_cons_self, (TypeEntry.shows_parse _ _).2 ?_⟩
        rw [if_neg hnamed.ne_percent]
        exact hnamed.begins
      rw [hincluded, decide_eq_true hnamed]
    · have hincluded : ¬conn.included (.parse (some (TypeEntry.listText entries))) relation =
          true := by
        intro hincluded
        obtain ⟨type, htype, hshows⟩ := (included_iff _ relation).1 hincluded
        have hnot := hfit relation hmem hnamed type htype
        rw [TypeEntry.shows_parse] at hshows
        split_ifs at hnot hshows with hall
        · exact hshows hnot
        · exact hnot hshows
      rw [Bool.eq_false_iff.2 hincluded, decide_eq_false hnamed]

/-- `TABLE, 'view'`. -/
def tableAndView : List TypeEntry :=
  [{ blanks := []
     quoted := false
     name := ascii "TABLE"
     trailing := []
     blanks_space := List.forall_mem_nil _
     trailing_space := List.forall_mem_nil _
     name_plain := forall_mem_of_all (by decide)
     trimmed := by
       intro _ c hc
       have hmem : c ∈ ascii "TABLE" := hc.elim List.mem_of_head? List.mem_of_getLast?
       exact forall_mem_of_all (p := fun c ↦ isSpace c = false) (by decide) c hmem },
   { blanks := [32]
     quoted := true
     name := ascii "view"
     trailing := []
     blanks_space := forall_mem_of_all (by decide)
     trailing_space := List.forall_mem_nil _
     name_plain := forall_mem_of_all (by decide)
     trimmed := nofun }]

theorem tablesRight_tableAndView : TablesRight ⟨ascii "db", false, []⟩ tableAndView
    [⟨ascii "orders", ascii "public", 114⟩, ⟨ascii "recent", ascii "public", 118⟩,
      ⟨ascii "pg_class", ascii "pg_catalog", 114⟩] := by
  refine (tablesRight_iff (by decide)).2 ?_
  rw [TypesFit]
  decide

/-- A materialized view is returned with the tables. -/
theorem not_tablesRight_matview : ¬∀ (conn : TablesConn) (entries : List TypeEntry)
    (relations : List TableRelation),
    (relations.map fun r ↦ (r.tableOwner, r.tableName)).Nodup →
      conn.TablesRight entries relations := by
  intro hall
  have hright := hall ⟨ascii "db", false, []⟩ tableAndView
    [⟨ascii "totals", ascii "public", 109⟩] (by decide)
  rw [TablesRight] at hright
  exact absurd hright (by decide)

end TablesConn

end PsqlOdbc
