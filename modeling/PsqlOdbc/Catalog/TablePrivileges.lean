import PsqlOdbc.Server.ArrayText

/-!
# The privileges on tables (`PGAPI_TablePrivileges` in `info.c`)

The access list of a relation is searched for single characters, and what stands behind the `=` of
an item goes letter by letter into eight slots for each user.  `PrivilegesRight` is what the
application should see of a relation.
-/

namespace PsqlOdbc

/-! ## The driver -/

/-- A row of `pg_user`. -/
structure AclUser where
  usename : List UInt8
  usesuper : Bool
  deriving DecidableEq

/-- A row of the query for relations. -/
structure AclRelation where
  relname : List UInt8
  owner : List UInt8
  relacl : Option (List UInt8)
  nspname : List UInt8
  deriving DecidableEq

/-- A row of the answer. -/
structure PrivilegeTuple where
  tableCat : List UInt8
  tableSchem : List UInt8
  tableName : List UInt8
  grantor : List UInt8
  grantee : List UInt8
  privilege : List UInt8
  isGrantable : List UInt8
  deriving DecidableEq

/-- What one round of the loop over the access list finds: a user, or a group, and `auth`. -/
structure AclEntry where
  grpauth : Bool
  user : List UInt8
  auth : List UInt8
  deriving DecidableEq

/-- `ALL_PRIVILEGES`. -/
def allPrivileges : List UInt8 := ascii "arwdRxt"

/-- `usracl_auth`, with the slots that are in use. -/
def usraclAuth (usracl auth : List UInt8) : List UInt8 :=
  auth.foldl (fun usracl c ↦ if c ∈ usracl ∨ usracl.length = 8 then usracl else usracl ++ [c])
    usracl

/-- The first of the users with the name. -/
def updFirst (user auth : List UInt8) :
    List (AclUser × List UInt8) → List (AclUser × List UInt8)
  | [] => []
  | (u, usracl) :: useracl =>
    if u.usename = user then (u, usraclAuth usracl auth) :: useracl
    else (u, usracl) :: updFirst user auth useracl

/-- `useracl_upd`.  Without a name it is for all users. -/
def useraclUpd (useracl : List (AclUser × List UInt8)) (user auth : List UInt8) :
    List (AclUser × List UInt8) :=
  if user ≠ [] then updFirst user auth useracl
  else useracl.map fun entry ↦ (entry.1, usraclAuth entry.2 auth)

/-- The text up to the character that `strchr` finds, and what stands behind that. -/
def strchrCut (c : UInt8) (text : List UInt8) : Option (List UInt8 × List UInt8) :=
  match text.dropWhile (· != c) with
  | [] => none
  | _ :: rest => some (text.takeWhile (· != c), rest)

theorem strchrCut_length {c : UInt8} {text before rest : List UInt8}
    (h : strchrCut c text = some (before, rest)) : before.length + rest.length < text.length := by
  have htext := congrArg List.length (List.takeWhile_append_dropWhile (p := (· != c)) (l := text))
  rw [List.length_append] at htext
  rw [strchrCut] at h
  split at h
  · cases h
  · next hdrop =>
    cases h
    rw [hdrop, List.length_cons] at htext
    omega

/-- One round of the loop over the access list: what it finds, and where it goes on. -/
def aclRound (text : List UInt8) : Option (AclEntry × Option (List UInt8)) :=
  let grpauth := (34 :: ascii "group ").isPrefixOf text
  (strchrCut 61 (if grpauth then text.drop 7 else text)).map fun named ↦ -- `'='`
    let cut :=
      if grpauth then (strchrCut 34 named.2).map fun cut ↦ (cut.1, cut.2.tail)
      else (strchrCut 44 named.2).or (strchrCut 125 named.2)
    match cut with
    | none => (⟨grpauth, named.1, named.2⟩, none)
    | some (auth, rest) => (⟨grpauth, named.1, auth⟩, some rest)

/-- A round consumes text. -/
theorem aclRound_length {text rest : List UInt8} {entry : AclEntry}
    (h : aclRound text = some (entry, some rest)) : rest.length < text.length := by
  obtain ⟨⟨name, auth⟩, hname, hround⟩ := Option.map_eq_some_iff.1 h
  have hauth := strchrCut_length hname
  have hnamed : (if (34 :: ascii "group ").isPrefixOf text then text.drop 7 else text).length ≤
      text.length := by
    split
    · rw [List.length_drop]
      omega
    · exact le_rfl
  have hcut {before after : List UInt8}
      (hcut : (if (34 :: ascii "group ").isPrefixOf text then
          (strchrCut 34 auth).map fun cut ↦ (cut.1, cut.2.tail)
        else (strchrCut 44 auth).or (strchrCut 125 auth)) = some (before, after)) :
      after.length < auth.length := by
    split at hcut
    · obtain ⟨⟨before', after'⟩, hquote, heq⟩ := Option.map_eq_some_iff.1 hcut
      cases heq
      have hlength := strchrCut_length hquote
      have htail : after'.tail.length = after'.length - 1 := List.length_tail
      dsimp only
      omega
    · rcases Option.or_eq_some_iff.1 hcut with hcomma | ⟨-, hbrace⟩
      · have hlength := strchrCut_length hcomma
        omega
      · have hlength := strchrCut_length hbrace
        omega
  dsimp only at hround
  split at hround
  · cases hround
  · next auth' rest' heq =>
    cases hround
    have hrest := hcut heq
    omega

/-- The loop over the access list, behind its first brace. -/
def aclEntries (text : List UInt8) : List AclEntry :=
  if text = [] then []
  else
    match _hround : aclRound text with
    | none => []
    | some (entry, none) => [entry]
    | some (entry, some rest) => entry :: aclEntries rest
termination_by text.length
decreasing_by exact aclRound_length _hround

/-- What an entry grants.  The members of a group would be read only where the query for them has
failed. -/
def aclGrant (useracl : List (AclUser × List UInt8)) (entry : AclEntry) :
    List (AclUser × List UInt8) :=
  if entry.grpauth then useracl else useraclUpd useracl entry.user entry.auth

/-- `priv`. -/
def privName (c : UInt8) : List UInt8 :=
  if c = 97 then ascii "INSERT"
  else if c = 114 then ascii "SELECT"
  else if c = 119 then ascii "UPDATE"
  else if c = 100 then ascii "DELETE"
  else if c = 120 then ascii "REFERENCES"
  else []

/-- The entries of the access list of a relation. -/
def AclRelation.entries (relation : AclRelation) : List AclEntry :=
  match relation.relacl with
  | some (123 :: text) => aclEntries text
  | _ => []

/-- The rows of a user. -/
def privilegeTuples (currCat : List UInt8) (relation : AclRelation) (user : AclUser)
    (usracl : List UInt8) : List PrivilegeTuple :=
  let sys := user.usename == relation.owner || user.usesuper
  (usracl.filter fun c ↦ c ≠ 82 ∧ c ≠ 116).map fun c ↦ -- `'R'` and `'t'`
    { tableCat := currCat
      tableSchem := relation.nspname
      tableName := relation.relname
      grantor := if sys then ascii "_SYSTEM" else relation.owner
      grantee := user.usename
      privilege := privName c
      isGrantable := if sys then ascii "YES" else ascii "NO" }

/-- The loop over the users. -/
def usersLoop (currCat : List UInt8) (relation : AclRelation) :
    ℕ → ℕ → List (AclUser × List UInt8) → List PrivilegeTuple
  | 0, _, _ => []
  | count + 1, j, useracl =>
    match useracl[j]? with
    | none => []
    | some (user, _) =>
      let useracl :=
        if user.usesuper then useraclUpd useracl user.usename allPrivileges else useracl
      privilegeTuples currCat relation user ((useracl[j]?.map Prod.snd).getD []) ++
        usersLoop currCat relation count (j + 1) useracl

/-- What is done for a relation. -/
def relationPrivileges (currCat : List UInt8) (users : List AclUser) (relation : AclRelation) :
    List PrivilegeTuple :=
  let useracl := relation.entries.foldl aclGrant (users.map fun user ↦ (user, []))
  usersLoop currCat relation users.length 0 (useraclUpd useracl relation.owner allPrivileges)

/-- `PGAPI_TablePrivileges`, behind the queries. -/
def pgapiTablePrivileges (currCat : List UInt8) (users : List AclUser)
    (relations : List AclRelation) : List PrivilegeTuple :=
  relations.flatMap (relationPrivileges currCat users)

/-! ## What is expected -/

/-- A character that needs no quotes in a name. -/
def isNameChar (c : UInt8) : Bool :=
  (48 ≤ c && c ≤ 57) || (65 ≤ c && c ≤ 90) || (97 ≤ c && c ≤ 122) || c = 95

/-- A name in an item. -/
def aclName (name : List UInt8) : List UInt8 :=
  if name.all isNameChar then name
  else [34] ++ (name.flatMap fun c ↦ if c = 34 then [34, 34] else [c]) ++ [34]

/-- The letters of the privileges on relations. -/
def aclLetters : List UInt8 := ascii "arwdDxtRm"

/-- The letters of the privileges that have names in ODBC. -/
def namedLetters : List UInt8 := ascii "arwdx"

/-- An item of an access list.  Without a grantee it is for all users. -/
structure AclItem where
  grantee : List UInt8
  /-- The letters, with whether the privilege may be granted again. -/
  privileges : List (UInt8 × Bool)
  grantor : List UInt8
  letters : ∀ privilege ∈ privileges, privilege.1 ∈ aclLetters

namespace AclItem

variable (item : AclItem)

/-- What stands behind the `=`. -/
def authText : List UInt8 :=
  (item.privileges.flatMap fun privilege ↦
    privilege.1 :: if privilege.2 then [42] else []) ++ [47] ++ aclName item.grantor

/-- The text of an item. -/
def text : List UInt8 := aclName item.grantee ++ [61] ++ item.authText

/-- The names of the item need no quotes. -/
def Plain : Prop := item.grantee.all isNameChar = true ∧ item.grantor.all isNameChar = true

/-- The item grants a privilege to a user. -/
def grants (user : AclUser) (c : UInt8) : Bool :=
  (item.grantee = [] || item.grantee = user.usename) && item.privileges.any fun p ↦ p.1 = c

end AclItem

/-- The users, whose names need no quotes. -/
structure AclUsers where
  users : List AclUser
  names_nodup : (users.map AclUser.usename).Nodup
  names_plain : ∀ user ∈ users, user.usename ≠ [] ∧ user.usename.all isNameChar = true

/-- A relation with its access list, if it has one. -/
structure TableAccess extends AclUsers where
  currCat : List UInt8
  relname : List UInt8
  nspname : List UInt8
  owner : List UInt8
  owner_ne : owner ≠ []
  items : Option (List AclItem)

namespace TableAccess

variable (access : TableAccess)

/-- As the query finds it. -/
def relation : AclRelation where
  relname := access.relname
  owner := access.owner
  relacl := access.items.map fun items ↦ arrayText (items.map fun item ↦ elementText item.text)
  nspname := access.nspname

/-- The rows that are returned. -/
def tuples : List PrivilegeTuple := relationPrivileges access.currCat access.users access.relation

/-- Owners and superusers have all privileges. -/
def hasAll (user : AclUser) : Bool := user.usename == access.owner || user.usesuper

/-- The user has a privilege. -/
def has (user : AclUser) (c : UInt8) : Bool :=
  access.hasAll user || (access.items.getD []).any (·.grants user c)

/-- Each user is reported with the privileges it has, each of them once, and nothing else is. -/
structure PrivilegesRight : Prop where
  privileges : ∀ user ∈ access.users,
    ((access.tuples.filter (·.grantee == user.usename)).map PrivilegeTuple.privilege).Perm
      ((namedLetters.filter (access.has user)).map privName)
  grantees : ∀ tuple ∈ access.tuples, ∃ user ∈ access.users, tuple.grantee = user.usename

/-- The texts that the loop over the access list takes for the privileges of a user. -/
def taken (user : AclUser) : List (List UInt8) :=
  (access.relation.entries.filter fun entry ↦
    entry.grpauth = false ∧ (entry.user = [] ∨ entry.user = user.usename)).map AclEntry.auth

/-- The texts that are taken for a user's privileges have only letters that are known, and for a
user who does not have all privileges they are those that have been granted. -/
def Meets : Prop :=
  ∀ user ∈ access.users,
    (∀ auth ∈ access.taken user, ∀ c ∈ auth, c ∈ allPrivileges) ∧
      (access.hasAll user = false → ∀ c ∈ namedLetters,
        (∃ auth ∈ access.taken user, c ∈ auth) ↔ access.has user c = true)

/-- No name has to be quoted. -/
def Plain : Prop := ∀ item ∈ access.items.getD [], item.Plain

end TableAccess

end PsqlOdbc
