import Mathlib.Data.List.Count
import Mathlib.Logic.Function.Basic

/-!
# The table of the connections (`environ.c`, `connection.c`)

One table, `conns`, lists the connections of all environments.  It is doubled when it is full, and
`EN_Destructor` releases it when it counts no entry that another environment could need.
-/

namespace PsqlOdbc

/-! ## The program -/

/-- A connection in the table. -/
structure ListedConn where
  henv : Option ℕ
  /-- `status` is `CONN_EXECUTING`. -/
  executing : Bool
  deriving DecidableEq, Repr

/-- The connections and their table. -/
structure ConnTable where
  /-- What is at the address of a connection, if it is not freed. -/
  heap : ℕ → Option ListedConn
  /-- `conns` with its `conns_count` entries: without entries it is NULL. -/
  conns : List (Option ℕ)
  /-- How many connections have been allocated. -/
  allocated : ℕ
  /-- The environment that a connection was added to.  The program does not keep it. -/
  owner : ℕ → ℕ

/-- `INIT_CONN_COUNT`. -/
def initConnCount : ℕ := 128

/-- The loop of `EN_add_connection`: into the first free entry, if there is one. -/
def addEntry (conn : ℕ) : List (Option ℕ) → Option (List (Option ℕ))
  | [] => none
  | none :: conns => some (some conn :: conns)
  | some other :: conns => (addEntry conn conns).map (some other :: ·)

/-- The table behind `realloc`. -/
def doubled (conn : ℕ) (conns : List (Option ℕ)) : List (Option ℕ) :=
  let alloc := if 0 < conns.length then 2 * conns.length else initConnCount
  conns ++ some conn :: List.replicate (alloc - (conns.length + 1)) none

/-- The loop of `EN_remove_connection`. -/
def removeEntry (conn : ℕ) (executing : Bool) : List (Option ℕ) → Option (List (Option ℕ))
  | [] => none
  | entry :: conns =>
    if entry = some conn ∧ executing = false then some (none :: conns)
    else (removeEntry conn executing conns).map (entry :: ·)

namespace ConnTable

variable (table : ConnTable)

/-- No environment has a connection. -/
def init : ConnTable where
  heap := fun _ ↦ none
  conns := []
  allocated := 0
  owner := fun _ ↦ 0

/-- `CC_Constructor`. -/
def ccConstructor : ConnTable :=
  { table with
    heap := Function.update table.heap table.allocated (some ⟨none, false⟩)
    allocated := table.allocated + 1 }

/-- `CC_Destructor`, which has no result for a connection that has been freed. -/
def ccDestructor (conn : ℕ) : Option (Bool × ConnTable) :=
  (table.heap conn).map fun c ↦
    if c.executing then (false, table)
    else (true, { table with heap := Function.update table.heap conn none })

/-- `EN_add_connection`. -/
def enAddConnection (env conn : ℕ) (reallocFails : Bool) : Bool × ConnTable :=
  let added (conns : List (Option ℕ)) : ConnTable :=
    { table with
      heap := Function.update table.heap conn
        ((table.heap conn).map fun c ↦ { c with henv := some env })
      conns
      owner := Function.update table.owner conn env }
  match addEntry conn table.conns with
  | some conns => (true, added conns)
  | none => if reallocFails then (false, table) else (true, added (doubled conn table.conns))

/-- `PGAPI_AllocConnect`. -/
def pgapiAllocConnect (env : ℕ) (reallocFails : Bool) : Option (Bool × ConnTable) :=
  let added := table.ccConstructor.enAddConnection env table.allocated reallocFails
  if added.1 then some added
  else
    (added.2.ccDestructor table.allocated).map fun destroyed : Bool × ConnTable ↦
      (false, destroyed.2)

/-- `PGAPI_FreeConnect`. -/
def pgapiFreeConnect (conn : ℕ) : Option (Bool × ConnTable) :=
  (table.heap conn).bind fun c ↦
    match c.henv with
    | none => (table.ccDestructor conn).map fun destroyed ↦ (true, destroyed.2)
    | some _ =>
      match removeEntry conn c.executing table.conns with
      | none => some (false, table)
      | some conns =>
        (ccDestructor { table with conns } conn).map fun destroyed ↦ (true, destroyed.2)

/-- What `EN_Destructor` has gone through. -/
structure Destroyed where
  heap : ℕ → Option ListedConn
  conns : List (Option ℕ)
  nullcnt : ℕ
  rv : Bool

/-- The loop of `EN_Destructor`, which has no result where the entry is a connection that has been
freed. -/
def destroyLoop (env : ℕ) : List (Option ℕ) → (ℕ → Option ListedConn) → Option Destroyed
  | [], heap => some ⟨heap, [], 0, true⟩
  | none :: conns, heap =>
    (destroyLoop env conns heap).map fun rest ↦
      { rest with conns := none :: rest.conns, nullcnt := rest.nullcnt + 1 }
  | some conn :: conns, heap =>
    (heap conn).bind fun c ↦
      if c.henv = some env then
        if c.executing then
          (destroyLoop env conns heap).map fun rest ↦
            ⟨rest.heap, some conn :: rest.conns, rest.nullcnt + 1, false⟩
        else
          (destroyLoop env conns (Function.update heap conn none)).map fun rest ↦
            { rest with conns := none :: rest.conns, nullcnt := rest.nullcnt + 1 }
      else
        (destroyLoop env conns heap).map fun rest ↦
          { rest with conns := some conn :: rest.conns }

/-- `EN_Destructor`. -/
def enDestructor (env : ℕ) : Option (Bool × ConnTable) :=
  (destroyLoop env table.conns table.heap).map fun destroyed ↦
    (destroyed.rv,
      { table with
        heap := destroyed.heap
        conns := if destroyed.conns ≠ [] ∧ destroyed.conns.length ≤ destroyed.nullcnt then []
          else destroyed.conns })

end ConnTable

/-- What happens to the connections. -/
inductive ConnCall
  | allocConnect (env : ℕ) (reallocFails : Bool)
  | freeConnect (conn : ℕ)
  | destructor (env : ℕ)
  /-- A connection starts or stops executing. -/
  | status (conn : ℕ) (executing : Bool)
  deriving DecidableEq, Repr

namespace ConnTable

def call (table : ConnTable) : ConnCall → Option (Bool × ConnTable)
  | .allocConnect env reallocFails => table.pgapiAllocConnect env reallocFails
  | .freeConnect conn => table.pgapiFreeConnect conn
  | .destructor env => table.enDestructor env
  | .status conn executing =>
    (table.heap conn).map fun c ↦
      (true, { table with heap := Function.update table.heap conn (some { c with executing }) })

/-! ## What is expected of the table -/

/-- The table lists the live connections, each once and with its environment. -/
structure ListsLive (table : ConnTable) : Prop where
  live : ∀ conn, some conn ∈ table.conns → table.heap conn ≠ none
  once : ∀ conn c, table.heap conn = some c → table.conns.count (some conn) = 1
  henv : ∀ conn c, table.heap conn = some c → c.henv = some (table.owner conn)

/-- What a call leaves behind. -/
structure Keeps (before after : ConnTable) : Prop where
  lists : after.ListsLive
  /-- A connection that is not destroyed stays in the table. -/
  stays : ∀ conn, some conn ∈ before.conns → after.heap conn ≠ none → some conn ∈ after.conns
  /-- Where the table is released, none of its connections is live. -/
  released : before.conns ≠ [] → after.conns = [] →
    ∀ conn, some conn ∈ before.conns → after.heap conn = none

/-- Connections are used only while they are live. -/
def Legal (table : ConnTable) : ConnCall → Prop
  | .freeConnect conn | .status conn _ => table.heap conn ≠ none
  | .allocConnect _ _ | .destructor _ => True

/-- Each call of a run has a result, and the table is as expected behind it. -/
def Right (table : ConnTable) : List ConnCall → Prop
  | [] => True
  | call :: calls => table.Legal call →
    ∃ result, table.call call = some result ∧ table.Keeps result.2 ∧ result.2.Right calls

/-- The condition: where an environment with an executing connection is destroyed, the table lists a
connection of another one. -/
def Fine (table : ConnTable) : ConnCall → Prop
  | .destructor env =>
    (∃ conn c, some conn ∈ table.conns ∧ table.heap conn = some c ∧ c.henv = some env ∧
      c.executing = true) →
    ∃ conn c, some conn ∈ table.conns ∧ table.heap conn = some c ∧ c.henv ≠ some env
  | _ => True

/-- The calls of a run meet the condition. -/
def FineRun (table : ConnTable) : List ConnCall → Prop
  | [] => True
  | call :: calls => table.Legal call →
    table.Fine call ∧ ∀ result, table.call call = some result → result.2.FineRun calls

end ConnTable

/-! ## The loops -/

theorem count_addEntry {conn : ℕ} {conns conns' : List (Option ℕ)}
    (h : addEntry conn conns = some conns') (other : ℕ) :
    conns'.count (some other) = conns.count (some other) + if conn = other then 1 else 0 := by
  induction conns generalizing conns' with
  | nil => exact absurd h (by simp [addEntry])
  | cons entry conns ih =>
    cases entry with
    | none =>
      obtain rfl := Option.some.inj h
      simp [List.count_cons]
    | some first =>
      obtain ⟨rest, hrest, rfl⟩ := Option.map_eq_some_iff.1 h
      rw [List.count_cons, List.count_cons, ih hrest]
      omega

theorem count_doubled (conn other : ℕ) (conns : List (Option ℕ)) :
    (doubled conn conns).count (some other) =
      conns.count (some other) + if conn = other then 1 else 0 := by
  rw [doubled, List.count_append, List.count_cons]
  simp [List.count_replicate]

theorem doubled_ne_nil (conn : ℕ) (conns : List (Option ℕ)) : doubled conn conns ≠ [] :=
  List.append_ne_nil_of_right_ne_nil _ (List.cons_ne_nil _ _)

theorem addEntry_ne_nil {conn : ℕ} {conns conns' : List (Option ℕ)}
    (h : addEntry conn conns = some conns') : conns' ≠ [] := by
  intro hnil
  have hcount := count_addEntry h conn
  rw [hnil, if_pos rfl] at hcount
  exact absurd hcount (by simp)

theorem removeEntry_executing (conn : ℕ) (conns : List (Option ℕ)) :
    removeEntry conn true conns = none := by
  induction conns with
  | nil => rfl
  | cons entry conns ih => simp [removeEntry, ih]

/-- A connection that is in the table and is not executing is taken out of it. -/
theorem removeEntry_idle {conn : ℕ} {conns : List (Option ℕ)} (h : some conn ∈ conns) :
    ∃ conns', removeEntry conn false conns = some conns' ∧ conns' ≠ [] ∧ ∀ other,
      conns'.count (some other) = conns.count (some other) - if conn = other then 1 else 0 := by
  induction conns with
  | nil => exact absurd h List.not_mem_nil
  | cons entry conns ih =>
    by_cases hentry : entry = some conn
    · subst hentry
      refine ⟨none :: conns, by simp [removeEntry], List.cons_ne_nil _ _, fun other ↦ ?_⟩
      by_cases hother : conn = other <;> simp [hother]
    · obtain ⟨rest, hrest, -, hcount⟩ :=
        ih ((List.mem_cons.1 h).resolve_left fun heq ↦ hentry heq.symm)
      refine ⟨entry :: rest, ?_, List.cons_ne_nil _ _, fun other ↦ ?_⟩
      · rw [removeEntry, if_neg fun hand ↦ hentry hand.1, hrest]
        rfl
      · rw [List.count_cons, List.count_cons, hcount]
        by_cases hother : conn = other
        · subst hother
          simp [hentry]
        · simp [hother]

namespace ConnTable

/-- `EN_Destructor` destroys the connection. -/
def doomed (env : ℕ) (heap : ℕ → Option ListedConn) (conn : ℕ) : Bool :=
  (heap conn).any fun c ↦ c.henv == some env && !c.executing

/-- The connection belongs to the environment. -/
def belongs (env : ℕ) (heap : ℕ → Option ListedConn) (conn : ℕ) : Bool :=
  (heap conn).any fun c ↦ c.henv == some env

/-- What the loop of `EN_Destructor` does with a table. -/
structure Destroys (env : ℕ) (heap : ℕ → Option ListedConn) (conns : List (Option ℕ))
    (destroyed : Destroyed) : Prop where
  memory : ∀ conn, destroyed.heap conn =
    if some conn ∈ conns ∧ doomed env heap conn = true then none else heap conn
  count : ∀ conn, destroyed.conns.count (some conn) =
    if doomed env heap conn = true then 0 else conns.count (some conn)
  length : destroyed.conns.length = conns.length
  nullcnt_le : destroyed.nullcnt ≤ conns.length
  /-- All entries are counted if they are empty or belong to the environment. -/
  nullcnt : conns.length ≤ destroyed.nullcnt ↔
    ∀ conn, some conn ∈ conns → belongs env heap conn = true

theorem doomed_update {env conn other : ℕ} {heap : ℕ → Option ListedConn} (hne : other ≠ conn) :
    doomed env (Function.update heap conn none) other = doomed env heap other := by
  rw [doomed, doomed, Function.update_of_ne hne]

theorem belongs_update {env conn other : ℕ} {heap : ℕ → Option ListedConn} (hne : other ≠ conn) :
    belongs env (Function.update heap conn none) other = belongs env heap other := by
  rw [belongs, belongs, Function.update_of_ne hne]

theorem Destroys.none {env : ℕ} {heap : ℕ → Option ListedConn} {conns : List (Option ℕ)}
    {rest : Destroyed} (h : Destroys env heap conns rest) :
    Destroys env heap (none :: conns)
      { rest with conns := none :: rest.conns, nullcnt := rest.nullcnt + 1 } where
  memory conn := by simp [h.memory conn]
  count conn := by simp [h.count conn]
  length := by simp [h.length]
  nullcnt_le := by simpa using h.nullcnt_le
  nullcnt := by simp [h.nullcnt]

/-- An entry that stays. -/
theorem Destroys.stays {env conn : ℕ} {heap : ℕ → Option ListedConn} {conns : List (Option ℕ)}
    {rest : Destroyed} {nullcnt : ℕ} (rv : Bool) (h : Destroys env heap conns rest)
    (hdoomed : doomed env heap conn = false)
    (hnullcnt : nullcnt = rest.nullcnt + if belongs env heap conn = true then 1 else 0) :
    Destroys env heap (some conn :: conns) ⟨rest.heap, some conn :: rest.conns, nullcnt, rv⟩ where
  memory other := by
    by_cases hother : other = conn
    · subst hother
      simp [h.memory, hdoomed]
    · simp [h.memory, hother]
  count other := by
    by_cases hother : conn = other
    · subst hother
      simp [h.count, hdoomed]
    · simp [h.count, hother]
  length := by simp [h.length]
  nullcnt_le := by
    have hle := h.nullcnt_le
    dsimp only
    rw [hnullcnt, List.length_cons]
    split <;> omega
  nullcnt := by
    have hle := h.nullcnt_le
    have hiff := h.nullcnt
    dsimp only
    rw [hnullcnt, List.length_cons]
    by_cases hbelongs : belongs env heap conn = true
    · rw [if_pos hbelongs, Nat.add_le_add_iff_right, hiff]
      simp [hbelongs]
    · rw [if_neg hbelongs]
      refine ⟨fun hlt ↦ absurd hlt (by omega), fun hall ↦ ?_⟩
      exact absurd (hall conn List.mem_cons_self) hbelongs

/-- An entry that is destroyed. -/
theorem Destroys.destroyed {env conn : ℕ} {heap : ℕ → Option ListedConn}
    {conns : List (Option ℕ)} {rest : Destroyed}
    (h : Destroys env (Function.update heap conn .none) conns rest)
    (hdoomed : doomed env heap conn = true) (hbelongs : belongs env heap conn = true)
    (hnot : some conn ∉ conns) :
    Destroys env heap (some conn :: conns)
      { rest with conns := .none :: rest.conns, nullcnt := rest.nullcnt + 1 } where
  memory other := by
    rw [h.memory]
    by_cases hother : other = conn
    · subst hother
      simp [hnot, hdoomed]
    · simp [hother, doomed_update hother]
  count other := by
    by_cases hother : other = conn
    · subst hother
      simp [h.count, hdoomed, List.count_eq_zero.2 hnot]
    · have hentry : some conn ≠ some other := fun heq ↦ hother (Option.some.inj heq).symm
      simp [h.count, doomed_update hother, List.count_cons_of_ne hentry]
  length := by simp [h.length]
  nullcnt_le := by simpa using h.nullcnt_le
  nullcnt := by
    dsimp only
    rw [List.length_cons, Nat.add_le_add_iff_right, h.nullcnt]
    refine ⟨fun hall other hother ↦ ?_, fun hall other hother ↦ ?_⟩
    · rcases List.mem_cons.1 hother with heq | hmem
      · obtain rfl := Option.some.inj heq
        exact hbelongs
      · have hne : other ≠ conn := fun heq ↦ hnot (heq ▸ hmem)
        exact belongs_update hne ▸ hall other hmem
    · have hne : other ≠ conn := fun heq ↦ hnot (heq ▸ hother)
      exact (belongs_update hne).symm ▸ hall other (List.mem_cons_of_mem _ hother)

/-- The loop of `EN_Destructor` reads no connection that has been freed. -/
theorem destroyLoop_spec (env : ℕ) (conns : List (Option ℕ)) (heap : ℕ → Option ListedConn)
    (hlive : ∀ conn, some conn ∈ conns → heap conn ≠ none)
    (honce : ∀ conn, conns.count (some conn) ≤ 1) :
    ∃ destroyed, destroyLoop env conns heap = some destroyed ∧
      Destroys env heap conns destroyed := by
  induction conns generalizing heap with
  | nil => exact ⟨_, rfl, by simp, by simp, rfl, Nat.le_refl _, by simp⟩
  | cons entry conns ih =>
    have honce' (conn : ℕ) : conns.count (some conn) ≤ 1 :=
      Nat.le_trans (List.count_le_count_cons) (honce conn)
    cases entry with
    | none =>
      obtain ⟨rest, hrest, hspec⟩ :=
        ih heap (fun conn h ↦ hlive conn (List.mem_cons_of_mem _ h)) honce'
      exact ⟨_, by rw [destroyLoop, hrest]; rfl, hspec.none⟩
    | some conn =>
      obtain ⟨c, hc⟩ := Option.ne_none_iff_exists'.1 (hlive conn List.mem_cons_self)
      have hnot : some conn ∉ conns := by
        have hcount := honce conn
        rw [List.count_cons_self] at hcount
        exact List.count_eq_zero.1 (by omega)
      have hkept (h : doomed env heap conn = false) :=
        ih heap (fun conn h ↦ hlive conn (List.mem_cons_of_mem _ h)) honce'
      rw [destroyLoop, hc, Option.bind_some]
      by_cases hhenv : c.henv = some env
      · have hbelongs : belongs env heap conn = true := by simp [belongs, hc, hhenv]
        rw [if_pos hhenv]
        cases hexecuting : c.executing with
        | true =>
          have hdoomed : doomed env heap conn = false := by simp [doomed, hc, hexecuting]
          obtain ⟨rest, hrest, hspec⟩ := hkept hdoomed
          exact ⟨_, by rw [if_pos rfl, hrest]; rfl,
            hspec.stays false hdoomed (by rw [if_pos hbelongs])⟩
        | false =>
          have hdoomed : doomed env heap conn = true := by simp [doomed, hc, hhenv, hexecuting]
          obtain ⟨rest, hrest, hspec⟩ := ih (Function.update heap conn .none)
            (fun other h ↦ by
              have hne : other ≠ conn := fun heq ↦ hnot (heq ▸ h)
              rw [Function.update_of_ne hne]
              exact hlive other (List.mem_cons_of_mem _ h)) honce'
          exact ⟨_, by rw [if_neg Bool.false_ne_true, hrest]; rfl,
            hspec.destroyed hdoomed hbelongs hnot⟩
      · have hdoomed : doomed env heap conn = false := by simp [doomed, hc, hhenv]
        have hbelongs : belongs env heap conn = false := by simp [belongs, hc, hhenv]
        obtain ⟨rest, hrest, hspec⟩ := hkept hdoomed
        exact ⟨_, by rw [if_neg hhenv, hrest]; rfl,
          hspec.stays rest.rv hdoomed (by rw [if_neg (by simp [hbelongs]), Nat.add_zero])⟩

/-! ## The calls -/

/-- No connection is at an address that has not been used. -/
def Fresh (table : ConnTable) : Prop :=
  ∀ conn, table.allocated ≤ conn → table.heap conn = none

variable {table : ConnTable}

theorem ListsLive.count_le (h : table.ListsLive) (conn : ℕ) :
    table.conns.count (some conn) ≤ 1 := by
  by_cases hmem : some conn ∈ table.conns
  · obtain ⟨c, hc⟩ := Option.ne_none_iff_exists'.1 (h.live conn hmem)
    exact Nat.le_of_eq (h.once conn c hc)
  · exact Nat.le_trans (Nat.le_of_eq (List.count_eq_zero.2 hmem)) (Nat.zero_le 1)

theorem ListsLive.mem (h : table.ListsLive) {conn : ℕ} {c : ListedConn}
    (hc : table.heap conn = some c) : some conn ∈ table.conns := by
  rw [← List.count_pos_iff, h.once conn c hc]
  exact Nat.one_pos

/-- Where nothing is taken out of the table but what is destroyed, the call is as expected. -/
theorem ListsLive.keeps {after : ConnTable} (h : after.ListsLive)
    (hreleased : table.conns ≠ [] → after.conns = [] →
      ∀ conn, some conn ∈ table.conns → after.heap conn = none) : table.Keeps after where
  lists := h
  stays conn _ hlive := by
    obtain ⟨c, hc⟩ := Option.ne_none_iff_exists'.1 hlive
    exact h.mem hc
  released := hreleased

/-- A new connection is in the table, or is destroyed again. -/
theorem pgapiAllocConnect_spec (h : table.ListsLive) (hfresh : table.Fresh) (env : ℕ)
    (reallocFails : Bool) :
    ∃ result, table.pgapiAllocConnect env reallocFails = some result ∧ table.Keeps result.2 ∧
      result.2.Fresh := by
  have hnone : table.heap table.allocated = none := hfresh _ (Nat.le_refl _)
  have hnot : some table.allocated ∉ table.conns := fun hmem ↦ h.live _ hmem hnone
  have hheap : table.ccConstructor.heap table.allocated = some ⟨none, false⟩ :=
    Function.update_self ..
  -- the table with the new connection in it
  have hadded (conns : List (Option ℕ)) (hconns : conns ≠ [])
      (hcount : ∀ other, conns.count (some other) =
        table.conns.count (some other) + if table.allocated = other then 1 else 0) :
      let after : ConnTable :=
        { table.ccConstructor with
          heap := Function.update table.ccConstructor.heap table.allocated
            ((table.ccConstructor.heap table.allocated).map fun c ↦ { c with henv := some env })
          conns
          owner := Function.update table.ccConstructor.owner table.allocated env }
      table.Keeps after ∧ after.Fresh := by
    intro after
    have hself : after.heap table.allocated = some ⟨some env, false⟩ := by
      simp [after, hheap]
    have hother {conn : ℕ} (hne : conn ≠ table.allocated) : after.heap conn = table.heap conn := by
      simp [after, ccConstructor, Function.update_of_ne hne]
    refine ⟨ListsLive.keeps ⟨fun conn hmem ↦ ?_, fun conn c hc ↦ ?_, fun conn c hc ↦ ?_⟩
      (fun _ hnil ↦ absurd hnil hconns), fun conn hle ↦ ?_⟩
    · by_cases hne : conn = table.allocated
      · rw [hne, hself]
        exact Option.some_ne_none _
      · rw [hother hne]
        have hpos := List.count_pos_iff.2 hmem
        rw [hcount, if_neg fun heq ↦ hne heq.symm, Nat.add_zero] at hpos
        exact h.live conn (List.count_pos_iff.1 hpos)
    · change conns.count (some conn) = 1
      by_cases hne : conn = table.allocated
      · rw [hcount, hne, if_pos rfl, List.count_eq_zero.2 hnot]
      · rw [hcount, if_neg fun heq ↦ hne heq.symm, h.once conn c (hother hne ▸ hc)]
    · change c.henv = some (Function.update table.owner table.allocated env conn)
      by_cases hne : conn = table.allocated
      · subst hne
        obtain rfl := Option.some.inj (hself.symm.trans hc)
        rw [Function.update_self]
      · rw [Function.update_of_ne hne]
        exact h.henv conn c (hother hne ▸ hc)
    · have hle' : table.allocated + 1 ≤ conn := hle
      rw [hother (by omega)]
      exact hfresh conn (by omega)
  rw [pgapiAllocConnect, enAddConnection]
  cases hentry : addEntry table.allocated table.conns with
  | some conns =>
    have hentry' : addEntry table.allocated table.ccConstructor.conns = some conns := hentry
    rw [hentry']
    exact ⟨_, rfl, hadded conns (addEntry_ne_nil hentry) (count_addEntry hentry)⟩
  | none =>
    have hentry' : addEntry table.allocated table.ccConstructor.conns = none := hentry
    rw [hentry']
    cases reallocFails with
    | false => exact ⟨_, rfl, hadded _ (doubled_ne_nil _ _) (count_doubled _ · _)⟩
    | true =>
      have hdestroyed : table.ccConstructor.ccDestructor table.allocated = some
          (true, { table.ccConstructor with
            heap := Function.update table.ccConstructor.heap table.allocated none }) := by
        rw [ccDestructor, hheap]
        rfl
      have hsame : Function.update table.ccConstructor.heap table.allocated none = table.heap := by
        rw [ccConstructor, Function.update_idem, ← hnone, Function.update_eq_self]
      have hfresh' (conn : ℕ) (hle : table.allocated + 1 ≤ conn) : table.heap conn = none :=
        hfresh conn (by omega)
      rw [hsame] at hdestroyed
      refine ⟨(false, { table.ccConstructor with heap := table.heap }), ?_, ?_, hfresh'⟩
      · change (table.ccConstructor.ccDestructor table.allocated).map _ = some _
        rw [hdestroyed]
        rfl
      · exact ListsLive.keeps ⟨h.live, h.once, h.henv⟩
          fun hne hnil ↦ absurd hnil hne

/-- Where a connection is freed, it was not executing. -/
theorem pgapiFreeConnect_spec (h : table.ListsLive) (hfresh : table.Fresh) {conn : ℕ}
    (hlive : table.heap conn ≠ none) :
    ∃ result, table.pgapiFreeConnect conn = some result ∧ table.Keeps result.2 ∧
      result.2.Fresh := by
  obtain ⟨c, hc⟩ := Option.ne_none_iff_exists'.1 hlive
  rw [pgapiFreeConnect, hc, Option.bind_some, h.henv conn c hc]
  cases hexecuting : c.executing with
  | true =>
    dsimp only
    rw [removeEntry_executing]
    exact ⟨_, rfl, h.keeps fun hne hnil ↦ absurd hnil hne, hfresh⟩
  | false =>
    obtain ⟨conns, hconns, hnil, hcount⟩ := removeEntry_idle (h.mem hc)
    have hdestroyed : ccDestructor { table with conns } conn = some
        (true, { table with conns, heap := Function.update table.heap conn none }) := by
      rw [ccDestructor]
      simp [hc, hexecuting]
    dsimp only
    rw [hconns]
    dsimp only
    rw [hdestroyed]
    refine ⟨_, rfl, ListsLive.keeps ⟨fun other hmem ↦ ?_, fun other d hd ↦ ?_, fun other d hd ↦ ?_⟩
      fun _ hnone ↦ absurd hnone hnil, fun other hle ↦ ?_⟩
    · have hpos := List.count_pos_iff.2 hmem
      change 0 < conns.count (some other) at hpos
      rw [hcount] at hpos
      have hne : other ≠ conn := by
        rintro rfl
        rw [if_pos rfl, h.once other c hc] at hpos
        exact absurd hpos (by decide)
      rw [if_neg fun heq ↦ hne heq.symm, Nat.sub_zero] at hpos
      change Function.update table.heap conn none other ≠ none
      rw [Function.update_of_ne hne]
      exact h.live other (List.count_pos_iff.1 hpos)
    · have hne : other ≠ conn := by
        rintro rfl
        exact absurd hd (by simp)
      have hd' : table.heap other = some d := by simpa [hne] using hd
      change conns.count (some other) = 1
      rw [hcount, if_neg fun heq ↦ hne heq.symm, h.once other d hd']
    · have hne : other ≠ conn := by
        rintro rfl
        exact absurd hd (by simp)
      exact h.henv other d (by simpa [hne] using hd)
    · change Function.update table.heap conn none other = none
      by_cases hne : other = conn
      · rw [hne, Function.update_self]
      · rw [Function.update_of_ne hne]
        exact hfresh other hle

/-- Where the status of a connection changes, the table stays. -/
theorem status_spec (h : table.ListsLive) (hfresh : table.Fresh) {conn : ℕ} (executing : Bool)
    (hlive : table.heap conn ≠ none) :
    ∃ result, table.call (.status conn executing) = some result ∧ table.Keeps result.2 ∧
      result.2.Fresh := by
  obtain ⟨c, hc⟩ := Option.ne_none_iff_exists'.1 hlive
  refine ⟨_, by rw [call, hc]; rfl, ?_, fun other hle ↦ ?_⟩
  · refine ListsLive.keeps ⟨fun other hmem ↦ ?_, fun other d hd ↦ ?_, fun other d hd ↦ ?_⟩
      fun hne hnil ↦ absurd hnil hne
    · change Function.update table.heap conn (some { c with executing }) other ≠ none
      by_cases hne : other = conn
      · rw [hne, Function.update_self]
        exact Option.some_ne_none _
      · rw [Function.update_of_ne hne]
        exact h.live other hmem
    · by_cases hne : other = conn
      · exact hne ▸ h.once conn c hc
      · exact h.once other d (by simpa [hne] using hd)
    · by_cases hne : other = conn
      · subst hne
        obtain rfl : { c with executing } = d := by simpa using hd
        exact h.henv other c hc
      · exact h.henv other d (by simpa [hne] using hd)
  · change Function.update table.heap conn (some { c with executing }) other = none
    have hne : other ≠ conn := by
      rintro rfl
      exact absurd (hfresh other hle) hlive
    rw [Function.update_of_ne hne]
    exact hfresh other hle

/-- What the destruction of an environment does to the connections that are listed. -/
theorem heap_of_destroys (h : table.ListsLive) {env : ℕ} {destroyed : Destroyed}
    (hdestroys : Destroys env table.heap table.conns destroyed) (conn : ℕ) :
    destroyed.heap conn = if doomed env table.heap conn = true then none else table.heap conn := by
  rw [hdestroys.memory]
  by_cases hdoomed : doomed env table.heap conn = true
  · have hmem : some conn ∈ table.conns := by
      obtain ⟨c, hc, -⟩ := (Option.any_eq_true _ _).1 hdoomed
      exact h.mem hc
    rw [if_pos ⟨hmem, hdoomed⟩, if_pos hdoomed]
  · rw [if_neg fun hand ↦ hdoomed hand.2, if_neg hdoomed]

/-- The destruction of an environment is as expected exactly if the condition is met. -/
theorem enDestructor_spec (h : table.ListsLive) (hfresh : table.Fresh) (env : ℕ) :
    ∃ result, table.enDestructor env = some result ∧
      (table.Keeps result.2 ↔ table.Fine (.destructor env)) ∧ result.2.Fresh := by
  obtain ⟨destroyed, hloop, hdestroys⟩ :=
    destroyLoop_spec env table.conns table.heap h.live h.count_le
  have hheap := heap_of_destroys h hdestroys
  have hfresh' (conn : ℕ) (hle : table.allocated ≤ conn) : destroyed.heap conn = none := by
    rw [hheap, hfresh conn hle, ite_self]
  have hresult : table.enDestructor env = some (destroyed.rv,
      { table with
        heap := destroyed.heap
        conns := if destroyed.conns ≠ [] ∧ destroyed.conns.length ≤ destroyed.nullcnt then []
          else destroyed.conns }) := by
    rw [enDestructor, hloop]
    rfl
  refine ⟨_, hresult, ?_, hfresh'⟩
  dsimp only
  by_cases hfreed : destroyed.conns ≠ [] ∧ destroyed.conns.length ≤ destroyed.nullcnt
  · -- all connections that are listed belong to the environment
    have hall := hdestroys.nullcnt.1 (hdestroys.length ▸ hfreed.2)
    rw [if_pos hfreed]
    constructor
    · rintro hkeeps ⟨conn, c, -, hc, -, hexecuting⟩
      have hdoomed : doomed env table.heap conn = false := by simp [doomed, hc, hexecuting]
      have hlive : destroyed.heap conn = some c := by
        rw [hheap, if_neg (by simp [hdoomed]), hc]
      exact absurd (hkeeps.lists.once conn c hlive) (by simp)
    · intro hfine
      have hnone (conn : ℕ) : destroyed.heap conn = none := by
        rw [hheap]
        by_cases hdoomed : doomed env table.heap conn = true
        · exact if_pos hdoomed
        · rw [if_neg hdoomed]
          by_contra hlive
          obtain ⟨c, hc⟩ := Option.ne_none_iff_exists'.1 hlive
          have hmem := h.mem hc
          have hhenv : c.henv = some env := by simpa [belongs, hc] using hall conn hmem
          have hexecuting : c.executing = true := by simpa [doomed, hc, hhenv] using hdoomed
          obtain ⟨other, d, hother, hd, hne⟩ := hfine ⟨conn, c, hmem, hc, hhenv, hexecuting⟩
          exact hne (by simpa [belongs, hd] using hall other hother)
      refine ListsLive.keeps ⟨fun conn hmem ↦ absurd hmem List.not_mem_nil, fun conn c hc ↦ ?_,
        fun conn c hc ↦ ?_⟩ fun _ _ conn _ ↦ hnone conn
      · exact absurd (hc.symm.trans (hnone conn)) (Option.some_ne_none c)
      · exact absurd (hc.symm.trans (hnone conn)) (Option.some_ne_none c)
  · rw [if_neg hfreed]
    refine iff_of_true (ListsLive.keeps ⟨fun conn hmem ↦ ?_, fun conn c hc ↦ ?_, fun conn c hc ↦ ?_⟩
      fun hne hnil ↦ ?_) ?_
    · have hpos := List.count_pos_iff.2 hmem
      change 0 < destroyed.conns.count (some conn) at hpos
      rw [hdestroys.count] at hpos
      by_cases hdoomed : doomed env table.heap conn = true
      · rw [if_pos hdoomed] at hpos
        exact absurd hpos (Nat.lt_irrefl 0)
      · rw [if_neg hdoomed] at hpos
        change destroyed.heap conn ≠ none
        rw [hheap, if_neg hdoomed]
        exact h.live conn (List.count_pos_iff.1 hpos)
    · change destroyed.heap conn = some c at hc
      rw [hheap] at hc
      by_cases hdoomed : doomed env table.heap conn = true
      · exact absurd hc (by simp [hdoomed])
      · rw [if_neg hdoomed] at hc
        change destroyed.conns.count (some conn) = 1
        rw [hdestroys.count, if_neg hdoomed, h.once conn c hc]
    · change destroyed.heap conn = some c at hc
      rw [hheap] at hc
      by_cases hdoomed : doomed env table.heap conn = true
      · exact absurd hc (by simp [hdoomed])
      · rw [if_neg hdoomed] at hc
        exact h.henv conn c hc
    · exact absurd (List.length_eq_zero_iff.1 (hdestroys.length ▸ congrArg List.length hnil)) hne
    · rintro ⟨conn, c, hmem, -, -, -⟩
      have hne : destroyed.conns ≠ [] := fun hnil ↦ absurd hmem
        (List.length_eq_zero_iff.1 (hdestroys.length ▸ congrArg List.length hnil) ▸
          List.not_mem_nil)
      have hsome : ¬ ∀ other, some other ∈ table.conns → belongs env table.heap other = true :=
        fun hall ↦ hfreed ⟨hne, hdestroys.length ▸ hdestroys.nullcnt.2 hall⟩
      obtain ⟨other, hnot⟩ := not_forall.1 hsome
      obtain ⟨hother, hnot⟩ := Classical.not_imp.1 hnot
      obtain ⟨d, hd⟩ := Option.ne_none_iff_exists'.1 (h.live other hother)
      exact ⟨other, d, hother, hd, by simpa [belongs, hd] using hnot⟩

/-- A call is as expected exactly if the condition is met. -/
theorem call_spec (h : table.ListsLive) (hfresh : table.Fresh) {call : ConnCall}
    (hlegal : table.Legal call) :
    ∃ result, table.call call = some result ∧ (table.Keeps result.2 ↔ table.Fine call) ∧
      result.2.Fresh := by
  cases call with
  | allocConnect env reallocFails =>
    obtain ⟨result, hresult, hkeeps, hfresh'⟩ := pgapiAllocConnect_spec h hfresh env reallocFails
    exact ⟨result, hresult, iff_of_true hkeeps trivial, hfresh'⟩
  | freeConnect conn =>
    obtain ⟨result, hresult, hkeeps, hfresh'⟩ := pgapiFreeConnect_spec h hfresh hlegal
    exact ⟨result, hresult, iff_of_true hkeeps trivial, hfresh'⟩
  | destructor env => exact enDestructor_spec h hfresh env
  | status conn executing =>
    obtain ⟨result, hresult, hkeeps, hfresh'⟩ := status_spec h hfresh executing hlegal
    exact ⟨result, hresult, iff_of_true hkeeps trivial, hfresh'⟩

/-- A run from a table that lists the live connections. -/
theorem ListsLive.right_iff (h : table.ListsLive) (hfresh : table.Fresh) (calls : List ConnCall) :
    table.Right calls ↔ table.FineRun calls := by
  induction calls generalizing table with
  | nil => exact Iff.rfl
  | cons call calls ih =>
    refine forall_congr' fun hlegal ↦ ?_
    obtain ⟨result, hresult, hiff, hfresh'⟩ := call_spec h hfresh hlegal
    constructor
    · rintro ⟨result', hresult', hkeeps, hright⟩
      obtain rfl := Option.some.inj (hresult.symm.trans hresult')
      refine ⟨hiff.1 hkeeps, fun result' hresult' ↦ ?_⟩
      obtain rfl := Option.some.inj (hresult.symm.trans hresult')
      exact (ih hkeeps.lists hfresh').1 hright
    · rintro ⟨hfine, hrest⟩
      have hkeeps := hiff.2 hfine
      exact ⟨result, hresult, hkeeps, (ih hkeeps.lists hfresh').2 (hrest result hresult)⟩

theorem listsLive_init : init.ListsLive where
  live conn h := absurd h List.not_mem_nil
  once conn c h := absurd h (by simp [init])
  henv conn c h := absurd h (by simp [init])

theorem fresh_init : init.Fresh := fun _ _ ↦ rfl

/-- In a run of calls, the table lists the live connections behind each of them exactly if no
environment that has an executing connection is destroyed while no other one has connections. -/
theorem lists_live_iff (calls : List ConnCall) : init.Right calls ↔ init.FineRun calls :=
  listsLive_init.right_iff fresh_init calls

/-- An environment is destroyed while its only connection is executing. -/
theorem not_right_executing :
    ¬ init.Right [.allocConnect 0 false, .status 0 true, .destructor 0] := by
  rw [listsLive_init.right_iff fresh_init]
  intro h
  -- the connection in the table, and then executing
  let listed : ConnTable :=
    { heap := Function.update (Function.update (fun _ ↦ none) 0 (some ⟨none, false⟩)) 0
        (some ⟨some 0, false⟩)
      conns := doubled 0 []
      allocated := 1
      owner := Function.update (fun _ ↦ 0) 0 0 }
  let executing : ConnTable :=
    { listed with heap := Function.update listed.heap 0 (some ⟨some 0, true⟩) }
  have hlisted : init.call (.allocConnect 0 false) = some (true, listed) := rfl
  have hexecuting : listed.call (.status 0 true) = some (true, executing) := rfl
  have hlegal : listed.Legal (.status 0 true) := Option.some_ne_none (⟨some 0, false⟩ : ListedConn)
  have hdestructor := (((h trivial).2 _ hlisted hlegal).2 _ hexecuting trivial).1
  obtain ⟨other, d, -, hd, hne⟩ :=
    hdestructor ⟨0, ⟨some 0, true⟩, List.mem_cons_self, rfl, rfl, rfl⟩
  by_cases hother : other = 0
  · subst hother
    exact hne (congrArg ListedConn.henv (Option.some.inj hd)).symm
  · have hnone : executing.heap other = none := by simp [executing, listed, hother]
    exact absurd (hnone.symm.trans hd) (Option.some_ne_none d).symm

end ConnTable

end PsqlOdbc
