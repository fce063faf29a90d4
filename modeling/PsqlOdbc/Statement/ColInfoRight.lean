import PsqlOdbc.Statement.ColInfo

/-!
# The counters of the cached column information

In each step a `TABLE_INFO` gives back the `COL_INFO` that it has pointed to and takes another one,
or the table gives back its entries (`ColiConn.Right` with the references of all the `TABLE_INFO`s).
The numbers of 16 bits are all that can go wrong: a counter that comes to its greatest value, and
the table when it has been doubled to 16384 entries (`ColiStepFine`).
-/

namespace PsqlOdbc

open Lib Lib.CountingBuffer

/-! ## What should hold at any time -/

/-- The listed `COL_INFO`s. -/
def ColiConn.listed (conn : ColiConn) : List Nat := conn.entries.reduceOption

/-- The `COL_INFO`s that `TABLE_INFO`s point to. -/
def ColiState.tiRefs (s : ColiState) : List Nat := s.stmts.flatten.filterMap (·.colInfo)

/-- The counters and the table are right. -/
structure ColiState.CacheRight (s : ColiState) : Prop where
  counted : ∀ coli x, s.read coli = some x →
    x.refcnt = s.tiRefs.count coli + if coli ∈ s.listed then 1 else 0
  live : ∀ coli, coli ∈ s.tiRefs ∨ coli ∈ s.listed → ∃ x, s.read coli = some x
  nodup : s.listed.Nodup
  room : (s.ntables : Int) ≤ s.coliAllocated

/-! ## The steps that keep it -/

namespace ColiConn

/-- One more reference can be counted. -/
def RoomFor (conn : ColiConn) (coli : Nat) : Prop :=
  ∀ x, conn.read coli = some x → x.refcnt < 2 ^ 15 - 1

/-- `getColumnsInfo` comes to an entry that it can count its reference to, or for which there is
room. -/
structure EntryFine (conn : ColiConn) (colInfo : Option Nat) (greloid : Nat) : Prop where
  entry : ∀ coli, conn.entryOf greloid = some (some coli) → colInfo ≠ some coli → conn.RoomFor coli
  new : conn.usedAgain greloid = some none → conn.ntables ≠ 2 ^ 14

/-- `getCOLIfromTI` does so, for a `TABLE_INFO` without a `COL_INFO`. -/
structure LookUpFine (conn : ColiConn) (answers : ColiAnswers) (greloid : Nat)
    (wti : ColiTableInfo) : Prop where
  found : ∀ coli schemaName,
    conn.searchTI answers greloid wti = some (some (some coli, schemaName)) → conn.RoomFor coli
  added : ∀ schemaName, conn.searchTI answers greloid wti = some (some (none, schemaName)) →
    answers.columns ≠ none → conn.EntryFine none greloid

end ColiConn

/-- The `TABLE_INFO` that `SQLColAttribute` uses for a table. -/
def tableInfoFor (tis : List ColiTableInfo) (reloid : Nat) : ColiTableInfo :=
  (tis.find? fun ti ↦ decide (ti.tableOid = reloid)).getD ⟨reloid, none, none, none, false⟩

/-- A step does not come to the end of 16 bits. -/
def ColiStepFine (s : ColiState) : ColiStep → Prop
  | .lookUp stmt i answers => ∀ tis wti, s.stmts[stmt]? = some tis → tis[i]? = some wti →
      wti.colInfo = none → s.LookUpFine answers wti.tableOid wti
  | .describe stmt reloid answers => ∀ tis, s.stmts[stmt]? = some tis → reloid ≠ 0 →
      ((tableInfoFor tis reloid).colInfo = none →
        s.LookUpFine answers reloid (tableInfoFor tis reloid)) ∧
      ((tableInfoFor tis reloid).colInfo ≠ none → (tableInfoFor tis reloid).colAttribute = false →
        (∃ attributes, answers.attributes = some attributes ∧ ∃ c ∈ attributes, c ≠ none) →
        s.EntryFine (tableInfoFor tis reloid).colInfo reloid)
  | .identity schemaIns tableIns answers =>
      tableIns ≠ none → s.LookUpFine answers 0 ⟨0, none, schemaIns, tableIns, false⟩
  | _ => True

/-- A sequence of steps. -/
def ColiState.run (s : ColiState) : List ColiStep → Option ColiState
  | [] => some s
  | a :: as => (s.step a).bind fun s ↦ s.run as

/-- Each step of a sequence is fine in the state in which it is done. -/
def FineRun (s : ColiState) : List ColiStep → Prop
  | [] => True
  | a :: as => ColiStepFine s a ∧ ∀ s', s.step a = some s' → FineRun s' as

/-! ## The invariant -/

theorem filterMap_colInfo_cons (ti : ColiTableInfo) (tis : List ColiTableInfo) :
    (ti :: tis).filterMap (·.colInfo) = ti.colInfo.toList ++ tis.filterMap (·.colInfo) := by
  cases hcoli : ti.colInfo with
  | none => rw [List.filterMap_cons_none hcoli]; rfl
  | some coli => rw [List.filterMap_cons_some hcoli]; rfl

namespace ColiConn

/-- The counters are right for these references of `TABLE_INFO`s. -/
structure Right (conn : ColiConn) (refs : List Nat) : Prop where
  entries : conn.entries = conn.listed.map some
  counted : Counted ColInfo.refcnt conn.memory (conn.listed ++ refs)
  int2 : ∀ i x, conn.read i = some x → x.refcnt < 2 ^ 15
  nodup : conn.listed.Nodup
  allocated : conn.coliAllocated = conn.colInfo.length
  room : conn.ntables ≤ conn.colInfo.length
  doubled : conn.colInfo.length = 0 ∨ ∃ j ≤ 10, conn.colInfo.length = 16 * 2 ^ j

section

variable {conn : ColiConn} {refs refs' : List Nat} {i : Nat} {x : ColInfo}

theorem Right.perm (h : conn.Right refs) (hrefs : refs.Perm refs') : conn.Right refs' :=
  { h with counted := h.counted.perm (hrefs.append_left _) }

theorem Right.read (h : conn.Right refs) (hi : i ∈ conn.listed ++ refs) :
    ∃ x, conn.read i = some x ∧ 0 < x.refcnt := by
  obtain ⟨x, hx⟩ := h.counted.lives i hi
  exact ⟨x, hx, h.counted.pos hx hi⟩

theorem Right.read_listed (h : conn.Right refs) (hi : i ∈ conn.listed) :
    ∃ x, conn.read i = some x := by
  obtain ⟨x, hx, -⟩ := h.read (List.mem_append_left refs hi)
  exact ⟨x, hx⟩

/-- Other memory, with the same table. -/
theorem Right.withMemory (h : conn.Right refs) {memory : List (Option ColInfo)}
    (hcounted : Counted ColInfo.refcnt memory (conn.listed ++ refs'))
    (hint2 : ∀ i x, objectAt memory i = some x → x.refcnt < 2 ^ 15) :
    ({ conn with memory } : ColiConn).Right refs' :=
  { h with
    counted := hcounted
    int2 := hint2 }

theorem read_write_self (hx : conn.read i = some x) (y : ColInfo) :
    (conn.write i y).read i = some y := objectAt_set_self (lt_of_objectAt hx) _

theorem read_write_ne {j : Nat} (h : i ≠ j) (y : ColInfo) :
    (conn.write i y).read j = conn.read j := objectAt_set_ne h _

theorem int2_write (h : conn.Right refs) (hx : conn.read i = some x) {y : ColInfo}
    (hy : y.refcnt < 2 ^ 15) : ∀ j z, (conn.write i y).read j = some z → z.refcnt < 2 ^ 15 := by
  intro j z hz
  by_cases hj : i = j
  · rw [← hj, read_write_self hx] at hz
    cases hz
    exact hy
  · rw [read_write_ne hj] at hz
    exact h.int2 j z hz

/-- A `COL_INFO` is rewritten, with its counter as before. -/
theorem Right.write (h : conn.Right refs) (hx : conn.read i = some x) {y : ColInfo}
    (hy : y.refcnt = x.refcnt) : (conn.write i y).Right refs :=
  h.withMemory (h.counted.update hx hy) (int2_write h hx (hy ▸ h.int2 i x hx))

theorem wrapSigned_int2 {n : Int} (hle : -2 ^ 15 ≤ n) (hlt : n < 2 ^ 15) : wrapSigned 16 n = n :=
  wrapSigned_of_lt (by decide) hle hlt

/-- A reference is taken. -/
theorem Right.addReference (h : conn.Right refs) (hx : conn.read i = some x)
    (hroom : conn.RoomFor i) :
    conn.addReference i = some (conn.write i { x with refcnt := x.refcnt + 1 }) ∧
      (conn.write i { x with refcnt := x.refcnt + 1 }).Right (i :: refs) := by
  have hlt := hroom x hx
  have hcount := h.counted.counts i x hx
  constructor
  · rw [ColiConn.addReference, hx, Option.map_some, wrapSigned_int2 (by omega) (by omega)]
  · have hperm : (i :: (conn.listed ++ refs)).Perm (conn.listed ++ i :: refs) :=
      List.perm_middle.symm
    refine h.withMemory ((h.counted.acquire hx rfl).perm hperm) (int2_write h hx ?_)
    change x.refcnt + 1 < 2 ^ 15
    omega

/-- What a step leaves of the `COL_INFO`s that are still referred to. -/
def Keeps (conn conn' : ColiConn) (refs : List Nat) : Prop :=
  ∀ i ∈ conn.listed ++ refs, ∀ x, conn.read i = some x →
    ∃ x', conn'.read i = some x' ∧ x'.tableOid = x.tableOid ∧ x'.refcnt ≤ x.refcnt

/-- A counter is decreased, and the object freed at zero. -/
theorem release_cases {memory : List (Option ColInfo)} {refs : List Nat} {i : Nat} {x y : ColInfo}
    (h : Counted ColInfo.refcnt memory (i :: refs))
    (hint2 : ∀ j z, objectAt memory j = some z → z.refcnt < 2 ^ 15)
    (hx : objectAt memory i = some x) (hy : y.refcnt = x.refcnt - 1) :
    wrapSigned 16 (x.refcnt - 1) = x.refcnt - 1 ∧
      (x.refcnt - 1 ≤ 0 → Counted ColInfo.refcnt (memory.set i none) refs ∧
        ∀ j z, objectAt (memory.set i none) j = some z → z.refcnt < 2 ^ 15) ∧
      (¬x.refcnt - 1 ≤ 0 → Counted ColInfo.refcnt (memory.set i (some y)) refs ∧
        ∀ j z, objectAt (memory.set i (some y)) j = some z → z.refcnt < 2 ^ 15) := by
  have hpos := h.pos hx List.mem_cons_self
  have hlt := hint2 i x hx
  have hset : ∀ o : Option ColInfo, (∀ z, o = some z → z.refcnt < 2 ^ 15) →
      ∀ j z, objectAt (memory.set i o) j = some z → z.refcnt < 2 ^ 15 := by
    intro o ho j z hz
    by_cases hj : i = j
    · rw [← hj, objectAt_set_self (lt_of_objectAt hx)] at hz
      exact ho z hz
    · rw [objectAt_set_ne hj] at hz
      exact hint2 j z hz
  refine ⟨wrapSigned_int2 (by omega) (by omega), fun hlast ↦ ⟨?_, hset none nofun⟩,
    fun hlast ↦ ⟨h.release hx hy, hset (some y) ?_⟩⟩
  · exact h.releaseLast hx (by omega)
  · rintro z ⟨⟩
    omega

/-- A reference is given back. -/
theorem Right.giveBack (h : conn.Right refs) {wti : ColiTableInfo} {rest : List Nat}
    (hrefs : refs = wti.colInfo.toList ++ rest) :
    ∃ memory, conn.giveBack wti = some { conn with memory } ∧
      ({ conn with memory } : ColiConn).Right rest ∧ conn.Keeps { conn with memory } rest ∧
      ∀ i x, wti.colInfo = some i → i ∈ conn.listed ++ rest → conn.read i = some x →
        ∃ x', objectAt memory i = some x' ∧ x'.refcnt = x.refcnt - 1 := by
  subst hrefs
  cases hcoli : wti.colInfo with
  | none =>
    rw [hcoli] at h
    refine ⟨conn.memory, by rw [ColiConn.giveBack, hcoli], h, ?_, fun i x hi ↦ nomatch hi⟩
    exact fun i _ x hx ↦ ⟨x, hx, rfl, le_rfl⟩
  | some coli =>
    rw [hcoli] at h
    obtain ⟨x, hx, hpos⟩ := h.read (List.mem_append_right _ List.mem_cons_self)
    have hcounted : Counted ColInfo.refcnt conn.memory (coli :: (conn.listed ++ rest)) :=
      h.counted.perm List.perm_middle
    obtain ⟨hwrap, hfree, hless⟩ :=
      @release_cases _ _ _ x { x with refcnt := x.refcnt - 1 } hcounted h.int2 hx rfl
    have hcall : conn.giveBack wti = some (if x.refcnt - 1 ≤ 0 then conn.free coli
        else conn.write coli { x with refcnt := x.refcnt - 1 }) := by
      rw [ColiConn.giveBack, hcoli]
      dsimp only
      rw [hx, Option.map_some, hwrap]
    by_cases hlast : x.refcnt - 1 ≤ 0
    · rw [if_pos hlast] at hcall
      obtain ⟨hfree, hint2⟩ := hfree hlast
      have hnot : coli ∉ conn.listed ++ rest := by
        intro hmem
        obtain ⟨y, hy⟩ := hfree.lives coli hmem
        rw [objectAt_set_self (lt_of_objectAt hx)] at hy
        cases hy
      refine ⟨_, hcall, h.withMemory hfree hint2, ?_, ?_⟩
      · intro j hj y hy
        have hne : coli ≠ j := fun heq ↦ hnot (heq ▸ hj)
        exact ⟨y, (objectAt_set_ne hne none).trans hy, rfl, le_rfl⟩
      · rintro i y hi hmem -
        exact (hnot (Option.some.inj hi ▸ hmem)).elim
    · rw [if_neg hlast] at hcall
      obtain ⟨hless, hint2⟩ := hless hlast
      refine ⟨_, hcall, h.withMemory hless hint2, ?_, ?_⟩
      · intro j hj y hy
        by_cases hne : coli = j
        · subst hne
          rw [hx] at hy
          cases hy
          refine ⟨_, read_write_self hx _, rfl, ?_⟩
          change x.refcnt - 1 ≤ x.refcnt
          omega
        · exact ⟨y, (read_write_ne hne _).trans hy, rfl, le_rfl⟩
      · rintro i y hi - hy
        obtain rfl := Option.some.inj hi
        rw [hx] at hy
        cases hy
        exact ⟨_, read_write_self hx _, rfl⟩

/-! ## Finding an entry -/

/-- The entries in front of the one that is found do not have the property. -/
theorem findEntry_some (p : ColInfo → Bool) {before behind : List Nat}
    (hx : conn.read i = some x) (hp : p x = true)
    (hbefore : ∀ j ∈ before, ∃ y, conn.read j = some y ∧ p y = false) :
    conn.findEntry p ((before ++ i :: behind).map some) = some (some i) := by
  induction before with
  | nil =>
    rw [List.nil_append, List.map_cons, findEntry, hx, Option.bind_some, if_pos hp]
  | cons j before ih =>
    obtain ⟨y, hy, hpy⟩ := hbefore j List.mem_cons_self
    rw [List.cons_append, List.map_cons, findEntry, hy, Option.bind_some,
      if_neg (by rw [hpy]; exact Bool.false_ne_true)]
    exact ih fun k hk ↦ hbefore k (List.mem_cons_of_mem j hk)

/-- What is found in entries that can all be read. -/
theorem findEntry_cases (p : ColInfo → Bool) {l : List Nat}
    (hread : ∀ j ∈ l, ∃ y, conn.read j = some y) :
    (conn.findEntry p (l.map some) = some none ∧
        ∀ j ∈ l, ∃ y, conn.read j = some y ∧ p y = false) ∨
      ∃ before i behind y, l = before ++ i :: behind ∧
        conn.findEntry p (l.map some) = some (some i) ∧ conn.read i = some y ∧ p y = true ∧
        ∀ j ∈ before, ∃ z, conn.read j = some z ∧ p z = false := by
  induction l with
  | nil => exact Or.inl ⟨rfl, List.forall_mem_nil _⟩
  | cons i l ih =>
    obtain ⟨y, hy⟩ := hread i List.mem_cons_self
    by_cases hp : p y = true
    · refine Or.inr ⟨[], i, l, y, rfl, ?_, hy, hp, List.forall_mem_nil _⟩
      exact findEntry_some p hy hp (List.forall_mem_nil _)
    have hnot : p y = false := Bool.eq_false_iff.2 hp
    have hcons : conn.findEntry p ((i :: l).map some) = conn.findEntry p (l.map some) := by
      rw [List.map_cons, findEntry, hy, Option.bind_some, if_neg hp]
    rcases ih fun j hj ↦ hread j (List.mem_cons_of_mem i hj) with
      ⟨hfind, hall⟩ | ⟨before, k, behind, z, rfl, hfind, hz, hpz, hbefore⟩
    · refine Or.inl ⟨hcons.trans hfind, ?_⟩
      rintro j (_ | ⟨_, hj⟩)
      · exact ⟨y, hy, hnot⟩
      · exact hall j hj
    · refine Or.inr ⟨i :: before, k, behind, z, rfl, hcons.trans hfind, hz, hpz, ?_⟩
      rintro j (_ | ⟨_, hj⟩)
      · exact ⟨y, hy, hnot⟩
      · exact hbefore j hj

/-- What is found in the table. -/
theorem Right.findEntry_mem (h : conn.Right refs) (p : ColInfo → Bool) :
    ∃ r, conn.findEntry p conn.entries = some r ∧ ∀ coli, r = some coli → coli ∈ conn.listed := by
  rw [h.entries]
  rcases findEntry_cases p fun j hj ↦ h.read_listed hj with
    ⟨hfind, -⟩ | ⟨before, i, behind, y, hl, hfind, -⟩
  · exact ⟨none, hfind, nofun⟩
  · refine ⟨some i, hfind, ?_⟩
    rintro coli ⟨⟩
    rw [hl]
    exact List.mem_append_right _ List.mem_cons_self

theorem Right.entryOf_mem (h : conn.Right refs) (greloid : Nat) :
    ∃ r, conn.entryOf greloid = some r ∧ ∀ coli, r = some coli → coli ∈ conn.listed := by
  rw [entryOf]
  by_cases hzero : greloid = 0
  · rw [if_pos hzero]
    exact ⟨none, rfl, nofun⟩
  · rw [if_neg hzero]
    exact h.findEntry_mem _

theorem findEntry_write {p : ColInfo → Bool} {y : ColInfo} (hx : conn.read i = some x)
    (hp : p y = p x) (l : List (Option Nat)) :
    (conn.write i y).findEntry p l = conn.findEntry p l := by
  induction l with
  | nil => rfl
  | cons o l ih =>
    cases o with
    | none => rfl
    | some j =>
      rw [findEntry, findEntry, ih]
      by_cases hj : i = j
      · rw [← hj, read_write_self hx, hx, Option.bind_some, Option.bind_some, hp]
      · rw [read_write_ne hj]

/-- The entry for a table stays the same when a counter changes. -/
theorem entryOf_write {y : ColInfo} (hx : conn.read i = some x) (hy : y.tableOid = x.tableOid)
    (greloid : Nat) : (conn.write i y).entryOf greloid = conn.entryOf greloid := by
  have hp : decide (y.tableOid = greloid) = decide (x.tableOid = greloid) := by
    rw [hy]
  rw [entryOf, entryOf]
  exact congrArg (ite _ _) (findEntry_write hx hp conn.entries)

/-- An entry that is taken over has no other reference. -/
theorem unusedEntry_spec (conn : ColiConn) {l : List Nat}
    (hread : ∀ j ∈ l, ∃ y, conn.read j = some y) {ccoli : Option Nat} (hccoli : ∀ coli, ccoli = some coli →
      ∃ x, conn.read coli = some x ∧ x.refcnt ≤ 1) (acctime : Int) :
    ∃ unused r, conn.unusedEntry (l.map some) ccoli acctime = some (unused, r) ∧
      (∀ coli, r = some coli → (coli ∈ l ∨ ccoli = some coli) ∧
        ∃ x, conn.read coli = some x ∧ x.refcnt ≤ 1) ∧ (unused = true → r ≠ none) := by
  induction l generalizing ccoli acctime with
  | nil =>
    refine ⟨false, ccoli, rfl, fun coli hcoli ↦ ⟨Or.inr hcoli, hccoli coli hcoli⟩, nofun⟩
  | cons i l ih =>
    obtain ⟨y, hy⟩ := hread i List.mem_cons_self
    have hrest : ∀ {ccoli' : Option Nat} (acctime' : Int), (∀ coli, ccoli' = some coli →
        (coli = i ∨ ccoli = some coli) ∧ ∃ x, conn.read coli = some x ∧ x.refcnt ≤ 1) →
        ∃ unused r, conn.unusedEntry (l.map some) ccoli' acctime' = some (unused, r) ∧
          (∀ coli, r = some coli → (coli ∈ i :: l ∨ ccoli = some coli) ∧
            ∃ x, conn.read coli = some x ∧ x.refcnt ≤ 1) ∧ (unused = true → r ≠ none) := by
      intro ccoli' acctime' hccoli'
      obtain ⟨unused, r, hcall, hr, hunused⟩ := ih
        (fun j hj ↦ hread j (List.mem_cons_of_mem i hj)) (fun coli hcoli ↦ (hccoli' coli hcoli).2)
        acctime'
      refine ⟨unused, r, hcall, fun coli hcoli ↦ ?_, hunused⟩
      obtain ⟨hmem, hread'⟩ := hr coli hcoli
      rcases hmem with hmem | hmem
      · exact ⟨Or.inl (List.mem_cons_of_mem i hmem), hread'⟩
      · rcases (hccoli' coli hmem).1 with rfl | hmem'
        · exact ⟨Or.inl List.mem_cons_self, hread'⟩
        · exact ⟨Or.inr hmem', hread'⟩
    have hkeep : ∀ coli, ccoli = some coli →
        (coli = i ∨ ccoli = some coli) ∧ ∃ x, conn.read coli = some x ∧ x.refcnt ≤ 1 :=
      fun coli hcoli ↦ ⟨Or.inr hcoli, hccoli coli hcoli⟩
    rw [List.map_cons, unusedEntry, hy, Option.bind_some]
    by_cases hused : 1 < y.refcnt
    · rw [if_pos hused]
      exact hrest acctime hkeep
    rw [if_neg hused]
    have hi : ∀ coli, some i = some coli →
        (coli = i ∨ ccoli = some coli) ∧ ∃ x, conn.read coli = some x ∧ x.refcnt ≤ 1 := by
      rintro coli ⟨⟩
      exact ⟨Or.inl rfl, y, hy, Int.not_lt.1 hused⟩
    split_ifs
    · refine ⟨true, some i, rfl, ?_, nofun⟩
      rintro coli ⟨⟩
      exact ⟨Or.inl List.mem_cons_self, y, hy, Int.not_lt.1 hused⟩
    · exact hrest y.accTime hi
    · exact hrest acctime hkeep

/-- The entry that is used again. -/
theorem Right.usedAgain (h : conn.Right refs) (greloid : Nat) :
    ∃ r, conn.usedAgain greloid = some r ∧ (r = none → conn.entryOf greloid = some none) ∧
      ∀ coli, r = some coli → coli ∈ conn.listed ∧ (conn.entryOf greloid = some (some coli) ∨
        conn.entryOf greloid = some none ∧ ∃ x, conn.read coli = some x ∧ x.refcnt ≤ 1) := by
  obtain ⟨r, hentry, hr⟩ := h.entryOf_mem greloid
  rw [ColiConn.usedAgain, hentry, Option.bind_some]
  cases r with
  | some coli =>
    refine ⟨some coli, rfl, nofun, ?_⟩
    rintro coli' ⟨⟩
    exact ⟨hr coli rfl, Or.inl rfl⟩
  | none =>
    obtain ⟨unused, r, hcall, hr, -⟩ := @unusedEntry_spec conn conn.listed
      (fun j hj ↦ h.read_listed hj) none nofun 0
    have hcoli : ∀ coli, r = some coli → coli ∈ conn.listed ∧
        (some none = some (some coli) ∨ some (none : Option Nat) = some none ∧
          ∃ x, conn.read coli = some x ∧ x.refcnt ≤ 1) := by
      intro coli hcoli
      obtain ⟨hmem, hx⟩ := hr coli hcoli
      exact ⟨hmem.resolve_right nofun, Or.inr ⟨rfl, hx⟩⟩
    have hnone : ¬(none : Option Nat).isSome = true := Bool.false_ne_true
    rw [if_neg hnone, h.entries, hcall, Option.map_some]
    dsimp only
    split_ifs
    · exact ⟨r, rfl, fun _ ↦ rfl, hcoli⟩
    · exact ⟨r, rfl, fun _ ↦ rfl, hcoli⟩
    · exact ⟨none, rfl, fun _ ↦ rfl, nofun⟩

/-! ## A new entry -/

/-- The table is doubled where it is full. -/
theorem Right.enlarge (h : conn.Right refs) (hne : conn.ntables ≠ 2 ^ 14) :
    ∃ behind : List (Option Nat), conn.enlarge = { conn with
        colInfo := conn.colInfo ++ behind
        coliAllocated := (conn.colInfo ++ behind).length } ∧
      conn.ntables < (conn.colInfo ++ behind).length ∧
      ∃ j ≤ 10, (conn.colInfo ++ behind).length = 16 * 2 ^ j := by
  have hallocated := h.allocated
  have hroom := h.room
  rw [ColiConn.enlarge]
  by_cases hfull : conn.coliAllocated ≤ conn.ntables
  · rw [if_pos hfull]
    -- The new size fits in 16 bits.
    obtain ⟨n, hn, hlt, hdoubled⟩ : ∃ n : Nat, (if wrapSigned 16 (conn.coliAllocated * 2) ≤
        conn.ntables then coliIncr else wrapSigned 16 (conn.coliAllocated * 2)) = n ∧
        conn.colInfo.length < n ∧ ∃ j ≤ 10, n = 16 * 2 ^ j := by
      rcases h.doubled with hzero | ⟨j, hj, hlength⟩
      · refine ⟨16, ?_, by omega, 0, by decide, by decide⟩
        rw [if_pos]
        · rfl
        · rw [hallocated, hzero]
          exact Int.natCast_nonneg _
      · have hj10 : j ≠ 10 := by
          rintro rfl
          omega
        have hpow : 16 * 2 ^ j ≤ 2 ^ 13 := by
          have hle := Nat.pow_le_pow_right (n := 2) (by decide) (by omega : j ≤ 9)
          omega
        have hwrap : wrapSigned 16 (conn.coliAllocated * 2) = conn.coliAllocated * 2 :=
          wrapSigned_int2 (by omega) (by omega)
        have hpos := Nat.pow_pos (n := j) (by decide : 0 < 2)
        refine ⟨16 * 2 ^ (j + 1), ?_, by rw [pow_succ]; omega, j + 1, by omega, rfl⟩
        rw [hwrap, if_neg (by omega), pow_succ]
        omega
    refine ⟨List.replicate (n - conn.colInfo.length) none, ?_, ?_, ?_⟩
    · dsimp only
      rw [hn, Int.toNat_natCast, List.take_of_length_le hlt.le, List.length_append,
        List.length_replicate, Nat.add_sub_of_le hlt.le]
    · rw [List.length_append, List.length_replicate]
      omega
    · rw [List.length_append, List.length_replicate, Nat.add_sub_of_le hlt.le]
      exact hdoubled
  · rw [if_neg hfull]
    refine ⟨[], ?_, ?_, ?_⟩
    · rw [List.append_nil, ← hallocated]
    · rw [List.append_nil]
      omega
    · rw [List.append_nil]
      exact h.doubled.resolve_left (by omega)

/-- A new entry that `y` is written to. -/
theorem Right.addEntry (h : conn.Right refs) (hne : conn.ntables ≠ 2 ^ 14) :
    ∃ conn1, conn.addEntry = some (conn.memory.length, conn1) ∧
      conn1.read conn.memory.length = some ({} : ColInfo) ∧ ∀ y : ColInfo, y.refcnt = 1 →
        (conn1.write conn.memory.length y).Right refs ∧
        (conn1.write conn.memory.length y).listed = conn.listed ++ [conn.memory.length] ∧
        ∀ j, j ≠ conn.memory.length → (conn1.write conn.memory.length y).read j = conn.read j := by
  obtain ⟨behind, henlarge, hlt, hdoubled⟩ := h.enlarge hne
  have hstore : store (conn.colInfo ++ behind) conn.ntables (some conn.memory.length) =
      some ((conn.colInfo ++ behind).set conn.ntables (some conn.memory.length)) := if_pos hlt
  refine ⟨{
    memory := conn.memory ++ [some {}]
    colInfo := (conn.colInfo ++ behind).set conn.ntables (some conn.memory.length)
    coliAllocated := (conn.colInfo ++ behind).length
    ntables := conn.ntables + 1 }, ?_, objectAt_append_self conn.memory _, fun y hy ↦ ?_⟩
  · rw [ColiConn.addEntry, henlarge]
    dsimp only
    rw [hstore, Option.map_some]
  have hmemory : (conn.memory ++ [some ({} : ColInfo)]).set conn.memory.length (some y) =
      conn.memory ++ [some y] := by
    rw [List.set_append_right _ _ le_rfl, Nat.sub_self]
    rfl
  have hentries : ((conn.colInfo ++ behind).set conn.ntables (some conn.memory.length)).take
      (conn.ntables + 1) = conn.entries ++ [some conn.memory.length] := by
    rw [List.take_add_one, List.take_set_of_le le_rfl, List.getElem?_set_self hlt,
      List.take_append_of_le_length h.room]
    rfl
  have hlisted : (conn.entries ++ [some conn.memory.length]).reduceOption =
      conn.listed ++ [conn.memory.length] := by
    rw [List.reduceOption_append]
    rfl
  have hnew : conn.memory.length ∉ conn.listed := by
    intro hmem
    obtain ⟨x, hx⟩ := h.read_listed hmem
    exact absurd (lt_of_objectAt hx) (Nat.lt_irrefl _)
  simp only [ColiConn.write, hmemory]
  have hlisted' : ({
      memory := conn.memory ++ [some y]
      colInfo := (conn.colInfo ++ behind).set conn.ntables (some conn.memory.length)
      coliAllocated := (conn.colInfo ++ behind).length
      ntables := conn.ntables + 1 } : ColiConn).listed = conn.listed ++ [conn.memory.length] := by
    rw [ColiConn.listed, ColiConn.entries, hentries, hlisted]
  refine ⟨⟨?_, ?_, ?_, ?_, ?_, ?_, Or.inr ?_⟩, hlisted', fun j hj ↦ objectAt_append_ne hj y⟩
  · rw [hlisted', ColiConn.entries, hentries, List.map_append, ← h.entries]
    rfl
  · rw [hlisted']
    refine (h.counted.alloc hy).perm ?_
    rw [List.append_assoc]
    exact List.perm_middle.symm
  · intro j z hz
    by_cases hj : j = conn.memory.length
    · have hself := objectAt_append_self conn.memory y
      rw [← hj] at hself
      rw [ColiConn.read, hself] at hz
      cases hz
      rw [hy]
      decide
    · rw [ColiConn.read, objectAt_append_ne hj] at hz
      exact h.int2 j z hz
  · rw [hlisted']
    exact List.nodup_append_comm.1 (List.nodup_cons.2 ⟨hnew, h.nodup⟩)
  · dsimp only
    rw [List.length_set]
  · dsimp only
    rw [List.length_set]
    omega
  · dsimp only
    rw [List.length_set]
    exact hdoubled

/-! ## Taking an entry -/

variable {wti : ColiTableInfo} {rest : List Nat} {greloid : Nat} {res : ColumnsRow}

theorem fill_tableOid (hne : wti.tableOid ≠ 0) (res : ColumnsRow) :
    (wti.fill greloid res).tableOid = wti.tableOid := if_neg hne

/-- What is written to an entry for a table. -/
def entryFor (wti : ColiTableInfo) (greloid : Nat) (res : ColumnsRow) (refcnt : Int) : ColInfo where
  refcnt := refcnt
  result := some res
  schemaName := (wti.fill greloid res).schemaName
  tableName := (wti.fill greloid res).tableName
  tableOid := (wti.fill greloid res).tableOid

/-- An entry that has been written is taken, and the one before is given back. -/
theorem Right.associate {coli : Nat} {tmpRefcnt refcnt : Int}
    (hrefcnt : wrapSigned 16 (wrapSigned 16 tmpRefcnt + 1) = refcnt) {conn1 : ColiConn}
    (hconn1 : conn.write coli (entryFor wti greloid res refcnt) = conn1)
    (h : conn1.Right (wti.colInfo.toList ++ rest)) (hcoli : coli ∈ conn1.listed)
    (hread : conn1.read coli = some (entryFor wti greloid res refcnt))
    (hroom : wti.colInfo = some coli ∨ refcnt < 2 ^ 15 - 1) :
    ∃ conn', conn.associate wti greloid res coli tmpRefcnt =
        some (true, conn', { wti.fill greloid res with colInfo := some coli }) ∧
      conn'.Right (coli :: rest) ∧ conn'.entries = conn1.entries ∧
      ∀ j ∈ conn1.listed, ∀ x, conn1.read j = some x →
        ∃ x', conn'.read j = some x' ∧ x'.tableOid = x.tableOid := by
  obtain ⟨memory, hgive, hright, hkeeps, hself⟩ := @Right.giveBack conn1 _ h (wti.fill greloid res) rest rfl
  have hlt := h.int2 coli _ hread
  obtain ⟨x, hx, -, hle⟩ := hkeeps coli (List.mem_append_left rest hcoli) _ hread
  have hroom' : ({ conn1 with memory } : ColiConn).RoomFor coli := by
    intro x' hx'
    rw [hx] at hx'
    cases hx'
    change refcnt < 2 ^ 15 at hlt
    change x.refcnt ≤ refcnt at hle
    rcases hroom with hown | hroom
    · obtain ⟨x', hx', heq⟩ := hself coli _ hown (List.mem_append_left rest hcoli) hread
      rw [show objectAt memory coli = some x from hx] at hx'
      cases hx'
      change x.refcnt = refcnt - 1 at heq
      omega
    · omega
  obtain ⟨hadd, hright'⟩ := hright.addReference hx hroom'
  refine ⟨_, ?_, hright', rfl, ?_⟩
  · rw [ColiConn.associate]
    dsimp only
    rw [hrefcnt]
    change ((conn.write coli (entryFor wti greloid res refcnt)).giveBack _).bind _ = _
    rw [hconn1, hgive, Option.bind_some, hadd, Option.map_some]
  · intro j hj y hy
    obtain ⟨y', hy', htable, -⟩ := hkeeps j (List.mem_append_left rest hj) y hy
    by_cases hne : coli = j
    · subst hne
      rw [hx] at hy'
      cases hy'
      exact ⟨_, read_write_self hx _, htable⟩
    · exact ⟨y', (read_write_ne hne _).trans hy', htable⟩

/-- The first entry for a table is the one that has been taken. -/
theorem entryOf_of_split {conn1 : ColiConn} (h : conn1.Right refs') (hgreloid : greloid ≠ 0)
    {coli : Nat} {before behind : List Nat} (hlisted : conn1.listed = before ++ coli :: behind)
    (hentries : conn.entries = conn1.entries)
    (hkeep : ∀ j ∈ conn1.listed, ∀ x, conn1.read j = some x →
      ∃ x', conn.read j = some x' ∧ x'.tableOid = x.tableOid)
    (hx : conn1.read coli = some x) (htable : x.tableOid = greloid)
    (hbefore : ∀ j ∈ before, ∃ y, conn1.read j = some y ∧ y.tableOid ≠ greloid) :
    conn.entryOf greloid = some (some coli) := by
  have hcoli : coli ∈ conn1.listed := by
    rw [hlisted]
    exact List.mem_append_right _ List.mem_cons_self
  obtain ⟨x', hx', htable'⟩ := hkeep coli hcoli x hx
  rw [entryOf, if_neg hgreloid, hentries, h.entries, hlisted]
  refine findEntry_some _ hx' (decide_eq_true (htable'.trans htable)) fun j hj ↦ ?_
  obtain ⟨y, hy, hne⟩ := hbefore j hj
  obtain ⟨y', hy', htable'⟩ := hkeep j (by rw [hlisted]; exact List.mem_append_left _ hj) y hy
  refine ⟨y', hy', decide_eq_false ?_⟩
  rwa [htable']

/-- Without an entry for the table. -/
theorem Right.tableOid_of_entryOf (h : conn.Right refs) (hgreloid : greloid ≠ 0)
    (hentry : conn.entryOf greloid = some none) {j : Nat} (hj : j ∈ conn.listed) :
    ∃ y, conn.read j = some y ∧ y.tableOid ≠ greloid := by
  rw [entryOf, if_neg hgreloid, h.entries] at hentry
  rcases @findEntry_cases conn (fun x ↦ decide (x.tableOid = greloid)) conn.listed
    fun j hj ↦ h.read_listed hj with ⟨-, hall⟩ | ⟨before, i, behind, y, hl, hfind, -⟩
  · obtain ⟨y, hy, hp⟩ := hall j hj
    exact ⟨y, hy, of_decide_eq_false hp⟩
  · rw [hfind] at hentry
    cases Option.some.inj hentry

/-- Where the entries are in front of which there is none for the table. -/
theorem Right.split_of_entryOf (h : conn.Right refs) (hgreloid : greloid ≠ 0) {coli : Nat}
    (hcoli : coli ∈ conn.listed) (hentry : conn.entryOf greloid = some (some coli) ∨
      conn.entryOf greloid = some none) :
    ∃ before behind, conn.listed = before ++ coli :: behind ∧
      ∀ j ∈ before, j ≠ coli ∧ ∃ y, conn.read j = some y ∧ y.tableOid ≠ greloid := by
  have hnodup := h.nodup
  rw [entryOf, if_neg hgreloid, h.entries] at hentry
  rcases @findEntry_cases conn (fun x ↦ decide (x.tableOid = greloid)) conn.listed
    fun j hj ↦ h.read_listed hj with ⟨-, hall⟩ | ⟨before, i, behind, y, hl, hfind, -, -, hbefore⟩
  · obtain ⟨before, behind, hl⟩ := List.append_of_mem hcoli
    refine ⟨before, behind, hl, fun j hj ↦ ⟨?_, ?_⟩⟩
    · rw [hl] at hnodup
      exact (List.nodup_append.1 hnodup).2.2 j hj coli List.mem_cons_self
    · obtain ⟨y, hy, hp⟩ := hall j (by rw [hl]; exact List.mem_append_left _ hj)
      exact ⟨y, hy, of_decide_eq_false hp⟩
  · rw [hfind] at hentry
    rcases hentry with hentry | hentry
    · obtain rfl := Option.some.inj (Option.some.inj hentry)
      refine ⟨before, behind, hl, fun j hj ↦ ⟨?_, ?_⟩⟩
      · rw [hl] at hnodup
        exact (List.nodup_append.1 hnodup).2.2 j hj i List.mem_cons_self
      · obtain ⟨y, hy, hp⟩ := hbefore j hj
        exact ⟨y, hy, of_decide_eq_false hp⟩
    · cases Option.some.inj hentry

/-- What `getColumnsInfo` makes of the table's references. -/
theorem Right.getColumnsInfo (h : conn.Right (wti.colInfo.toList ++ rest))
    (hfine : conn.EntryFine wti.colInfo greloid) (res : ColumnsRow) :
    ∃ conn' wti' coli, conn.getColumnsInfo wti greloid (some res) = some (true, conn', wti') ∧
      wti'.colInfo = some coli ∧ (wti.tableOid ≠ 0 → wti'.tableOid = wti.tableOid) ∧
      conn'.Right (coli :: rest) ∧
      (greloid ≠ 0 → wti.tableOid = greloid → conn'.entryOf greloid = some (some coli)) := by
  obtain ⟨r, hused, hnone, hr⟩ := h.usedAgain greloid
  cases r with
  | some coli =>
    obtain ⟨hlisted, hentry⟩ := hr coli rfl
    obtain ⟨x, hx, hpos⟩ := h.read (List.mem_append_left _ hlisted)
    have hlt := h.int2 coli x hx
    have hless : wrapSigned 16 (x.refcnt - 1) = x.refcnt - 1 :=
      wrapSigned_int2 (by omega) (by omega)
    have hwrap : wrapSigned 16 (wrapSigned 16 (x.refcnt - 1) + 1) = x.refcnt := by
      rw [hless, Int.sub_add_cancel, wrapSigned_int2 (by omega) hlt]
    have hright : (conn.write coli (entryFor wti greloid res x.refcnt)).Right _ := h.write hx rfl
    have hroom : wti.colInfo = some coli ∨ x.refcnt < 2 ^ 15 - 1 := by
      rcases hentry with hentry | ⟨-, y, hy, hle⟩
      · by_cases hown : wti.colInfo = some coli
        · exact Or.inl hown
        · exact Or.inr (hfine.entry coli hentry hown x hx)
      · rw [hx] at hy
        cases hy
        exact Or.inr (by omega)
    obtain ⟨conn', hcall, hright', hentries, hkeep⟩ := Right.associate hwrap rfl hright hlisted
      (read_write_self hx _) hroom
    refine ⟨conn', { wti.fill greloid res with colInfo := some coli }, coli, ?_, rfl,
      fun hne ↦ fill_tableOid hne res, hright', fun hgreloid htable ↦ ?_⟩
    · rw [ColiConn.getColumnsInfo, hused, Option.bind_some]
      dsimp only
      rw [hx, Option.bind_some, hcall]
    · obtain ⟨before, behind, hl, hbefore⟩ := h.split_of_entryOf hgreloid hlisted
        (hentry.imp_right And.left)
      refine entryOf_of_split hright hgreloid hl hentries hkeep (read_write_self hx _) ?_ ?_
      · exact (fill_tableOid (htable ▸ hgreloid) res).trans htable
      · intro j hj
        obtain ⟨hne, y, hy, hy'⟩ := hbefore j hj
        exact ⟨y, (read_write_ne (Ne.symm hne) _).trans hy, hy'⟩
  | none =>
    obtain ⟨conn1, hadd, hread, hwrite⟩ := h.addEntry (hfine.new hused)
    obtain ⟨hright, hlisted, hother⟩ := hwrite (entryFor wti greloid res 1) rfl
    have hmem : conn.memory.length ∈
        (conn1.write conn.memory.length (entryFor wti greloid res 1)).listed := by
      rw [hlisted]
      exact List.mem_append_right _ (List.mem_singleton_self _)
    obtain ⟨conn', hcall, hright', hentries, hkeep⟩ := @Right.associate conn1 wti rest greloid res
      conn.memory.length 0 1 (by decide) _ rfl hright hmem (read_write_self hread _)
      (Or.inr (by decide))
    refine ⟨conn', { wti.fill greloid res with colInfo := some conn.memory.length },
      conn.memory.length, ?_, rfl, fun hne ↦ fill_tableOid hne res, hright',
      fun hgreloid htable ↦ ?_⟩
    · rw [ColiConn.getColumnsInfo, hused, Option.bind_some]
      dsimp only
      rw [hadd, Option.bind_some, hcall]
    · refine entryOf_of_split hright hgreloid hlisted hentries hkeep (read_write_self hread _)
        ((fill_tableOid (htable ▸ hgreloid) res).trans htable) ?_
      intro j hj
      have hne : j ≠ conn.memory.length := by
        rintro rfl
        obtain ⟨x, hx⟩ := h.read_listed hj
        exact absurd (lt_of_objectAt hx) (Nat.lt_irrefl _)
      obtain ⟨y, hy, htable'⟩ := h.tableOid_of_entryOf hgreloid (hnone rfl) hj
      exact ⟨y, (hother j hne).trans hy, htable'⟩

/-! ## Looking a table up -/

theorem Right.getCOLIfromTable_mem (h : conn.Right refs) (answers : ColiAnswers)
    (schemaName tableName : Option (List UInt8)) :
    ∃ r, conn.getCOLIfromTable answers schemaName tableName = some r ∧
      ∀ coli schemaName', r = some (some coli, schemaName') → coli ∈ conn.listed := by
  have hfind : ∀ schemaName : Option (List UInt8), ∃ r, conn.findEntry
      (fun x ↦ nameicmpEq x.tableName tableName && nameicmpEq x.schemaName schemaName)
      conn.entries = some r ∧ ∀ coli, r = some coli → coli ∈ conn.listed :=
    fun schemaName ↦ h.findEntry_mem _
  rw [getCOLIfromTable]
  dsimp only
  by_cases htable : tableName = none
  · rw [if_pos htable]
    exact ⟨_, rfl, nofun⟩
  rw [if_neg htable]
  by_cases hschema : schemaName = none
  · rw [if_pos hschema]
    -- First the current schema, and then the one of the search path.
    obtain ⟨r, hr, hmem⟩ : ∃ r, (if answers.currentSchema = none then some none
        else conn.findEntry (fun x ↦ nameicmpEq x.tableName tableName &&
          nameicmpEq x.schemaName answers.currentSchema) conn.entries) = some r ∧
        ∀ coli, r = some coli → coli ∈ conn.listed := by
      by_cases hcurrent : answers.currentSchema = none
      · rw [if_pos hcurrent]
        exact ⟨none, rfl, nofun⟩
      · rw [if_neg hcurrent]
        exact hfind _
    rw [hr, Option.bind_some]
    by_cases hfound : r.isSome = true
    · rw [if_pos hfound]
      refine ⟨_, rfl, ?_⟩
      rintro coli schemaName' ⟨⟩
      exact hmem coli rfl
    rw [if_neg hfound]
    by_cases hregclass : answers.regclassSchema = none
    · rw [if_pos hregclass]
      exact ⟨none, rfl, nofun⟩
    · obtain ⟨r, hr, hmem⟩ := hfind answers.regclassSchema
      rw [if_neg hregclass, hr, Option.map_some]
      refine ⟨_, rfl, ?_⟩
      rintro coli schemaName' ⟨⟩
      exact hmem coli rfl
  · obtain ⟨r, hr, hmem⟩ := hfind schemaName
    rw [if_neg hschema, hr, Option.map_some]
    refine ⟨_, rfl, ?_⟩
    rintro coli schemaName' ⟨⟩
    exact hmem coli rfl

/-- What the look-up in the table finds is listed. -/
theorem Right.searchTI_mem (h : conn.Right refs) (answers : ColiAnswers) (greloid : Nat)
    (wti : ColiTableInfo) : ∃ r, conn.searchTI answers greloid wti = some r ∧
      ∀ coli schemaName, r = some (some coli, schemaName) → coli ∈ conn.listed := by
  rw [searchTI]
  by_cases hgreloid : greloid ≠ 0
  · obtain ⟨r, hr, hmem⟩ := h.entryOf_mem greloid
    rw [if_pos hgreloid, hr, Option.map_some]
    refine ⟨_, rfl, ?_⟩
    rintro coli schemaName ⟨⟩
    exact hmem coli rfl
  · rw [if_neg hgreloid]
    exact h.getCOLIfromTable_mem answers wti.schemaName wti.tableName

/-- An entry that the `TABLE_INFO` points to already is fine. -/
theorem EntryFine.own {coli : Nat} (hentry : conn.entryOf greloid = some (some coli)) :
    conn.EntryFine (some coli) greloid where
  entry coli' hcoli' hne := by
    rw [hentry] at hcoli'
    cases hcoli'
    exact (hne rfl).elim
  new hused := by
    rw [usedAgain, hentry, Option.bind_some] at hused
    cases hused

/-- The columns in a row that `ColAttSet` asks for. -/
theorem Right.refresh (h : conn.Right (wti.colInfo.toList ++ rest)) (hoid : wti.tableOid ≠ 0)
    (hinfo : wti.colInfo ≠ none) {attributes : List (Option ColumnsRow)}
    (hfine : (∃ c ∈ attributes, c ≠ none) → conn.EntryFine wti.colInfo wti.tableOid) :
    ∃ conn' wti', conn.refresh wti attributes = some (conn', wti') ∧
      conn'.Right (wti'.colInfo.toList ++ rest) ∧ wti'.colInfo ≠ none := by
  induction attributes generalizing conn wti with
  | nil => exact ⟨conn, wti, rfl, h, hinfo⟩
  | cons columns attributes ih =>
    cases columns with
    | none =>
      obtain ⟨conn', wti', hcall, hright⟩ := ih h hoid hinfo
        fun ⟨c, hc, hne⟩ ↦ hfine ⟨c, List.mem_cons_of_mem none hc, hne⟩
      exact ⟨conn', wti', hcall, hright⟩
    | some res =>
      obtain ⟨conn1, wti1, coli, hget, hcoli, htable, hright, hentry⟩ := h.getColumnsInfo
        (hfine ⟨some res, List.mem_cons_self, nofun⟩) res
      have htable' := htable hoid
      have hright1 : conn1.Right (wti1.colInfo.toList ++ rest) := by
        rw [hcoli]
        exact hright
      obtain ⟨conn', wti', hcall, hright'⟩ := ih hright1 (by rwa [htable'])
        (by rw [hcoli]; exact nofun) fun _ ↦ by
          rw [hcoli, htable']
          exact EntryFine.own (hentry hoid rfl)
      refine ⟨conn', wti', ?_, hright'⟩
      rw [ColiConn.refresh, hget, Option.bind_some]
      exact hcall

/-- `ColAttSet`. -/
theorem Right.colAttSet (h : conn.Right (wti.colInfo.toList ++ rest)) (hinfo : wti.colInfo ≠ none)
    (answers : ColiAnswers) (hfine : wti.colAttribute = false →
      (∃ attributes, answers.attributes = some attributes ∧ ∃ c ∈ attributes, c ≠ none) →
        conn.EntryFine wti.colInfo wti.tableOid) :
    ∃ conn' wti', conn.colAttSet answers wti = some (conn', wti') ∧
      conn'.Right (wti'.colInfo.toList ++ rest) ∧ wti'.colInfo ≠ none := by
  rw [ColiConn.colAttSet]
  by_cases hdone : wti.tableOid = 0 ∨ wti.colAttribute = true
  · rw [if_pos hdone]
    exact ⟨conn, wti, rfl, h, hinfo⟩
  rw [if_neg hdone]
  rw [not_or, Bool.not_eq_true] at hdone
  cases hattributes : answers.attributes with
  | none => exact ⟨conn, wti, rfl, h, hinfo⟩
  | some attributes =>
    obtain ⟨conn', wti', hcall, hright, hinfo'⟩ := h.refresh hdone.1 hinfo
      fun hsome ↦ hfine hdone.2 ⟨attributes, hattributes, hsome⟩
    refine ⟨conn', { wti' with colAttribute := true }, ?_, hright, hinfo'⟩
    dsimp only
    rw [hcall, Option.map_some]

/-- The end of a look-up. -/
theorem Right.foundTI (h : conn.Right (wti.colInfo.toList ++ rest)) (hinfo : wti.colInfo ≠ none)
    (answers : ColiAnswers) (colatt : Bool) (greloid : Nat)
    (hfine : colatt = true → wti.tableOid ≠ 0 ∧ (wti.colAttribute = false →
      (∃ attributes, answers.attributes = some attributes ∧ ∃ c ∈ attributes, c ≠ none) →
        conn.EntryFine wti.colInfo wti.tableOid)) :
    ∃ conn' wti', conn.foundTI answers colatt greloid wti = some (conn', wti') ∧
      conn'.Right (wti'.colInfo.toList ++ rest) := by
  obtain ⟨coli, hcoli⟩ := Option.ne_none_iff_exists'.1 hinfo
  obtain ⟨x, hx, -⟩ := h.read (i := coli) (by rw [hcoli]; simp)
  obtain ⟨wti1, hwti1, hinfo1, htable1, hattribute1⟩ : ∃ wti1 : ColiTableInfo,
      conn.foundTI answers colatt greloid wti =
        ((if colatt then conn.colAttSet answers wti1 else some (conn, wti1)).bind fun p ↦
          p.2.colInfo.bind fun coli ↦ (p.1.read coli).map fun x ↦
            (p.1.write coli { x with accTime := answers.time }, p.2)) ∧
      wti1.colInfo = wti.colInfo ∧ (wti.tableOid ≠ 0 → wti1.tableOid = wti.tableOid) ∧
      wti1.colAttribute = wti.colAttribute := by
    rw [ColiConn.foundTI, hcoli, Option.bind_some, hx, Option.bind_some]
    cases x.result with
    | none => exact ⟨wti, rfl, hcoli, fun _ ↦ rfl, rfl⟩
    | some res => exact ⟨_, rfl, hcoli, fun hne ↦ fill_tableOid hne res, rfl⟩
  rw [← hinfo1] at h hinfo
  obtain ⟨conn', wti', hcall, hright, hinfo'⟩ : ∃ conn' wti',
      (if colatt then conn.colAttSet answers wti1 else some (conn, wti1)) = some (conn', wti') ∧
      conn'.Right (wti'.colInfo.toList ++ rest) ∧ wti'.colInfo ≠ none := by
    by_cases hcolatt : colatt = true
    · obtain ⟨hoid, hfine⟩ := hfine hcolatt
      rw [if_pos hcolatt]
      refine h.colAttSet hinfo answers ?_
      rwa [hattribute1, hinfo1, htable1 hoid]
    · rw [if_neg hcolatt]
      exact ⟨conn, wti1, rfl, h, hinfo⟩
  obtain ⟨coli', hcoli'⟩ := Option.ne_none_iff_exists'.1 hinfo'
  obtain ⟨x', hx', -⟩ := hright.read (i := coli') (by rw [hcoli']; simp)
  refine ⟨conn'.write coli' { x' with accTime := answers.time }, wti', ?_, hright.write hx' rfl⟩
  rw [hwti1, hcall, Option.bind_some, hcoli', Option.bind_some, hx', Option.map_some]

/-- A look-up of a `TABLE_INFO`.  With `colatt` it is one of the table `reloid`. -/
theorem Right.getCOLIfromTI (h : conn.Right (wti.colInfo.toList ++ rest)) (answers : ColiAnswers)
    (colatt : Bool) (reloid : Nat) (hcolatt : colatt = true → reloid ≠ 0 ∧ wti.tableOid = reloid)
    (hlookUp : wti.colInfo = none →
      conn.LookUpFine answers (if reloid = 0 then wti.tableOid else reloid) wti)
    (hrefresh : colatt = true → wti.colInfo ≠ none → wti.colAttribute = false →
      (∃ attributes, answers.attributes = some attributes ∧ ∃ c ∈ attributes, c ≠ none) →
        conn.EntryFine wti.colInfo reloid) :
    ∃ conn' wti', conn.getCOLIfromTI answers colatt reloid wti = some (conn', wti') ∧
      conn'.Right (wti'.colInfo.toList ++ rest) := by
  rw [ColiConn.getCOLIfromTI]
  dsimp only
  cases hinfo : wti.colInfo with
  | some coli =>
    rw [if_pos (by rfl)]
    refine h.foundTI (by rw [hinfo]; exact nofun) answers colatt _ fun hc ↦ ?_
    obtain ⟨hreloid, htable⟩ := hcolatt hc
    rw [htable]
    exact ⟨hreloid, hrefresh hc (by rw [hinfo]; exact nofun)⟩
  | none =>
    rw [hinfo] at h
    have hfine := hlookUp hinfo
    rw [if_neg (by exact Bool.false_ne_true)]
    generalize hgreloid : (if reloid = 0 then wti.tableOid else reloid) = greloid at hfine ⊢
    have hgreloid' : colatt = true → greloid = reloid := by
      intro hc
      rw [← hgreloid, if_neg (hcolatt hc).1]
    obtain ⟨r, hsearch, hmem⟩ := h.searchTI_mem answers greloid wti
    rw [hsearch, Option.bind_some]
    match r with
    | none => exact ⟨conn, wti, rfl, by rw [hinfo]; exact h⟩
    | some (some coli, schemaName) =>
      -- A reference to a listed entry.
      obtain ⟨x, hx⟩ := h.read_listed (hmem coli schemaName rfl)
      obtain ⟨hadd, hright⟩ := h.addReference hx (hfine.found coli schemaName hsearch)
      dsimp only
      rw [hadd, Option.bind_some]
      refine @Right.foundTI _ { wti with schemaName, colInfo := some coli } rest hright nofun
        answers colatt greloid fun hc ↦ ?_
      obtain ⟨hreloid, htable⟩ := hcolatt hc
      rw [hgreloid' hc, searchTI, if_pos hreloid] at hsearch
      obtain ⟨r, hentry, hr⟩ := Option.map_eq_some_iff.1 hsearch
      cases hr
      refine ⟨htable ▸ hreloid, fun _ _ ↦ EntryFine.own ?_⟩
      refine (@entryOf_write conn coli x { x with refcnt := x.refcnt + 1 } hx rfl _).trans ?_
      rw [← hentry]
      exact congrArg conn.entryOf htable
    | some (none, schemaName) =>
      dsimp only
      by_cases hask : greloid ≠ 0 ∨ wti.tableName ≠ none
      · rw [if_pos hask]
        cases hcolumns : answers.columns with
        | none => exact ⟨conn, { wti with schemaName, colInfo := none }, rfl, h⟩
        | some res =>
          have hadded := hfine.added schemaName hsearch (by rw [hcolumns]; exact nofun)
          obtain ⟨conn1, wti1, coli, hget, hcoli, htable, hright, hentry⟩ :=
            @Right.getColumnsInfo conn { wti with schemaName, colInfo := none } rest greloid h
              hadded res
          rw [hget, Option.bind_some]
          dsimp only
          rw [if_pos rfl]
          refine Right.foundTI (by rw [hcoli]; exact hright) (by rw [hcoli]; exact nofun) answers
            colatt greloid fun hc ↦ ?_
          obtain ⟨hreloid, hoid⟩ := hcolatt hc
          have hgreloid'' := hgreloid' hc
          have hne : wti.tableOid ≠ 0 := hoid ▸ hreloid
          rw [htable hne, hcoli]
          refine ⟨hne, fun _ _ ↦ EntryFine.own ?_⟩
          dsimp only
          rw [hoid, ← hgreloid'']
          exact hentry (by rwa [hgreloid'']) (hoid.trans hgreloid''.symm)
      · rw [if_neg hask]
        exact ⟨conn, { wti with schemaName, colInfo := none }, rfl, h⟩

/-! ## Giving entries back -/

theorem Right.tiClearObject {ti : ColiTableInfo} (h : conn.Right (ti.colInfo.toList ++ rest)) :
    ∃ conn', conn.tiClearObject ti = some conn' ∧ conn'.Right rest := by
  rw [ColiConn.tiClearObject]
  cases hcoli : ti.colInfo with
  | none =>
    rw [hcoli] at h
    exact ⟨conn, rfl, h⟩
  | some coli =>
    rw [hcoli] at h
    obtain ⟨x, hx, -⟩ := h.read (List.mem_append_right _ List.mem_cons_self)
    have hcounted : Counted ColInfo.refcnt conn.memory (coli :: (conn.listed ++ rest)) :=
      h.counted.perm List.perm_middle
    dsimp only
    rw [hx, Option.map_some]
    obtain ⟨y, hy, hrefcnt⟩ : ∃ y : ColInfo, (if wrapSigned 16 (x.refcnt - 1) ≤ 1 ∧ x.accTime = 0
        then { refcnt := wrapSigned 16 (x.refcnt - 1) }
        else { x with refcnt := wrapSigned 16 (x.refcnt - 1) }) = y ∧
        y.refcnt = wrapSigned 16 (x.refcnt - 1) := by
      split_ifs
      · exact ⟨_, rfl, rfl⟩
      · exact ⟨_, rfl, rfl⟩
    obtain ⟨hwrap, hfree, hless⟩ := release_cases hcounted h.int2 hx (y := { y with
      refcnt := x.refcnt - 1 }) rfl
    have hself : ({ y with refcnt := x.refcnt - 1 } : ColInfo) = y := by
      rw [← hwrap, ← hrefcnt]
    rw [hself] at hless
    rw [hy, hwrap]
    by_cases hlast : x.refcnt - 1 ≤ 0
    · rw [if_pos hlast]
      exact ⟨_, rfl, h.withMemory (hfree hlast).1 (hfree hlast).2⟩
    · rw [if_neg hlast]
      exact ⟨_, rfl, h.withMemory (hless hlast).1 (hless hlast).2⟩

/-- The `TABLE_INFO`s of a statement go. -/
theorem Right.tiDestructor {tis : List ColiTableInfo}
    (h : conn.Right (tis.filterMap (·.colInfo) ++ rest)) :
    ∃ conn', conn.tiDestructor tis = some conn' ∧ conn'.Right rest := by
  induction tis generalizing conn with
  | nil => exact ⟨conn, rfl, h⟩
  | cons ti tis ih =>
    rw [filterMap_colInfo_cons, List.append_assoc] at h
    obtain ⟨conn1, hclear, hright⟩ := h.tiClearObject
    obtain ⟨conn', hcall, hright'⟩ := ih hright
    refine ⟨conn', ?_, hright'⟩
    rw [ColiConn.tiDestructor, hclear, Option.bind_some, hcall]

/-- The table gives back its entries. -/
theorem clearEntries_spec {l : List Nat} (hcounted : Counted ColInfo.refcnt conn.memory (l ++ refs))
    (hint2 : ∀ j z, objectAt conn.memory j = some z → z.refcnt < 2 ^ 15) :
    ∃ memory entries, conn.clearEntries (l.map some) = some ({ conn with memory }, entries) ∧
      entries.length = l.length ∧ Counted ColInfo.refcnt memory refs ∧
      ∀ j z, objectAt memory j = some z → z.refcnt < 2 ^ 15 := by
  induction l generalizing conn with
  | nil => exact ⟨conn.memory, [], rfl, rfl, hcounted, hint2⟩
  | cons i l ih =>
    obtain ⟨x, hx⟩ := hcounted.lives i List.mem_cons_self
    obtain ⟨hwrap, hfree, hless⟩ := @release_cases _ _ _ x
      { x with refcnt := x.refcnt - 1, accTime := 0 } hcounted hint2 hx rfl
    rw [List.map_cons, clearEntries, ColiConn.read, hx, Option.bind_some]
    dsimp only
    rw [hwrap]
    by_cases hlast : x.refcnt - 1 ≤ 0
    · obtain ⟨memory, entries, hcall, hlength, hright⟩ :=
        @ih (conn.free i) (hfree hlast).1 (hfree hlast).2
      rw [if_pos hlast, hcall, Option.map_some]
      exact ⟨memory, none :: entries, rfl, congrArg (· + 1) hlength, hright⟩
    · obtain ⟨memory, entries, hcall, hlength, hright⟩ :=
        @ih (conn.write i _) (hless hlast).1 (hless hlast).2
      rw [if_neg hlast, hcall, Option.map_some]
      exact ⟨memory, some i :: entries, rfl, congrArg (· + 1) hlength, hright⟩

/-- `CC_clear_col_info`. -/
theorem Right.ccClearColInfo (h : conn.Right refs) (destroy : Bool) :
    ∃ conn', conn.ccClearColInfo destroy = some conn' ∧ conn'.Right refs := by
  rw [ColiConn.ccClearColInfo]
  by_cases hempty : conn.colInfo = []
  · rw [if_pos hempty]
    exact ⟨conn, rfl, h⟩
  obtain ⟨memory, entries, hcall, hlength, hcounted, hint2⟩ := clearEntries_spec h.counted h.int2
  rw [if_neg hempty, h.entries, hcall, Option.map_some]
  refine ⟨_, rfl, ?_⟩
  cases destroy with
  | true => exact ⟨rfl, hcounted, hint2, List.nodup_nil, rfl, le_rfl, Or.inl rfl⟩
  | false =>
    have hentries : entries.length = conn.ntables := by
      rw [hlength, ← List.length_map (f := some), ← h.entries, ColiConn.entries,
        List.length_take, Nat.min_eq_left h.room]
    have hkeep : (entries ++ conn.colInfo.drop conn.ntables).length = conn.colInfo.length := by
      rw [List.length_append, hentries, List.length_drop, Nat.add_sub_cancel' h.room]
    refine ⟨rfl, hcounted, hint2, List.nodup_nil, ?_, Nat.zero_le _, ?_⟩
    · exact h.allocated.trans (congrArg _ hkeep.symm)
    · change (entries ++ _).length = 0 ∨ ∃ j ≤ 10, (entries ++ _).length = _
      rw [hkeep]
      exact h.doubled

end

end ColiConn

/-! ## Steps and runs -/

theorem set_eq {α : Type*} {l : List α} {i : Nat} {a : α} (h : l[i]? = some a) (b : α) :
    l.set i b = l.take i ++ b :: l.drop (i + 1) :=
  List.set_eq_take_append_cons_drop.trans (if_pos (List.getElem?_eq_some_iff.1 h).1)

theorem set_self {α : Type*} {l : List α} {i : Nat} {a : α} (h : l[i]? = some a) :
    l.set i a = l := by
  obtain ⟨hlt, rfl⟩ := List.getElem?_eq_some_iff.1 h
  exact List.set_getElem_self hlt

/-- The reference of one `TABLE_INFO`, and the others of the statement. -/
theorem tiRefs_tableInfo {tis : List ColiTableInfo} {i : Nat} {wti : ColiTableInfo}
    (h : tis[i]? = some wti) : ∃ rest, ∀ wti', ((tis.set i wti').filterMap (·.colInfo)).Perm
      (wti'.colInfo.toList ++ rest) := by
  refine ⟨(tis.take i).filterMap (·.colInfo) ++ (tis.drop (i + 1)).filterMap (·.colInfo),
    fun wti' ↦ ?_⟩
  rw [set_eq h, List.filterMap_append, filterMap_colInfo_cons]
  exact List.perm_append_comm_assoc _ _ _

/-- The references of one statement, and those of the others. -/
theorem tiRefs_stmt {stmts : List (List ColiTableInfo)} {stmt : Nat} {tis : List ColiTableInfo}
    (h : stmts[stmt]? = some tis) : ∃ rest, ∀ tis', ((stmts.set stmt tis').flatten.filterMap
      (·.colInfo)).Perm (tis'.filterMap (·.colInfo) ++ rest) := by
  refine ⟨(stmts.take stmt).flatten.filterMap (·.colInfo) ++
    (stmts.drop (stmt + 1)).flatten.filterMap (·.colInfo), fun tis' ↦ ?_⟩
  rw [set_eq h, List.flatten_append, List.flatten_cons, List.filterMap_append,
    List.filterMap_append]
  exact List.perm_append_comm_assoc _ _ _

/-- Where `SQLColAttribute` finds the `TABLE_INFO` of a table. -/
theorem tableInfoFor_spec (tis : List ColiTableInfo) (reloid : Nat) :
    let i := tis.findIdx fun ti ↦ decide (ti.tableOid = reloid)
    let tis' := if i < tis.length then tis else tis ++ [⟨reloid, none, none, none, false⟩]
    tis'.filterMap (·.colInfo) = tis.filterMap (·.colInfo) ∧
      tis'[i]? = some (tableInfoFor tis reloid) ∧ (tableInfoFor tis reloid).tableOid = reloid := by
  dsimp only
  have hfind := @List.find?_eq_getElem?_findIdx _ tis fun ti ↦ decide (ti.tableOid = reloid)
  rw [tableInfoFor]
  by_cases hlt : (tis.findIdx fun ti ↦ decide (ti.tableOid = reloid)) < tis.length
  · rw [if_pos hlt, hfind, List.getElem?_eq_getElem hlt]
    exact ⟨rfl, rfl, of_decide_eq_true
      (@List.findIdx_getElem _ (fun ti ↦ decide (ti.tableOid = reloid)) tis hlt)⟩
  · have hlength := Nat.le_antisymm List.findIdx_le_length (Nat.not_lt.1 hlt)
    rw [if_neg hlt, hfind, hlength, List.getElem?_eq_none le_rfl, List.getElem?_concat_length,
      List.filterMap_append]
    exact ⟨List.append_nil _, rfl, rfl⟩

namespace ColiState

variable {s : ColiState}

/-- A `TABLE_INFO` of a statement is looked up. -/
theorem right_lookUpAt {stmt i : Nat} {tis0 tis : List ColiTableInfo} {wti : ColiTableInfo}
    (h : s.Right s.tiRefs) (hstmt : s.stmts[stmt]? = some tis0)
    (htis : tis.filterMap (·.colInfo) = tis0.filterMap (·.colInfo)) (hwti : tis[i]? = some wti)
    (answers : ColiAnswers) (colatt : Bool) (reloid : Nat)
    (hcolatt : colatt = true → reloid ≠ 0 ∧ wti.tableOid = reloid)
    (hlookUp : wti.colInfo = none →
      s.LookUpFine answers (if reloid = 0 then wti.tableOid else reloid) wti)
    (hrefresh : colatt = true → wti.colInfo ≠ none → wti.colAttribute = false →
      (∃ attributes, answers.attributes = some attributes ∧ ∃ c ∈ attributes, c ≠ none) →
        s.EntryFine wti.colInfo reloid) :
    ∃ s', s.lookUpAt stmt i tis colatt reloid answers = some s' ∧ s'.Right s'.tiRefs := by
  obtain ⟨others, hothers⟩ := tiRefs_stmt hstmt
  obtain ⟨rest, hrest⟩ := tiRefs_tableInfo hwti
  have hbefore : s.tiRefs.Perm (wti.colInfo.toList ++ (rest ++ others)) := by
    have hself := hothers tis
    have hwti' := hrest wti
    rw [set_self hwti] at hwti'
    have hold := hothers tis0
    rw [set_self hstmt, ← htis] at hold
    rw [← List.append_assoc]
    exact hold.trans (hwti'.append_right others)
  obtain ⟨conn', wti', hcall, hright⟩ :=
    (h.perm hbefore).getCOLIfromTI answers colatt reloid hcolatt hlookUp hrefresh
  refine ⟨⟨conn', s.stmts.set stmt (tis.set i wti')⟩, ?_, hright.perm ?_⟩
  · rw [lookUpAt, hwti]
    dsimp only
    rw [hcall, Option.map_some]
  · rw [← List.append_assoc]
    exact (((hothers _).trans ((hrest wti').append_right others))).symm

/-- What a step keeps. -/
theorem right_step (h : s.Right s.tiRefs) {a : ColiStep} (ha : ColiStepFine s a) :
    ∃ s', s.step a = some s' ∧ s'.Right s'.tiRefs := by
  cases a with
  | allocStmt =>
    refine ⟨_, rfl, ?_⟩
    have hrefs : ({ s with stmts := s.stmts ++ [[]] } : ColiState).tiRefs = s.tiRefs := by
      rw [tiRefs, List.flatten_append]
      exact congrArg (List.filterMap _) (List.append_nil _)
    rw [hrefs]
    exact h
  | tableName stmt schemaName tableName =>
    refine ⟨_, rfl, ?_⟩
    rw [List.modify_eq_set_getElem?]
    cases hstmt : s.stmts[stmt]? with
    | none => exact h
    | some tis =>
      obtain ⟨others, hothers⟩ := tiRefs_stmt hstmt
      have hold := hothers tis
      rw [set_self hstmt] at hold
      refine h.perm (hold.trans ?_)
      have hnew := hothers (tis ++ [⟨0, none, schemaName, tableName, false⟩])
      rw [List.filterMap_append] at hnew
      change List.Perm _ ((tis.filterMap (·.colInfo) ++ []) ++ others) at hnew
      rw [List.append_nil] at hnew
      exact hnew.symm
  | lookUp stmt i answers =>
    rw [step]
    cases hstmt : s.stmts[stmt]? with
    | none => exact ⟨s, rfl, h⟩
    | some tis =>
      dsimp only
      cases hwti : tis[i]? with
      | none =>
        rw [lookUpAt, hwti]
        exact ⟨s, rfl, h⟩
      | some wti =>
        refine right_lookUpAt h hstmt rfl hwti answers false 0 nofun ?_ nofun
        rw [if_pos rfl]
        exact ha tis wti hstmt hwti
  | describe stmt reloid answers =>
    rw [step]
    cases hstmt : s.stmts[stmt]? with
    | none => exact ⟨s, rfl, h⟩
    | some tis =>
      dsimp only
      by_cases hreloid : reloid = 0
      · rw [if_pos hreloid]
        exact ⟨s, rfl, h⟩
      rw [if_neg hreloid]
      obtain ⟨hlookUp, hrefresh⟩ := ha tis hstmt hreloid
      obtain ⟨htis, hwti, htable⟩ := tableInfoFor_spec tis reloid
      refine right_lookUpAt h hstmt htis hwti answers true reloid (fun _ ↦ ⟨hreloid, htable⟩) ?_
        fun _ ↦ hrefresh
      rw [if_neg hreloid]
      exact hlookUp
  | identity schemaIns tableIns answers =>
    rw [step]
    by_cases htable : tableIns = none
    · rw [if_pos htable]
      exact ⟨s, rfl, h⟩
    rw [if_neg htable]
    obtain ⟨conn1, ti, hcall, hright⟩ := @ColiConn.Right.getCOLIfromTI s.toColiConn
      ⟨0, none, schemaIns, tableIns, false⟩ s.tiRefs h answers false 0 nofun
      (fun _ ↦ ha htable) nofun
    obtain ⟨conn', hclear, hright'⟩ := hright.tiClearObject
    refine ⟨⟨conn', s.stmts⟩, ?_, hright'⟩
    rw [hcall, Option.bind_some]
    dsimp only
    rw [hclear, Option.map_some]
  | initializeColsInfo stmt =>
    rw [step]
    cases hstmt : s.stmts[stmt]? with
    | none => exact ⟨s, rfl, h⟩
    | some tis =>
      obtain ⟨others, hothers⟩ := tiRefs_stmt hstmt
      have hold := hothers tis
      rw [set_self hstmt] at hold
      obtain ⟨conn', hcall, hright⟩ := (h.perm hold).tiDestructor
      refine ⟨⟨conn', s.stmts.set stmt []⟩, ?_, hright.perm (hothers []).symm⟩
      dsimp only
      rw [hcall, Option.map_some]
  | clearColInfo destroy =>
    obtain ⟨conn', hcall, hright⟩ := h.ccClearColInfo destroy
    refine ⟨⟨conn', s.stmts⟩, ?_, hright⟩
    rw [step, hcall, Option.map_some]

theorem right_fresh : fresh.Right fresh.tiRefs where
  entries := rfl
  counted := ⟨fun i _ hx ↦ absurd (lt_of_objectAt hx) (Nat.not_lt_zero i), nofun⟩
  int2 i _ hx := absurd (lt_of_objectAt hx) (Nat.not_lt_zero i)
  nodup := List.nodup_nil
  allocated := rfl
  room := le_rfl
  doubled := Or.inl rfl

/-- What the invariant says. -/
theorem cacheRight_of_right (h : s.Right s.tiRefs) : s.CacheRight where
  counted coli x hx := by
    rw [h.counted.counts coli x hx, List.count_append, Int.natCast_add, Int.add_comm]
    congr 1
    by_cases hmem : coli ∈ s.listed
    · rw [if_pos hmem, List.count_eq_one_of_mem h.nodup hmem]
      rfl
    · rw [if_neg hmem, List.count_eq_zero_of_not_mem hmem]
      rfl
  live coli hcoli := h.counted.lives coli (List.mem_append.2 hcoli.symm)
  nodup := h.nodup
  room := by
    rw [h.allocated]
    exact Int.ofNat_le.2 h.room

theorem right_run (steps : List ColiStep) (h : s.Right s.tiRefs) (hsteps : FineRun s steps) :
    ∃ s', s.run steps = some s' ∧ s'.Right s'.tiRefs := by
  induction steps generalizing s with
  | nil => exact ⟨s, rfl, h⟩
  | cons a as ih =>
    obtain ⟨s1, hstep, hright⟩ := right_step h hsteps.1
    obtain ⟨s', hrun, hright'⟩ := ih hright (hsteps.2 s1 hstep)
    refine ⟨s', ?_, hright'⟩
    rw [run, hstep, Option.bind_some, hrun]

end ColiState

theorem FineRun.of_prefix {s : ColiState} {before steps : List ColiStep} (h : FineRun s steps)
    (hbefore : before <+: steps) : FineRun s before := by
  induction before generalizing s steps with
  | nil => trivial
  | cons a before ih =>
    obtain ⟨behind, rfl⟩ := hbefore
    exact ⟨h.1, fun s' hs' ↦ ih (h.2 s' hs') (List.prefix_append before behind)⟩

/-- The counters and the table are right after each step, as long as 16 bits are enough. -/
theorem cacheRight_of_fineRun {steps before : List ColiStep} (h : FineRun ColiState.fresh steps)
    (hbefore : before <+: steps) :
    ∃ s, ColiState.fresh.run before = some s ∧ s.CacheRight := by
  obtain ⟨s, hrun, hright⟩ := ColiState.right_run before ColiState.right_fresh (h.of_prefix hbefore)
  exact ⟨s, hrun, ColiState.cacheRight_of_right hright⟩

theorem FineRun.cons {s s1 : ColiState} {a : ColiStep} {as : List ColiStep} (ha : ColiStepFine s a)
    (hstep : s.step a = some s1) (h : FineRun s1 as) : FineRun s (a :: as) := by
  refine ⟨ha, fun s' hs' ↦ ?_⟩
  rw [hstep] at hs'
  cases hs'
  exact h

/-! ## Too many references -/

/-- The columns of a table that many `TABLE_INFO`s are for. -/
def sharedColumns : ColumnsRow := ⟨16384, some (ascii "public"), some (ascii "t")⟩

def sharedAnswers : ColiAnswers := ⟨none, none, some sharedColumns, none, 1⟩

/-- The name of the table, before it is looked up. -/
def sharedName : ColiTableInfo := ⟨0, none, some (ascii "public"), some (ascii "t"), false⟩

/-- The `TABLE_INFO` after it has been looked up. -/
def sharedTable : ColiTableInfo := ⟨16384, some 0, some (ascii "public"), some (ascii "t"), false⟩

/-- A statement with `n` of the tables looked up, and `m` not yet. -/
def sharedState (n m : Nat) : ColiState where
  memory := [some
    { refcnt := wrapSigned 16 (n + 1)
      result := some sharedColumns
      schemaName := some (ascii "public")
      tableName := some (ascii "t")
      tableOid := 16384
      accTime := 1 }]
  colInfo := some 0 :: List.replicate 15 none
  coliAllocated := 16
  ntables := 1
  stmts := [List.replicate n sharedTable ++ List.replicate m sharedName]

theorem ColiState.run_append (s : ColiState) (as bs : List ColiStep) :
    s.run (as ++ bs) = (s.run as).bind fun s ↦ s.run bs := by
  induction as generalizing s with
  | nil => rfl
  | cons a as ih =>
    rw [List.cons_append, run, run, Option.bind_assoc]
    exact congrArg _ (funext fun s ↦ ih s)

/-- The names come first. -/
theorem run_names (n m : Nat) :
    (⟨⟨[], [], 0, 0⟩, [List.replicate m sharedName]⟩ : ColiState).run
        (List.replicate n (.tableName 0 sharedName.schemaName sharedName.tableName)) =
      some ⟨⟨[], [], 0, 0⟩, [List.replicate (m + n) sharedName]⟩ := by
  induction n generalizing m with
  | zero => rfl
  | succ n ih =>
    rw [List.replicate_succ, ColiState.run, ColiState.step, Option.bind_some]
    have hstmts : [List.replicate m sharedName].modify 0 (· ++ [sharedName]) =
        [List.replicate (m + 1) sharedName] := by
      rw [List.replicate_succ']
      rfl
    have hnext := ih (m + 1)
    rw [← hstmts, Nat.add_right_comm, Nat.add_assoc] at hnext
    exact hnext

theorem wrapSigned_wrapSigned_add (n : Int) :
    wrapSigned 16 (wrapSigned 16 n + 1) = wrapSigned 16 (n + 1) := by
  rw [wrapSigned, wrapSigned, wrapSigned]
  omega

/-- What the next look-up does to the connection. -/
theorem getCOLIfromTI_shared (n m : Nat) :
    (sharedState n m).getCOLIfromTI sharedAnswers false 0 sharedName =
      some ((sharedState (n + 1) m).toColiConn, sharedTable) := by
  have hcast : ((n + 1 : Nat) : Int) = n + 1 := Int.natCast_succ n
  have hwrap : wrapSigned 16 (wrapSigned 16 ((n : Int) + 1) + 1) =
      wrapSigned 16 (((n + 1 : Nat) : Int) + 1) := by
    rw [hcast, wrapSigned_wrapSigned_add]
  rw [sharedState, sharedState]
  dsimp only
  rw [← hwrap]
  rfl

/-- Another reference to the `COL_INFO`. -/
theorem step_shared (n m : Nat) :
    (sharedState n (m + 1)).step (.lookUp 0 n sharedAnswers) = some (sharedState (n + 1) m) := by
  have hlength : (List.replicate n sharedTable).length = n := List.length_replicate
  have hnext : (List.replicate n sharedTable ++ List.replicate (m + 1) sharedName)[n]? =
      some sharedName := by
    rw [List.getElem?_append_right hlength.le, hlength, Nat.sub_self]
    rfl
  have hset : (List.replicate n sharedTable ++ List.replicate (m + 1) sharedName).set n
      sharedTable = List.replicate (n + 1) sharedTable ++ List.replicate m sharedName := by
    rw [List.set_append_right _ _ hlength.le, hlength, Nat.sub_self,
      List.replicate_succ' (a := sharedTable), List.append_assoc]
    rfl
  change (sharedState n (m + 1)).lookUpAt 0 n
    (List.replicate n sharedTable ++ List.replicate (m + 1) sharedName) false 0 sharedAnswers = _
  rw [ColiState.lookUpAt, hnext]
  dsimp only
  rw [getCOLIfromTI_shared, Option.map_some, hset]
  rfl

/-- The look-ups up to the `n`th one. -/
def lookUps (n : Nat) : List ColiStep := (List.range n).map fun i ↦ .lookUp 0 i sharedAnswers

theorem run_lookUps (n m : Nat) :
    (⟨⟨[], [], 0, 0⟩, [List.replicate (n + 1 + m) sharedName]⟩ : ColiState).run (lookUps (n + 1)) =
      some (sharedState (n + 1) m) := by
  induction n generalizing m with
  | zero =>
    rw [Nat.zero_add, Nat.add_comm, List.replicate_succ]
    rfl
  | succ n ih =>
    have hnext := ih (m + 1)
    rw [show n + 1 + (m + 1) = n + 1 + 1 + m by omega] at hnext
    rw [lookUps, List.range_succ, List.map_append, ColiState.run_append]
    rw [lookUps] at hnext
    rw [hnext, Option.bind_some]
    change ((sharedState (n + 1) (m + 1)).step (.lookUp 0 (n + 1) sharedAnswers)).bind _ = _
    rw [step_shared]
    rfl

/-- A statement with `n` times the same table. -/
def manyTables (n : Nat) : List ColiStep :=
  .allocStmt :: List.replicate n (.tableName 0 sharedName.schemaName sharedName.tableName) ++
    lookUps n

theorem run_manyTables (n : Nat) :
    ColiState.fresh.run (manyTables (n + 1)) = some (sharedState (n + 1) 0) := by
  have hnames := run_names (n + 1) 0
  have hlookUps := run_lookUps n 0
  rw [Nat.zero_add] at hnames
  have halloc : ∀ steps, ColiState.fresh.run (.allocStmt :: steps) =
      (⟨⟨[], [], 0, 0⟩, [List.replicate 0 sharedName]⟩ : ColiState).run steps := fun _ ↦ rfl
  rw [manyTables, ColiState.run_append, halloc, hnames, Option.bind_some]
  exact hlookUps

/-- Two of them are fine. -/
theorem fineRun_twoTables : FineRun ColiState.fresh (manyTables 2) := by
  refine .cons trivial rfl (.cons trivial rfl (.cons trivial rfl (.cons ?_ rfl (.cons ?_ rfl
    trivial))))
  · rintro tis wti ⟨⟩ ⟨⟩ -
    constructor
    · rintro coli schemaName ⟨⟩
    · rintro schemaName - -
      exact ⟨nofun, fun _ ↦ by decide⟩
  · rintro tis wti ⟨⟩ ⟨⟩ -
    constructor
    · rintro coli schemaName ⟨⟩
      rintro x ⟨⟩
      decide
    · rintro schemaName ⟨⟩

/-- Each of two references is counted. -/
theorem cacheRight_twoTables :
    ∃ s, ColiState.fresh.run (manyTables 2) = some s ∧ s.CacheRight :=
  cacheRight_of_fineRun fineRun_twoTables (List.prefix_refl (manyTables 2))

/-- The counter is negative then. -/
theorem not_cacheRight_sharedState {n m : Nat} (h : wrapSigned 16 (n + 1) < 0) :
    ¬(sharedState n m).CacheRight := by
  intro hright
  have hcount := hright.counted 0 _ rfl
  dsimp only at hcount
  split_ifs at hcount
  all_goals omega

/-- With 32767 of them the counter has gone around. -/
theorem not_cacheRight_of_many :
    ¬∀ steps, ∃ s, ColiState.fresh.run steps = some s ∧ s.CacheRight := by
  intro h
  obtain ⟨s, hrun, hright⟩ := h (manyTables (32766 + 1))
  rw [run_manyTables] at hrun
  cases hrun
  exact not_cacheRight_sharedState (by decide) hright

end PsqlOdbc
