import Mathlib.Data.List.Count
import Mathlib.Logic.Function.Basic

/-!
# Lifetime of descriptors (`descriptor.c`, `pgapi30.c`, `connection.c`)

A statement has descriptors embedded in it, and an application may allocate others on a connection
and attach them to statements.  The connection has a table of the descriptors allocated on it, a
statement a mere reference to each of the two that it uses.
-/

namespace PsqlOdbc

/-! ## The table of a connection -/

/-- `DESC_INCREMENT`. -/
def descIncrement : ℕ := 10

/-- `CC_add_descriptor`: into the first free place of the table, or behind it. -/
def ccAddDescriptor (desc : ℕ) : List (Option ℕ) → List (Option ℕ)
  | [] => some desc :: List.replicate (descIncrement - 1) none
  | none :: descs => some desc :: descs
  | some other :: descs => some other :: ccAddDescriptor desc descs

/-- The loop of `PGAPI_FreeDesc`: the first place with the descriptor is free. -/
def removeDescriptor (desc : ℕ) : List (Option ℕ) → List (Option ℕ)
  | [] => []
  | place :: descs =>
    if place = some desc then none :: descs else place :: removeDescriptor desc descs

/-- How often descriptors are in the table when one is added. -/
theorem count_ccAddDescriptor (desc other : ℕ) (descs : List (Option ℕ)) :
    (ccAddDescriptor desc descs).count (some other) =
      descs.count (some other) + if desc = other then 1 else 0 := by
  induction descs with
  | nil =>
    have hfree : (List.replicate (descIncrement - 1) (none : Option ℕ)).count (some other) = 0 :=
      List.count_eq_zero.2 fun h ↦ absurd (List.eq_of_mem_replicate h) (by simp)
    rw [ccAddDescriptor, List.count_cons, hfree]
    simp
  | cons place descs ih =>
    cases place with
    | none => simp [ccAddDescriptor, List.count_cons]
    | some d =>
      rw [ccAddDescriptor, List.count_cons, List.count_cons, ih]
      omega

theorem count_removeDescriptor (desc other : ℕ) (descs : List (Option ℕ)) :
    (removeDescriptor desc descs).count (some other) =
      descs.count (some other) - if desc = other then 1 else 0 := by
  induction descs with
  | nil => simp [removeDescriptor]
  | cons place descs ih =>
    rw [removeDescriptor]
    by_cases hplace : place = some desc
    · subst hplace
      by_cases hother : desc = other
      · subst hother
        simp
      · simp [hother]
    · rw [if_neg hplace, List.count_cons, List.count_cons, ih]
      by_cases hother : desc = other
      · subst hother
        simp [hplace]
      · simp [hother]

/-! ## Handles -/

/-- The descriptors of a statement. -/
inductive DescKind
  | ard
  | apd
  | ird
  | ipd
  deriving DecidableEq, Repr

/-- A descriptor handle: one that is embedded in a statement, or one that was allocated. -/
inductive DescHandle
  | embedded (stmt : ℕ) (kind : DescKind)
  | allocated (desc : ℕ)
  deriving DecidableEq, Repr

/-- What of a statement is about its connection and its descriptors. -/
structure DescStmt (κ : Type) where
  conn : κ
  ard : DescHandle
  apd : DescHandle

/-- The objects that are there.  A number is not used again for another object. -/
structure DescObjects (κ : Type) where
  descs : κ → List (Option ℕ)
  allocatedOn : ℕ → Option κ
  stmts : ℕ → Option (DescStmt κ)
  nextDesc : ℕ
  nextStmt : ℕ

/-- The calls. -/
inductive DescCall (κ : Type)
  | allocDesc (conn : κ)
  | freeDesc (desc : DescHandle)
  | allocStmt (conn : κ)
  | freeStmt (stmt : ℕ)
  | setAppRowDesc (stmt : ℕ) (value : Option DescHandle)
  | setAppParamDesc (stmt : ℕ) (value : Option DescHandle)
  | cleanup (conn : κ)

variable {κ : Type} [DecidableEq κ]

namespace DescObjects

/-- The handle is one of an object that is there. -/
def IsLive (objs : DescObjects κ) : DescHandle → Prop
  | .embedded stmt _ => (objs.stmts stmt).isSome
  | .allocated desc => (objs.allocatedOn desc).isSome

instance (objs : DescObjects κ) (handle : DescHandle) : Decidable (objs.IsLive handle) :=
  match handle with
  | .embedded _ _ | .allocated _ => inferInstanceAs (Decidable (_ = true))

/-- No connection has a descriptor or a statement. -/
def initial : DescObjects κ where
  descs _ := []
  allocatedOn _ := none
  stmts _ := none
  nextDesc := 0
  nextStmt := 0

/-- `PGAPI_AllocDesc`. -/
def pgapiAllocDesc (objs : DescObjects κ) (conn : κ) : DescObjects κ :=
  { objs with
    descs := Function.update objs.descs conn (ccAddDescriptor objs.nextDesc (objs.descs conn))
    allocatedOn := Function.update objs.allocatedOn objs.nextDesc (some conn)
    nextDesc := objs.nextDesc + 1 }

/-- `PGAPI_FreeDesc`: an embedded descriptor is only cleared. -/
def pgapiFreeDesc (objs : DescObjects κ) : DescHandle → DescObjects κ
  | .embedded _ _ => objs
  | .allocated desc =>
    match objs.allocatedOn desc with
    | none => objs
    | some conn =>
      { objs with
        descs := Function.update objs.descs conn (removeDescriptor desc (objs.descs conn))
        allocatedOn := Function.update objs.allocatedOn desc none }

/-- `PGAPI_AllocStmt`, as far as it is about descriptors. -/
def pgapiAllocStmt (objs : DescObjects κ) (conn : κ) : DescObjects κ :=
  { objs with
    stmts := Function.update objs.stmts objs.nextStmt
      (some ⟨conn, .embedded objs.nextStmt .ard, .embedded objs.nextStmt .apd⟩)
    nextStmt := objs.nextStmt + 1 }

/-- `SC_Destructor`, as far as it is about descriptors. -/
def scDestructor (objs : DescObjects κ) (stmt : ℕ) : DescObjects κ :=
  { objs with stmts := Function.update objs.stmts stmt none }

/-- `PGAPI_SetStmtAttr` for `SQL_ATTR_APP_ROW_DESC`. -/
def setAppRowDesc (objs : DescObjects κ) (stmt : ℕ) (st : DescStmt κ) (value : Option DescHandle) :
    DescObjects κ :=
  { objs with
    stmts := Function.update objs.stmts stmt
      (some { st with ard := value.getD (.embedded stmt .ard) }) }

/-- `PGAPI_SetStmtAttr` for `SQL_ATTR_APP_PARAM_DESC`. -/
def setAppParamDesc (objs : DescObjects κ) (stmt : ℕ) (st : DescStmt κ)
    (value : Option DescHandle) : DescObjects κ :=
  { objs with
    stmts := Function.update objs.stmts stmt
      (some { st with apd := value.getD (.embedded stmt .apd) }) }

/-- `CC_cleanup`: the statements of the connection go, then the descriptors in its table. -/
def ccCleanup (objs : DescObjects κ) (conn : κ) : DescObjects κ :=
  { objs with
    stmts := fun stmt ↦ (objs.stmts stmt).filter fun st ↦ st.conn ≠ conn
    allocatedOn := fun desc ↦ if some desc ∈ objs.descs conn then none else objs.allocatedOn desc
    descs := Function.update objs.descs conn ((objs.descs conn).map fun _ ↦ none) }

/-- A call; there is none on a handle that is not one of an object that is there. -/
def step (objs : DescObjects κ) : DescCall κ → Option (DescObjects κ)
  | .allocDesc conn => some (objs.pgapiAllocDesc conn)
  | .freeDesc desc => if objs.IsLive desc then some (objs.pgapiFreeDesc desc) else none
  | .allocStmt conn => some (objs.pgapiAllocStmt conn)
  | .freeStmt stmt => if (objs.stmts stmt).isSome then some (objs.scDestructor stmt) else none
  | .setAppRowDesc stmt value =>
    if ∀ desc ∈ value, objs.IsLive desc then
      (objs.stmts stmt).map fun st ↦ objs.setAppRowDesc stmt st value
    else none
  | .setAppParamDesc stmt value =>
    if ∀ desc ∈ value, objs.IsLive desc then
      (objs.stmts stmt).map fun st ↦ objs.setAppParamDesc stmt st value
    else none
  | .cleanup conn => some (objs.ccCleanup conn)

/-! ## What is meant -/

/-- A descriptor that a statement may use: the one embedded in it, or one that is allocated on its
connection. -/
def MayUse (objs : DescObjects κ) (stmt : ℕ) (conn : κ) (kind : DescKind) : DescHandle → Prop
  | .embedded other kind' => other = stmt ∧ kind' = kind
  | .allocated desc => objs.allocatedOn desc = some conn

/-- No statement refers to a descriptor that is not there, and each descriptor that is allocated is
once in the table of its connection. -/
structure Sound (objs : DescObjects κ) : Prop where
  uses : ∀ stmt st, objs.stmts stmt = some st →
    objs.MayUse stmt st.conn .ard st.ard ∧ objs.MayUse stmt st.conn .apd st.apd
  tabled : ∀ desc conn, (objs.descs conn).count (some desc) =
    if objs.allocatedOn desc = some conn then 1 else 0

/-- The statements that used a descriptor when it was freed use their embedded ones. -/
def Detached (objs objs' : DescObjects κ) : DescCall κ → Prop
  | .freeDesc (.allocated desc) => ∀ stmt st, objs.stmts stmt = some st →
      ∃ st', objs'.stmts stmt = some st' ∧
        (st.ard = .allocated desc → st'.ard = .embedded stmt .ard) ∧
        (st.apd = .allocated desc → st'.apd = .embedded stmt .apd)
  | _ => True

/-- It is so after each call of a run. -/
def StaysSound : DescObjects κ → List (DescCall κ) → Prop
  | objs, [] => objs.Sound
  | objs, call :: calls => objs.Sound ∧
    ∀ objs', objs.step call = some objs' → objs.Detached objs' call ∧ objs'.StaysSound calls

/-! ## When it is so -/

/-- A descriptor that is freed is not in use, and one that is attached is one that the statement may
use. -/
def Meets (objs : DescObjects κ) : DescCall κ → Prop
  | .freeDesc (.allocated desc) => ∀ stmt st, objs.stmts stmt = some st →
      st.ard ≠ .allocated desc ∧ st.apd ≠ .allocated desc
  | .setAppRowDesc stmt value => ∀ st, objs.stmts stmt = some st →
      ∀ desc ∈ value, objs.MayUse stmt st.conn .ard desc
  | .setAppParamDesc stmt value => ∀ st, objs.stmts stmt = some st →
      ∀ desc ∈ value, objs.MayUse stmt st.conn .apd desc
  | _ => True

/-- So does every call of a run. -/
def AllMeet : DescObjects κ → List (DescCall κ) → Prop
  | _, [] => True
  | objs, call :: calls => ∀ objs', objs.step call = some objs' → objs.Meets call ∧
      objs'.AllMeet calls

/-! ## One call -/

/-- The next numbers are of no object yet. -/
structure Fresh (objs : DescObjects κ) : Prop where
  desc : ∀ desc, objs.nextDesc ≤ desc → objs.allocatedOn desc = none
  stmt : ∀ stmt, objs.nextStmt ≤ stmt → objs.stmts stmt = none

variable {objs objs' : DescObjects κ} {call : DescCall κ}

omit [DecidableEq κ] in
/-- Whether a statement may use a descriptor depends on the descriptors only. -/
theorem MayUse.of_allocatedOn {stmt : ℕ} {conn : κ} {kind : DescKind} {handle : DescHandle}
    (hsame : ∀ desc, handle = .allocated desc → objs.allocatedOn desc = some conn →
      objs'.allocatedOn desc = some conn)
    (h : objs.MayUse stmt conn kind handle) : objs'.MayUse stmt conn kind handle := by
  cases handle with
  | embedded other kind' => exact h
  | allocated desc => exact hsame desc rfl h

omit [DecidableEq κ] in
/-- A statement goes on using its descriptors as long as they are there. -/
theorem uses_of_allocatedOn {stmt : ℕ} {st : DescStmt κ}
    (hsame : ∀ desc, st.ard = .allocated desc ∨ st.apd = .allocated desc →
      objs.allocatedOn desc = some st.conn → objs'.allocatedOn desc = some st.conn)
    (h : objs.MayUse stmt st.conn .ard st.ard ∧ objs.MayUse stmt st.conn .apd st.apd) :
    objs'.MayUse stmt st.conn .ard st.ard ∧ objs'.MayUse stmt st.conn .apd st.apd :=
  ⟨h.1.of_allocatedOn fun desc hdesc ↦ hsame desc (.inl hdesc),
    h.2.of_allocatedOn fun desc hdesc ↦ hsame desc (.inr hdesc)⟩

theorem sound_allocDesc (hsound : objs.Sound) (hfresh : objs.Fresh) (conn : κ) :
    (objs.pgapiAllocDesc conn).Sound := by
  have hnone := hfresh.desc objs.nextDesc (Nat.le_refl _)
  have hkeep : ∀ desc c, objs.allocatedOn desc = some c →
      (objs.pgapiAllocDesc conn).allocatedOn desc = some c := by
    intro desc c hdesc
    have hne : desc ≠ objs.nextDesc := by
      rintro rfl
      rw [hnone] at hdesc
      cases hdesc
    rw [← hdesc]
    exact Function.update_of_ne hne _ _
  refine ⟨fun stmt st hst ↦ uses_of_allocatedOn (fun desc _ ↦ hkeep desc _)
    (hsound.uses stmt st hst), ?_⟩
  intro desc c
  have htabled := hsound.tabled desc c
  change (Function.update objs.descs conn _ c).count (some desc) =
    if Function.update objs.allocatedOn objs.nextDesc (some conn) desc = some c then 1 else 0
  by_cases hdesc : desc = objs.nextDesc
  · subst hdesc
    rw [hnone, if_neg nofun] at htabled
    rw [Function.update_self]
    by_cases hc : c = conn
    · subst hc
      rw [Function.update_self, count_ccAddDescriptor, htabled, if_pos rfl, if_pos rfl]
    · rw [Function.update_of_ne hc, htabled, if_neg fun h ↦ hc (Option.some.inj h).symm]
  · rw [Function.update_of_ne hdesc, ← htabled]
    by_cases hc : c = conn
    · subst hc
      rw [Function.update_self, count_ccAddDescriptor, if_neg (Ne.symm hdesc), Nat.add_zero]
    · rw [Function.update_of_ne hc]

/-- A descriptor is freed without harm just when no statement uses it. -/
theorem sound_freeDesc_iff (hsound : objs.Sound) {desc : ℕ} {conn : κ}
    (hlive : objs.allocatedOn desc = some conn) :
    objs.Detached (objs.pgapiFreeDesc (.allocated desc)) (.freeDesc (.allocated desc)) ∧
        (objs.pgapiFreeDesc (.allocated desc)).Sound ↔
      objs.Meets (.freeDesc (.allocated desc)) := by
  have hfree : objs.pgapiFreeDesc (.allocated desc) =
      { objs with
        descs := Function.update objs.descs conn (removeDescriptor desc (objs.descs conn))
        allocatedOn := Function.update objs.allocatedOn desc none } := by
    rw [pgapiFreeDesc, hlive]
  rw [hfree]
  constructor
  · rintro ⟨-, hsound'⟩ stmt st hst
    have hgone : Function.update objs.allocatedOn desc none desc ≠ some st.conn := by
      rw [Function.update_self]
      nofun
    obtain ⟨hard, hapd⟩ := hsound'.uses stmt st hst
    constructor
    · intro heq
      rw [heq] at hard
      exact hgone hard
    · intro heq
      rw [heq] at hapd
      exact hgone hapd
  · intro hmeets
    have hkeep : ∀ d c, d ≠ desc → objs.allocatedOn d = some c →
        Function.update objs.allocatedOn desc none d = some c := fun d c hne hd ↦ by
      rw [Function.update_of_ne hne, hd]
    refine ⟨fun stmt st hst ↦ ⟨st, hst, fun h ↦ absurd h (hmeets stmt st hst).1,
      fun h ↦ absurd h (hmeets stmt st hst).2⟩, ?_, ?_⟩
    · intro stmt st hst
      refine uses_of_allocatedOn (fun d hd ↦ hkeep d _ ?_) (hsound.uses stmt st hst)
      rintro rfl
      exact hd.elim (hmeets stmt st hst).1 (hmeets stmt st hst).2
    · intro d c
      have htabled := hsound.tabled d c
      change (Function.update objs.descs conn _ c).count (some d) =
        if Function.update objs.allocatedOn desc none d = some c then 1 else 0
      by_cases hd : d = desc
      · subst hd
        rw [hlive] at htabled
        rw [Function.update_self, if_neg nofun]
        by_cases hc : c = conn
        · subst hc
          rw [if_pos rfl] at htabled
          rw [Function.update_self, count_removeDescriptor, htabled, if_pos rfl]
        · rw [Function.update_of_ne hc, htabled, if_neg fun h ↦ hc (Option.some.inj h).symm]
      · rw [Function.update_of_ne hd, ← htabled]
        by_cases hc : c = conn
        · subst hc
          rw [Function.update_self, count_removeDescriptor, if_neg (Ne.symm hd), Nat.sub_zero]
        · rw [Function.update_of_ne hc]

theorem sound_allocStmt (hsound : objs.Sound) (conn : κ) : (objs.pgapiAllocStmt conn).Sound := by
  refine ⟨fun stmt st hst ↦ ?_, hsound.tabled⟩
  change Function.update objs.stmts objs.nextStmt _ stmt = some st at hst
  rcases eq_or_ne stmt objs.nextStmt with rfl | hne
  · rw [Function.update_self] at hst
    cases hst
    exact ⟨⟨rfl, rfl⟩, ⟨rfl, rfl⟩⟩
  · rw [Function.update_of_ne hne] at hst
    exact uses_of_allocatedOn (fun _ _ h ↦ h) (hsound.uses stmt st hst)

theorem sound_freeStmt (hsound : objs.Sound) (stmt : ℕ) : (objs.scDestructor stmt).Sound := by
  refine ⟨fun other st hst ↦ ?_, hsound.tabled⟩
  change Function.update objs.stmts stmt none other = some st at hst
  rcases eq_or_ne other stmt with rfl | hne
  · rw [Function.update_self] at hst
    cases hst
  · rw [Function.update_of_ne hne] at hst
    exact uses_of_allocatedOn (fun _ _ h ↦ h) (hsound.uses other st hst)

/-- A statement with new descriptors is as good as these. -/
theorem sound_update_iff (hsound : objs.Sound) {stmt : ℕ} {st : DescStmt κ} :
    DescObjects.Sound { objs with stmts := Function.update objs.stmts stmt (some st) } ↔
      objs.MayUse stmt st.conn .ard st.ard ∧ objs.MayUse stmt st.conn .apd st.apd := by
  constructor
  · intro hsound'
    exact uses_of_allocatedOn (fun _ _ h ↦ h) (hsound'.uses stmt st (Function.update_self ..))
  · intro huses
    refine ⟨fun other st' hst ↦ ?_, hsound.tabled⟩
    change Function.update objs.stmts stmt (some st) other = some st' at hst
    rcases eq_or_ne other stmt with rfl | hne
    · rw [Function.update_self] at hst
      cases hst
      exact uses_of_allocatedOn (fun _ _ h ↦ h) huses
    · rw [Function.update_of_ne hne] at hst
      exact uses_of_allocatedOn (fun _ _ h ↦ h) (hsound.uses other st' hst)

omit [DecidableEq κ] in
/-- A descriptor is attached without harm just when the statement may use it. -/
theorem mayUse_getD_iff {stmt : ℕ} {conn : κ} {kind : DescKind} {value : Option DescHandle} :
    objs.MayUse stmt conn kind (value.getD (.embedded stmt kind)) ↔
      ∀ desc ∈ value, objs.MayUse stmt conn kind desc := by
  cases value with
  | none => exact iff_of_true ⟨rfl, rfl⟩ (fun _ h ↦ by cases h)
  | some desc => exact ⟨fun h d hd ↦ by cases hd; exact h, fun h ↦ h desc rfl⟩

theorem sound_setAppRowDesc_iff (hsound : objs.Sound) {stmt : ℕ} {st : DescStmt κ}
    (hst : objs.stmts stmt = some st) {value : Option DescHandle} :
    (objs.setAppRowDesc stmt st value).Sound ↔ objs.Meets (.setAppRowDesc stmt value) := by
  rw [setAppRowDesc, sound_update_iff hsound, mayUse_getD_iff]
  constructor
  · rintro ⟨huses, -⟩ st' hst'
    obtain rfl := Option.some.inj (hst.symm.trans hst')
    exact huses
  · intro hmeets
    exact ⟨hmeets st hst, (hsound.uses stmt st hst).2⟩

theorem sound_setAppParamDesc_iff (hsound : objs.Sound) {stmt : ℕ} {st : DescStmt κ}
    (hst : objs.stmts stmt = some st) {value : Option DescHandle} :
    (objs.setAppParamDesc stmt st value).Sound ↔ objs.Meets (.setAppParamDesc stmt value) := by
  rw [setAppParamDesc, sound_update_iff hsound, mayUse_getD_iff]
  constructor
  · rintro ⟨-, huses⟩ st' hst'
    obtain rfl := Option.some.inj (hst.symm.trans hst')
    exact huses
  · intro hmeets
    exact ⟨(hsound.uses stmt st hst).1, hmeets st hst⟩

/-- With a connection its statements go and the descriptors that they could use. -/
theorem sound_ccCleanup (hsound : objs.Sound) (conn : κ) : (objs.ccCleanup conn).Sound := by
  have hmem : ∀ desc c, some desc ∈ objs.descs c ↔ objs.allocatedOn desc = some c := by
    intro desc c
    rw [← List.count_pos_iff, hsound.tabled desc c]
    split_ifs with h
    · exact iff_of_true Nat.one_pos h
    · exact iff_of_false (Nat.lt_irrefl 0) h
  constructor
  · intro stmt st hst
    obtain ⟨hst, hconn⟩ := Option.filter_eq_some_iff.1 hst
    refine uses_of_allocatedOn (fun desc _ hdesc ↦ ?_) (hsound.uses stmt st hst)
    change (if some desc ∈ objs.descs conn then none else objs.allocatedOn desc) = _
    rw [if_neg, hdesc]
    intro hin
    rw [hmem, hdesc] at hin
    exact of_decide_eq_true hconn (Option.some.inj hin)
  · intro desc c
    have htabled := hsound.tabled desc c
    change (Function.update objs.descs conn _ c).count (some desc) =
      if (if some desc ∈ objs.descs conn then none else objs.allocatedOn desc) = some c then 1
      else 0
    by_cases hc : c = conn
    · subst hc
      have hnone : ((objs.descs c).map fun _ ↦ (none : Option ℕ)).count (some desc) = 0 :=
        List.count_eq_zero.2 fun h ↦ by
          obtain ⟨_, -, h⟩ := List.mem_map.1 h
          cases h
      rw [Function.update_self, hnone]
      by_cases hin : some desc ∈ objs.descs c
      · rw [if_pos hin, if_neg nofun]
      · rw [if_neg hin, if_neg fun h ↦ hin ((hmem desc c).2 h)]
    · rw [Function.update_of_ne hc, htabled]
      by_cases hin : some desc ∈ objs.descs conn
      · rw [if_pos hin, (hmem desc conn).1 hin]
        rw [if_neg fun h ↦ hc (Option.some.inj h).symm, if_neg nofun]
      · rw [if_neg hin]

/-- A call leaves the objects sound just when it meets its condition. -/
theorem sound_step_iff (hsound : objs.Sound) (hfresh : objs.Fresh)
    (hstep : objs.step call = some objs') :
    objs.Detached objs' call ∧ objs'.Sound ↔ objs.Meets call := by
  cases call with
  | allocDesc conn =>
    cases hstep
    exact iff_of_true ⟨trivial, sound_allocDesc hsound hfresh conn⟩ trivial
  | freeDesc handle =>
    rw [step] at hstep
    split at hstep
    · next hlive =>
      cases hstep
      cases handle with
      | embedded stmt kind => exact iff_of_true ⟨trivial, hsound⟩ trivial
      | allocated desc =>
        obtain ⟨conn, hconn⟩ := Option.isSome_iff_exists.1 hlive
        exact sound_freeDesc_iff hsound hconn
    · cases hstep
  | allocStmt conn =>
    cases hstep
    exact iff_of_true ⟨trivial, sound_allocStmt hsound conn⟩ trivial
  | freeStmt stmt =>
    rw [step] at hstep
    split at hstep
    · cases hstep
      exact iff_of_true ⟨trivial, sound_freeStmt hsound stmt⟩ trivial
    · cases hstep
  | setAppRowDesc stmt value =>
    rw [step] at hstep
    split at hstep
    · obtain ⟨st, hst, rfl⟩ := Option.map_eq_some_iff.1 hstep
      exact (and_iff_right trivial).trans (sound_setAppRowDesc_iff hsound hst)
    · cases hstep
  | setAppParamDesc stmt value =>
    rw [step] at hstep
    split at hstep
    · obtain ⟨st, hst, rfl⟩ := Option.map_eq_some_iff.1 hstep
      exact (and_iff_right trivial).trans (sound_setAppParamDesc_iff hsound hst)
    · cases hstep
  | cleanup conn =>
    cases hstep
    exact iff_of_true ⟨trivial, sound_ccCleanup hsound conn⟩ trivial

/-- Only a number that was the next one is of a new object. -/
theorem fresh_step (hfresh : objs.Fresh) (hstep : objs.step call = some objs') : objs'.Fresh := by
  have hdesc := hfresh.desc
  have hstmt := hfresh.stmt
  have hupdate : ∀ stmt st (next : Option (DescStmt κ)), objs.stmts stmt = some st →
      ∀ other, objs.nextStmt ≤ other → Function.update objs.stmts stmt next other = none := by
    intro stmt st next hst other hother
    rw [Function.update_of_ne, hstmt other hother]
    rintro rfl
    rw [hstmt other hother] at hst
    cases hst
  cases call with
  | allocDesc conn =>
    cases hstep
    refine ⟨fun desc hle ↦ ?_, hstmt⟩
    have hlt : objs.nextDesc + 1 ≤ desc := hle
    change Function.update objs.allocatedOn objs.nextDesc _ desc = none
    rw [Function.update_of_ne (by omega), hdesc desc (by omega)]
  | freeDesc handle =>
    rw [step] at hstep
    split at hstep
    · cases hstep
      cases handle with
      | embedded stmt kind => exact hfresh
      | allocated desc =>
        rw [pgapiFreeDesc]
        split
        · exact hfresh
        · refine ⟨fun other hle ↦ ?_, hstmt⟩
          change Function.update objs.allocatedOn desc none other = none
          rcases eq_or_ne other desc with rfl | hne
          · exact Function.update_self ..
          · rw [Function.update_of_ne hne, hdesc other hle]
    · cases hstep
  | allocStmt conn =>
    cases hstep
    refine ⟨hdesc, fun stmt hle ↦ ?_⟩
    have hlt : objs.nextStmt + 1 ≤ stmt := hle
    change Function.update objs.stmts objs.nextStmt _ stmt = none
    rw [Function.update_of_ne (by omega), hstmt stmt (by omega)]
  | freeStmt stmt =>
    rw [step] at hstep
    split at hstep
    · next hlive =>
      obtain ⟨st, hst⟩ := Option.isSome_iff_exists.1 hlive
      cases hstep
      exact ⟨hdesc, hupdate stmt st _ hst⟩
    · cases hstep
  | setAppRowDesc stmt value =>
    rw [step] at hstep
    split at hstep
    · obtain ⟨st, hst, rfl⟩ := Option.map_eq_some_iff.1 hstep
      exact ⟨hdesc, hupdate stmt st _ hst⟩
    · cases hstep
  | setAppParamDesc stmt value =>
    rw [step] at hstep
    split at hstep
    · obtain ⟨st, hst, rfl⟩ := Option.map_eq_some_iff.1 hstep
      exact ⟨hdesc, hupdate stmt st _ hst⟩
    · cases hstep
  | cleanup conn =>
    cases hstep
    refine ⟨fun desc hle ↦ ?_, fun stmt hle ↦ ?_⟩
    · change (if some desc ∈ objs.descs conn then none else objs.allocatedOn desc) = none
      rw [hdesc desc hle, ite_self]
    · change (objs.stmts stmt).filter _ = none
      rw [hstmt stmt hle]
      rfl

/-! ## Runs -/

theorem staysSound_iff_of_sound (hsound : objs.Sound) (hfresh : objs.Fresh)
    (calls : List (DescCall κ)) : objs.StaysSound calls ↔ objs.AllMeet calls := by
  induction calls generalizing objs with
  | nil => exact iff_of_true hsound trivial
  | cons call calls ih =>
    constructor
    · rintro ⟨-, hrest⟩ objs' hstep
      obtain ⟨hdetached, hstays⟩ := hrest objs' hstep
      have hsound' : objs'.Sound := by
        cases calls with
        | nil => exact hstays
        | cons _ _ => exact hstays.1
      exact ⟨(sound_step_iff hsound hfresh hstep).1 ⟨hdetached, hsound'⟩,
        (ih hsound' (fresh_step hfresh hstep)).1 hstays⟩
    · intro hmeet
      refine ⟨hsound, fun objs' hstep ↦ ?_⟩
      obtain ⟨hmeets, hrest⟩ := hmeet objs' hstep
      obtain ⟨hdetached, hsound'⟩ := (sound_step_iff hsound hfresh hstep).2 hmeets
      exact ⟨hdetached, (ih hsound' (fresh_step hfresh hstep)).2 hrest⟩

/-- Statements refer to descriptors that are there just in the runs whose calls meet their
conditions. -/
theorem staysSound_iff (calls : List (DescCall κ)) :
    (initial : DescObjects κ).StaysSound calls ↔ (initial : DescObjects κ).AllMeet calls :=
  staysSound_iff_of_sound ⟨fun _ _ h ↦ (by cases h), fun _ _ ↦ rfl⟩ ⟨fun _ _ ↦ rfl, fun _ _ ↦ rfl⟩ calls

/-- A descriptor that is freed while a statement uses it stays attached. -/
theorem staysSound_not_freed : ¬(initial : DescObjects Unit).StaysSound
    [.allocStmt (), .allocDesc (), .setAppRowDesc 0 (some (.allocated 0)),
      .freeDesc (.allocated 0)] := by
  rintro ⟨-, hfirst⟩
  obtain ⟨-, -, hsecond⟩ := hfirst _ rfl
  obtain ⟨-, -, hthird⟩ := hsecond _ rfl
  obtain ⟨-, -, hfourth⟩ := hthird _ rfl
  obtain ⟨-, hsound⟩ := hfourth _ rfl
  have hard := (hsound.uses 0 ⟨(), .allocated 0, .embedded 0 .apd⟩ rfl).1
  exact absurd hard nofun

end DescObjects

end PsqlOdbc
