import PsqlOdbc.Statement.ParamStatusLoop

/-!
# Which arrays get the statuses that the application is promised

`BatchesFine` are the batches for which `driverStatuses` is what the application is promised
(`keptIff`).  In states that are reached by calls behind which nothing stays deferred, a call sets
the statuses as promised exactly if its batches are such (`paramStatuses_right_iff`).
-/

namespace PsqlOdbc

/-- How batches follow each other. -/
def BatchesFormed : List Batch → Prop
  | [] => True
  | batch :: more =>
    batch.rows ≠ [] ∧ (batch.behind = true → more = []) ∧
      (batch.rows.length = 1 → batch.behind = false → ∀ batch' ∈ more, batch'.behind = false) ∧
      BatchesFormed more

section

variable {call : StatusCall} {batch : Batch} {batches more : List Batch} {f : Nat → ParamStatus}
  {before : Option Nat} {size endRow i : Nat} {pending rows : List Nat}

/-- The rows of a batch, where one of them cannot be converted. -/
theorem rows_split {row : Nat}
    (hdrop : batch.rows.drop (call.convertedRows batch).length = row :: rows) :
    batch.rows = call.convertedRows batch ++ row :: rows := by
  have htake : batch.rows.take (call.convertedRows batch).length = call.convertedRows batch :=
    (List.prefix_iff_eq_take.1 (List.takeWhile_prefix _)).symm
  conv_lhs => rw [← List.take_append_drop (call.convertedRows batch).length batch.rows, htake, hdrop]

/-- Rows of no batch keep their status, but the last row in front of a batch behind the rows. -/
theorem driverStatuses_frame (hrows : ∀ batch ∈ batches, i ∉ batch.rows)
    (hbefore : before ≠ some i ∨ ∀ batch ∈ batches, batch.behind = false) :
    call.driverStatuses before batches f i = f i := by
  induction batches generalizing before f with
  | nil => rfl
  | cons batch more ih =>
    obtain ⟨hi, hmore⟩ := List.forall_mem_cons.1 hrows
    cases hdrop : batch.rows.drop (call.convertedRows batch).length with
    | cons row rows =>
      rw [StatusCall.driverStatuses, hdrop]
      rw [rows_split hdrop, List.mem_append, not_or] at hi
      have hne : i ∉ [row] := by
        intro hmem
        rw [List.mem_singleton.1 hmem] at hi
        exact hi.2 List.mem_cons_self
      exact (setRows_of_notMem hne).trans (setRows_of_notMem hi.1)
    | nil =>
      rw [StatusCall.driverStatuses, hdrop]
      dsimp only
      by_cases hbehind : batch.behind = true
      · rw [if_pos hbehind]
        split
        · exact setRows_of_notMem hi
        · apply setRows_of_notMem
          rw [List.mem_append, not_or]
          refine ⟨fun hmem ↦ ?_, hi⟩
          rcases hbefore with hne | hnone
          · exact hne (Option.mem_toList.1 hmem)
          · rw [hnone batch List.mem_cons_self] at hbehind
            cases hbehind
      · rw [if_neg hbehind]
        split
        · exact setRows_of_notMem hi
        · refine (ih hmore (Or.inl fun hlast ↦ ?_)).trans (setRows_of_notMem hi)
          exact hi (List.mem_of_getLast? hlast)

/-- The status of a batch that has been accepted. -/
theorem statusOk_doneStatus_iff {retval : Retcode} (notice : Bool) (deferred : Nat)
    (herror : retval ≠ .error) :
    StatusCall.StatusOk notice (doneStatus retval notice deferred) ↔
      retval ≠ .noData ∧ (retval = .successWithInfo ∧ notice = false → deferred ≠ 0) := by
  cases retval with
  | success => exact iff_of_true (Or.inl rfl) ⟨nofun, fun h ↦ nomatch h.1⟩
  | error => exact absurd rfl herror
  | noData =>
    refine iff_of_false ?_ fun h ↦ h.1 rfl
    rintro (h | h)
    · cases h
    · cases h.1
  | successWithInfo =>
    change StatusCall.StatusOk notice (if _ then _ else _) ↔ _
    cases notice with
    | true =>
      rw [if_neg fun h ↦ nomatch h.2]
      exact iff_of_true (Or.inr ⟨rfl, rfl⟩) ⟨nofun, fun h ↦ nomatch h.2⟩
    | false =>
      by_cases hdeferred : 0 < deferred
      · rw [if_pos ⟨hdeferred, rfl⟩]
        exact iff_of_true (Or.inl rfl) ⟨nofun, fun _ ↦ Nat.ne_of_gt hdeferred⟩
      · rw [if_neg fun h ↦ hdeferred h.1]
        refine iff_of_false ?_ fun h ↦ hdeferred (Nat.pos_of_ne_zero (h.2 ⟨rfl, rfl⟩))
        rintro (h | h)
        · cases h
        · cases h.2

/-- Before some batches: no row is in two of them, none has been executed, and the status of the last
row in front of them is in order. -/
structure Fresh (before : Option (Nat × Bool)) (batches : List Batch) (f : Nat → ParamStatus) :
    Prop where
  nodup : (batches.flatMap Batch.rows).Nodup
  unused : ∀ batch ∈ batches, ∀ i ∈ batch.rows, f i = .unused
  before : ∀ q ∈ before, StatusCall.StatusOk q.2 (f q.1) ∧ ∀ batch ∈ batches, q.1 ∉ batch.rows

/-- What is promised of the batches, and of the last row in front of them, is kept exactly under the
condition. -/
def KeptIff (call : StatusCall) (before : Option (Nat × Bool)) (batches : List Batch)
    (f : Nat → ParamStatus) : Prop :=
  (call.RowsRight batches (call.driverStatuses (before.map Prod.fst) batches f) ∧
    ∀ q ∈ before, StatusCall.StatusOk q.2
      (call.driverStatuses (before.map Prod.fst) batches f q.1)) ↔
    call.BatchesFine (before.map Prod.snd) batches

theorem rows_disjoint (hnodup : ((batch :: more).flatMap Batch.rows).Nodup) :
    ∀ i ∈ batch.rows, ∀ batch' ∈ more, i ∉ batch'.rows := by
  rw [List.flatMap_cons] at hnodup
  intro i hi batch' hbatch' hi'
  exact (List.nodup_append.1 hnodup).2.2 i hi i (List.mem_flatMap_of_mem hbatch' hi') rfl

/-- A batch of which a row cannot be converted. -/
theorem keptIff_failed {row : Nat} {before : Option (Nat × Bool)}
    (hdrop : batch.rows.drop (call.convertedRows batch).length = row :: rows)
    (hfresh : Fresh before (batch :: more) f) : KeptIff call before (batch :: more) f := by
  have hg : call.driverStatuses (before.map Prod.fst) (batch :: more) f =
      setRows [row] .error (setRows (call.convertedRows batch) .success f) := by
    rw [StatusCall.driverStatuses, hdrop]
  have hrows := rows_split hdrop
  have hmem := rows_disjoint hfresh.nodup
  have hnodup := hfresh.nodup
  rw [List.flatMap_cons, hrows] at hnodup
  have hfirst := List.Nodup.of_append_left hnodup
  rw [KeptIff, hg, StatusCall.RowsRight, StatusCall.BatchesFine, hdrop]
  dsimp only
  have hrow : ∀ i, i ≠ row → setRows [row] ParamStatus.error
      (setRows (call.convertedRows batch) .success f) i =
        setRows (call.convertedRows batch) .success f i := by
    intro i hi
    exact setRows_of_notMem fun hmem ↦ hi (List.mem_singleton.1 hmem)
  constructor
  · rintro ⟨⟨-, hconverted, -⟩, -⟩
    rw [List.eq_nil_iff_forall_not_mem]
    intro i hi
    have hne : i ≠ row := by
      rintro rfl
      exact (List.nodup_append.1 hfirst).2.2 i hi i List.mem_cons_self rfl
    have h := hconverted i hi
    rw [hrow i hne, setRows_of_mem hi] at h
    rcases h with h | h <;> cases h
  · intro hnil
    rw [hnil, List.nil_append] at hfirst
    have hother : ∀ i, i ≠ row → setRows [row] ParamStatus.error
        (setRows (call.convertedRows batch) .success f) i = f i := by
      intro i hi
      rw [hrow i hi, hnil, setRows_nil]
    rw [hnil, List.nil_append] at hrows
    refine ⟨⟨setRows_of_mem (List.mem_singleton.2 rfl), ?_, ?_, ?_⟩, ?_⟩
    · rw [hnil]
      exact List.forall_mem_nil _
    · intro i hi
      have hne : i ≠ row := by
        rintro rfl
        exact (List.nodup_cons.1 hfirst).1 hi
      rw [hother i hne]
      exact hfresh.unused batch List.mem_cons_self i (hrows ▸ List.mem_cons_of_mem row hi)
    · intro batch' hbatch' i hi
      have hne : i ≠ row := by
        rintro rfl
        exact hmem i (hrows ▸ List.mem_cons_self) batch' hbatch' hi
      rw [hother i hne]
      exact hfresh.unused batch' (List.mem_cons_of_mem _ hbatch') i hi
    · intro q hq
      have hne : q.1 ≠ row := by
        intro heq
        exact (hfresh.before q hq).2 batch List.mem_cons_self (heq ▸ hrows ▸ List.mem_cons_self)
      rw [hother q.1 hne]
      exact (hfresh.before q hq).1

/-- The batch that is executed behind the rows. -/
theorem keptIff_behind {before : Option (Nat × Bool)}
    (hdrop : batch.rows.drop (call.convertedRows batch).length = [])
    (hbehind : batch.behind = true) (hne : batch.rows ≠ [])
    (hfresh : Fresh before [batch] f) : KeptIff call before [batch] f := by
  obtain ⟨i, hi⟩ := List.exists_mem_of_ne_nil _ hne
  have hkept : ∀ {v : ParamStatus}, ∀ q ∈ before,
      StatusCall.StatusOk q.2 (setRows batch.rows v f q.1) := by
    intro v q hq
    rw [setRows_of_notMem ((hfresh.before q hq).2 batch List.mem_cons_self)]
    exact (hfresh.before q hq).1
  rw [KeptIff, StatusCall.driverStatuses, StatusCall.RowsRight, StatusCall.BatchesFine, hdrop]
  dsimp only
  rw [if_pos hbehind]
  by_cases hblank : call.isBlank batch = true
  · -- Nothing is executed, but the rows are marked as done.
    rw [if_pos (Or.inl hblank), if_pos hblank, if_pos hblank]
    refine iff_of_false ?_ id
    rintro ⟨hunused, -⟩
    have h := hunused i hi
    rw [setRows_of_mem hi] at h
    cases h
  rw [if_neg hblank, if_neg hblank]
  by_cases hsuccess : call.outcome batch = .success
  · have herror : call.outcome batch ≠ .error := by
      rw [hsuccess]
      rintro ⟨⟩
    rw [if_pos (Or.inr hsuccess), if_neg herror, if_neg herror, hsuccess]
    refine iff_of_true ⟨⟨fun j hj ↦ ?_, trivial⟩, hkept⟩ ⟨?_, ?_, ?_, trivial⟩
    · rw [setRows_of_mem hj]
      exact Or.inl rfl
    · rintro ⟨⟩
    · rintro ⟨h, -⟩
      cases h
    · rintro ⟨h, -⟩
      cases h
  rw [if_neg (not_or.2 ⟨hblank, hsuccess⟩)]
  generalize hv : doneStatus (call.outcome batch) (call.notice batch) batch.rows.length = v
  have hbatch : ∀ j ∈ batch.rows, setRows ((before.map Prod.fst).toList ++ batch.rows) v f j = v :=
    fun j hj ↦ setRows_of_mem (List.mem_append_right _ hj)
  have hlast : ∀ q ∈ before, setRows ((before.map Prod.fst).toList ++ batch.rows) v f q.1 = v := by
    intro q hq
    apply setRows_of_mem
    rw [Option.mem_def.1 hq]
    exact List.mem_cons_self
  by_cases herror : call.outcome batch = .error
  · rw [if_pos herror, if_pos herror]
    have hverror : v = .error := by
      rw [← hv, herror]
      rfl
    subst hverror
    constructor
    · rintro ⟨-, hbefore⟩ -
      cases hq : before with
      | none => rfl
      | some q =>
        have h := hbefore q hq
        rw [hlast q hq] at h
        rcases h with h | h
        · cases h
        · cases h.1
    · intro h
      have hnone : before = none := Option.map_eq_none_iff.1 (h hbehind)
      refine ⟨⟨hbatch, List.forall_mem_nil _⟩, fun q hq ↦ ?_⟩
      rw [hnone] at hq
      cases hq
  · rw [if_neg herror, if_neg herror]
    have hok := statusOk_doneStatus_iff (call.notice batch) batch.rows.length herror
    rw [hv] at hok
    constructor
    · rintro ⟨⟨hrows, -⟩, hbefore⟩
      have hvok := hrows i hi
      rw [hbatch i hi] at hvok
      obtain ⟨hnoData, -⟩ := hok.1 hvok
      refine ⟨hnoData, fun _ ↦ Or.inl hbehind, ?_, trivial⟩
      rintro ⟨hinfo, hnotice⟩ - hfalse
      obtain ⟨q, hq, hq'⟩ := Option.map_eq_some_iff.1 hfalse
      have h := hbefore q hq
      have hvinfo : v = .successWithInfo := by
        rw [← hv, hinfo, hnotice]
        exact if_neg fun h ↦ by cases h.2
      rw [hlast q hq, hvinfo, hq'] at h
      rcases h with h | h
      · cases h
      · cases h.2
    · rintro ⟨hnoData, -, hinfo, -⟩
      have hlen : batch.rows.length ≠ 0 := fun h ↦ hne (List.eq_nil_of_length_eq_zero h)
      have hvok := hok.2 ⟨hnoData, fun _ ↦ hlen⟩
      refine ⟨⟨fun j hj ↦ ?_, trivial⟩, fun q hq ↦ ?_⟩
      · rw [hbatch j hj]
        exact hvok
      · rw [hlast q hq]
        rcases hvok with hvok | ⟨hvok, hnotice⟩
        · exact Or.inl hvok
        · right
          refine ⟨hvok, ?_⟩
          have hinfo' : call.outcome batch = .successWithInfo := by
            cases houtcome : call.outcome batch with
            | success => exact absurd houtcome hsuccess
            | successWithInfo => rfl
            | noData => exact absurd houtcome hnoData
            | error => exact absurd houtcome herror
          have h := hinfo ⟨hinfo', hnotice⟩ hbehind
          cases hq2 : q.2 with
          | true => rfl
          | false =>
            rw [Option.mem_def.1 hq, Option.map_some, hq2] at h
            exact absurd rfl h

/-- A batch that is executed at its last row. -/
theorem keptIff_sent {before : Option (Nat × Bool)}
    (hdrop : batch.rows.drop (call.convertedRows batch).length = [])
    (hformed : BatchesFormed (batch :: more)) (hbehind : batch.behind = false)
    (hfresh : Fresh before (batch :: more) f)
    (hmore : ∀ {before : Option (Nat × Bool)} {f : Nat → ParamStatus}, Fresh before more f →
      KeptIff call before more f) :
    KeptIff call before (batch :: more) f := by
  obtain ⟨hne, -, hsingle, -⟩ := hformed
  have hdisjoint := rows_disjoint hfresh.nodup
  have hblank : call.isBlank batch = false := by
    rw [StatusCall.isBlank, hbehind]
    rfl
  have hframe : ∀ i ∉ batch.rows, ∀ v, setRows batch.rows v f i = f i := fun i hi v ↦
    setRows_of_notMem hi
  rw [KeptIff, StatusCall.driverStatuses, StatusCall.RowsRight, StatusCall.BatchesFine, hdrop]
  dsimp only
  rw [hbehind, hblank, if_neg Bool.false_ne_true, if_neg Bool.false_ne_true,
    if_neg Bool.false_ne_true]
  generalize hv : doneStatus (call.outcome batch) (call.notice batch) (batch.rows.length - 1) = v
  by_cases herror : call.outcome batch = .error
  · rw [if_pos herror, if_pos herror, if_pos herror]
    have hverror : v = .error := by
      rw [← hv, herror]
      rfl
    subst hverror
    refine iff_of_true ⟨⟨fun i hi ↦ setRows_of_mem hi, ?_⟩, ?_⟩ (by rintro ⟨⟩)
    · intro batch' hbatch' i hi
      rw [hframe i fun hi' ↦ hdisjoint i hi' batch' hbatch' hi]
      exact hfresh.unused batch' (List.mem_cons_of_mem _ hbatch') i hi
    · intro q hq
      rw [hframe q.1 ((hfresh.before q hq).2 batch List.mem_cons_self)]
      exact (hfresh.before q hq).1
  rw [if_neg herror, if_neg herror, if_neg herror]
  generalize hg : call.driverStatuses batch.rows.getLast? more (setRows batch.rows v f) = g
  have hlastRow := List.getLast?_eq_some_getLast hne
  have hlastMem := List.getLast_mem hne
  generalize batch.rows.getLast hne = last at hlastRow hlastMem
  -- The rows of this batch, but the last one, are not touched again.
  have hgrow : ∀ i ∈ batch.rows, (i ≠ last ∨ ∀ batch' ∈ more, batch'.behind = false) → g i = v := by
    intro i hi hcases
    rw [← hg, driverStatuses_frame (fun batch' hbatch' ↦ hdisjoint i hi batch' hbatch'),
      setRows_of_mem hi]
    refine hcases.imp (fun hil hsome ↦ ?_) id
    rw [hlastRow] at hsome
    exact hil (Option.some_inj.1 hsome).symm
  have hbefore : ∀ q ∈ before, StatusCall.StatusOk q.2 (g q.1) := by
    intro q hq
    have hrows := (hfresh.before q hq).2
    have hqrows := hrows batch List.mem_cons_self
    rw [← hg, driverStatuses_frame fun batch' hbatch' ↦ hrows batch' (List.mem_cons_of_mem _ hbatch'),
      hframe q.1 hqrows]
    · exact (hfresh.before q hq).1
    · left
      intro hsome
      rw [hlastRow] at hsome
      exact hqrows (Option.some_inj.1 hsome ▸ hlastMem)
  have hok := statusOk_doneStatus_iff (call.notice batch) (batch.rows.length - 1) herror
  rw [hv] at hok
  have hlen : batch.rows.length ≠ 0 := fun h ↦ hne (List.eq_nil_of_length_eq_zero h)
  have hlen' : batch.rows.length - 1 ≠ 0 ↔ false = true ∨ batch.rows.length ≠ 1 := by
    rw [or_iff_right Bool.false_ne_true]
    omega
  rw [hlen'] at hok
  by_cases hvok : StatusCall.StatusOk (call.notice batch) v
  · have hfresh' : Fresh (some (last, call.notice batch)) more (setRows batch.rows v f) :=
      { nodup := List.Nodup.of_append_right hfresh.nodup
        unused := by
          intro batch' hbatch' i hi
          rw [hframe i fun hi' ↦ hdisjoint i hi' batch' hbatch' hi]
          exact hfresh.unused batch' (List.mem_cons_of_mem _ hbatch') i hi
        before := by
          rintro q ⟨⟩
          exact ⟨by rw [setRows_of_mem hlastMem]; exact hvok, hdisjoint last hlastMem⟩ }
    have hkept := hmore hfresh'
    rw [KeptIff, Option.map_some, Option.map_some, ← hlastRow, hg] at hkept
    have hlastOk : (∀ q ∈ some (last, call.notice batch), StatusCall.StatusOk q.2 (g q.1)) ↔
        StatusCall.StatusOk (call.notice batch) (g last) :=
      ⟨fun h ↦ h _ rfl, fun h q hq ↦ by cases hq; exact h⟩
    rw [hlastOk] at hkept
    constructor
    · rintro ⟨⟨hrows, hright⟩, -⟩
      exact ⟨(hok.1 hvok).1, (hok.1 hvok).2, fun _ h ↦ absurd h Bool.false_ne_true,
        hkept.1 ⟨hright, hrows last hlastMem⟩⟩
    · rintro ⟨-, -, -, hfine⟩
      obtain ⟨hright, hlastOk'⟩ := hkept.2 hfine
      refine ⟨⟨fun i hi ↦ ?_, hright⟩, hbefore⟩
      by_cases hil : i = last
      · rw [hil]
        exact hlastOk'
      · rw [hgrow i hi (Or.inl hil)]
        exact hvok
  · refine iff_of_false ?_ fun h ↦ hvok (hok.2 ⟨h.1, h.2.1⟩)
    rintro ⟨⟨hrows, -⟩, -⟩
    -- A row that keeps the wrong status.
    by_cases hone : batch.rows.length = 1
    · have h := hrows last hlastMem
      rw [hgrow last hlastMem (Or.inr (hsingle hone hbehind))] at h
      exact hvok h
    · obtain ⟨i, hi, hil⟩ : ∃ i ∈ batch.rows, i ≠ last := by
        by_contra hall
        push Not at hall
        have hnodup := List.Nodup.of_append_left hfresh.nodup
        rw [List.eq_replicate_of_mem hall, List.nodup_replicate] at hnodup
        omega
      have h := hrows i hi
      rw [hgrow i hi (Or.inl hil)] at h
      exact hvok h

theorem keptIff (hformed : BatchesFormed batches) {before : Option (Nat × Bool)}
    (hfresh : Fresh before batches f) : KeptIff call before batches f := by
  induction batches generalizing before f with
  | nil => exact iff_of_true ⟨trivial, fun q hq ↦ (hfresh.before q hq).1⟩ trivial
  | cons batch more ih =>
    cases hdrop : batch.rows.drop (call.convertedRows batch).length with
    | cons row rows => exact keptIff_failed hdrop hfresh
    | nil =>
      cases hbehind : batch.behind with
      | true =>
        obtain rfl := hformed.2.1 hbehind
        exact keptIff_behind hdrop hbehind hformed.1 hfresh
      | false => exact keptIff_sent hdrop hformed hbehind hfresh fun h ↦ ih hformed.2.2.2 h

/-! ## The batches of a call -/

theorem flatMap_batchesFrom (size endRow : Nat) (pending rows : List Nat) :
    (batchesFrom size endRow pending rows).flatMap Batch.rows = pending ++ rows := by
  induction rows generalizing pending with
  | nil =>
    cases pending with
    | nil => rfl
    | cons i pending =>
      rw [List.append_nil]
      exact List.append_nil _
  | cons row rows ih =>
    rw [batchesFrom]
    split
    · rw [ih, List.append_assoc]
      rfl
    · rw [List.flatMap_cons, ih, List.nil_append, List.append_assoc]
      rfl

/-- Batches of one row are executed at it. -/
theorem behind_of_size_one (rows : List Nat) (hsize : size ≤ 1) :
    ∀ batch ∈ batchesFrom size endRow [] rows, batch.behind = false := by
  induction rows with
  | nil => exact List.forall_mem_nil _
  | cons row rows ih =>
    rw [batchesFrom, if_neg fun h ↦ absurd h.1 (by rw [List.length_nil]; omega)]
    exact List.forall_mem_cons.2 ⟨rfl, ih⟩

theorem batchesFormed_batchesFrom (hrows : (pending ++ rows).Pairwise (· < ·))
    (hend : ∀ row ∈ rows, row ≤ endRow) :
    BatchesFormed (batchesFrom size endRow pending rows) := by
  induction rows generalizing pending with
  | nil =>
    cases pending with
    | nil => trivial
    | cons i pending =>
      exact ⟨List.cons_ne_nil _ _, fun _ ↦ rfl, fun _ h ↦ absurd h.symm Bool.false_ne_true, trivial⟩
  | cons row rows ih =>
    obtain ⟨hrow, hend⟩ := List.forall_mem_cons.1 hend
    have hpairs := List.pairwise_append.1 hrows
    rw [batchesFrom]
    split
    · apply ih
      · rw [List.append_assoc]
        exact hrows
      · exact hend
    · next hfull =>
      refine ⟨List.append_ne_nil_of_right_ne_nil _ (List.cons_ne_nil _ _), by rintro ⟨⟩, ?_, ?_⟩
      · intro hlen _
        rw [List.length_append, List.length_singleton] at hlen
        have hpending : pending.length = 0 := by omega
        by_cases hsize : size ≤ 1
        · exact behind_of_size_one rows hsize
        · -- It is the last row of the array.
          have hlast : endRow ≤ row := by
            by_contra hlt
            exact hfull ⟨by omega, by omega⟩
          cases rows with
          | nil => exact List.forall_mem_nil _
          | cons row' rows =>
            have hlt := (List.pairwise_cons.1 hpairs.2.1).1 row' List.mem_cons_self
            have hle := hend row' List.mem_cons_self
            omega
      · apply ih
        · rw [List.nil_append]
          exact (List.pairwise_cons.1 hpairs.2.1).2
        · exact hend

theorem pairwise_wantedFrom (call : ExecuteCall) (row n : Nat) :
    (call.wantedFrom row n).Pairwise (· < ·) :=
  List.Pairwise.filter _ List.pairwise_lt_range'

/-- All rows get `SQL_PARAM_UNUSED`. -/
theorem initStatuses_eq {n : Nat} {ptr : List ParamStatus} (hn : n ≤ ptr.length) :
    ∃ ptr', StatusCall.initStatuses n ptr = some ptr' ∧ ptr'.length = ptr.length ∧
      statusOf ptr' = fun i ↦ if i < n then .unused else statusOf ptr i := by
  induction n with
  | zero => exact ⟨ptr, rfl, rfl, rfl⟩
  | succ n ih =>
    obtain ⟨ptr₁, hinit, hlen₁, hstatus₁⟩ := ih (Nat.le_of_succ_le hn)
    obtain ⟨ptr₂, hset, hlen₂, hstatus₂⟩ := @setStatus_eq ptr₁ .unused n (hlen₁ ▸ hn)
    refine ⟨ptr₂, ?_, hlen₂.trans hlen₁, ?_⟩
    · rw [StatusCall.initStatuses, hinit, Option.bind_some, hset]
    · rw [hstatus₂, hstatus₁]
      funext i
      by_cases heq : i = n
      · rw [setRows_of_mem (List.mem_singleton.2 heq), if_pos (by omega)]
      · rw [setRows_of_notMem fun hmem ↦ heq (List.mem_singleton.1 hmem)]
        by_cases hi : i < n
        · rw [if_pos hi, if_pos (Nat.lt_succ_of_lt hi)]
        · rw [if_neg hi, if_neg (by omega)]

theorem initStatuses_none {n : Nat} {ptr : List ParamStatus} (hn : ptr.length < n) :
    StatusCall.initStatuses n ptr = none := by
  induction n with
  | zero => exact absurd hn (Nat.not_lt_zero _)
  | succ n ih =>
    rw [StatusCall.initStatuses]
    by_cases hlt : ptr.length < n
    · rw [ih hlt]
      rfl
    · obtain ⟨ptr₁, hinit, hlen₁, -⟩ := @initStatuses_eq n ptr (Nat.not_lt.1 hlt)
      rw [hinit, Option.bind_some, setStatus, if_neg (by omega)]

end

/-! ## Runs -/

namespace StatusCall

/-- Nothing stays deferred behind the batches: a row that fails is the first one of its batch, and
there is a text to be sent behind the rows. -/
def Flushed (call : StatusCall) : List Batch → Prop
  | [] => True
  | batch :: more =>
    match batch.rows.drop (call.convertedRows batch).length with
    | _ :: _ => call.convertedRows batch = []
    | [] => call.isBlank batch = false ∧ (call.outcome batch ≠ .error → Flushed call more)

end StatusCall

/-- The states that are reached by calls behind which nothing stays deferred. -/
inductive StatusReaches : BatchStatement → Prop
  | constructor (batchSize : Int) : StatusReaches (scConstructor batchSize)
  | initialize_ {stmt : BatchStatement} (h : StatusReaches stmt) :
      StatusReaches (scInitializeStmts stmt)
  | execute {stmt : BatchStatement} (call : StatusCall) (h : StatusReaches stmt)
      (hflushed : call.rejected = true ∨ call.Flushed (call.batches (call.start stmt))) :
      StatusReaches (pgapiExecute call.toExecuteCall stmt).2

section

variable {call : StatusCall} {execType : ExecType} {row n size : Nat} {retval : Retcode}
  {pending : List Nat} {stmt : BatchStatement}

theorem execLast_stmt (call : ExecuteCall) (row : Nat) (stmt : BatchStatement) :
    (execLast call row stmt).2 =
      if blankBuffer stmt = true then { stmt with stmtWithParams := none }
      else flushDeferred { stmt with stmtWithParams := none } call.lastOutcome := by
  by_cases hblank : blankBuffer stmt = true
  · rw [if_pos hblank]
    exact congrArg Prod.snd (if_pos hblank)
  · rw [if_neg hblank]
    exact (congrArg Prod.snd (if_neg hblank)).trans (afterExecute_stmt _ _ _ _).1

theorem executeEnd_collected (h : Collected call pending stmt)
    (htype : pending ≠ [] → execType = .deffered)
    (hflushed : call.Flushed (batchesFrom size call.endRow pending [])) :
    Collected call [] (executeEnd call.toExecuteCall execType row retval stmt).2 := by
  by_cases hne : pending = []
  · rw [hne] at h
    rw [executeEnd]
    by_cases hdeffered : execType = .deffered
    · have hblank : blankBuffer stmt = true := h.blank
      rw [if_pos hdeffered, execLast_stmt, if_pos hblank]
      exact collected_nil h.count hblank
    · rw [if_neg hdeffered]
      exact h
  · have hbatches : batchesFrom size call.endRow pending [] = [⟨pending, true⟩] := by
      rw [batchesFrom]
      exact hne
    rw [hbatches, StatusCall.Flushed, convertedRows_pending h.converted, List.drop_length] at hflushed
    have hblank : ¬blankBuffer stmt = true := by
      rw [h.blank]
      exact ne_true_of_eq_false hflushed.1
    rw [executeEnd, if_pos (htype hne), execLast_stmt, if_neg hblank]
    exact collected_nil (flushDeferred_blank _ _).1 (flushDeferred_blank _ _).2

/-- Where nothing stays deferred behind the batches of the rows that are left. -/
theorem executeRows_collected (hrow : row + n = call.endRow + 1) (h : Collected call pending stmt)
    (hmode : LoopMode call execType size pending stmt)
    (hflushed : call.Flushed
      (batchesFrom size call.endRow pending (call.wantedFrom row n))) :
    Collected call [] (executeRows call.toExecuteCall execType n row retval stmt).2 := by
  have hend : call.Flushed (batchesFrom size call.endRow pending []) →
      Collected call [] (executeEnd call.toExecuteCall execType row retval stmt).2 :=
    executeEnd_collected h fun hne ↦ (hmode.pending hne).1
  induction n generalizing row pending retval stmt with
  | zero => exact hend hflushed
  | succ n ih =>
    have hnext : ∀ {pending : List Nat} {retval : Retcode} {stmt : BatchStatement},
        Collected call pending stmt → LoopMode call execType size pending stmt →
        call.Flushed (batchesFrom size call.endRow pending (call.wantedFrom (row + 1) n)) →
        Collected call [] (executeRows call.toExecuteCall execType n (row + 1) retval stmt).2 :=
      fun h' hmode' hflushed' ↦ ih (by omega) h' hmode' hflushed' <|
        executeEnd_collected h' fun hne ↦ (hmode'.pending hne).1
    rw [call.wantedFrom_succ] at hflushed
    rw [executeRows]
    cases hignored : (call.rows row).ignored with
    | true =>
      rw [hignored, if_pos rfl] at hflushed
      rw [if_pos rfl]
      by_cases hlast : call.endRow ≤ row
      · obtain rfl : n = 0 := by omega
        rw [if_pos hlast]
        exact hend hflushed
      · rw [if_neg hlast]
        exact hnext h hmode hflushed
    | false =>
      rw [hignored, if_neg Bool.false_ne_true] at hflushed
      rw [if_neg Bool.false_ne_true]
      dsimp only
      cases hconverted : (call.rows row).converted with
      | none =>
        obtain ⟨more, behind, batches, hbatches⟩ :=
          batchesFrom_head size call.endRow pending row (call.wantedFrom (row + 1) n)
        rw [hbatches, StatusCall.Flushed, h.convertedRows_failed hconverted, List.drop_left]
          at hflushed
        dsimp only at hflushed
        rw [if_pos (execRow_failed hconverted), execRow, hconverted]
        dsimp only
        rw [hflushed] at h
        exact collected_nil h.count h.blank
      | some text =>
        have hdefers := hmode.defers_iff row h.count
        by_cases hdefer : Defers call.toExecuteCall execType row stmt
        · obtain ⟨stmt', hexec, hcount, hbatch, hblank⟩ := execRow_defers hconverted hdefer
          rw [batchesFrom, if_pos (hdefers.1 hdefer)] at hflushed
          rw [hexec, if_neg Bool.false_ne_true]
          exact hnext (h.defer hconverted hcount hblank)
            ⟨hmode.type, by rw [hbatch]; exact hmode.size, fun _ ↦ ⟨hdefer.2.1, hdefer.1⟩⟩ hflushed
        · obtain ⟨hcount, hbatch, hblank, hended⟩ :=
            execRow_executes hconverted hdefer (hmode.blank_of_direct h)
          have hstate := @collected_nil call _ hcount hblank
          have houtcome : call.outcome ⟨pending ++ [row], false⟩ =
              (call.rows row).outcome.retval := by
            rw [StatusCall.outcome, if_neg Bool.false_ne_true, List.getLastD_concat]
          rw [batchesFrom, if_neg fun hroom ↦ hdefer (hdefers.2 hroom), StatusCall.Flushed,
            convertedRows_pending (h.converted_concat hconverted), List.drop_length] at hflushed
          dsimp only at hflushed
          rw [hended]
          split
          · exact hstate
          · next hmore =>
            rw [Bool.or_eq_true, not_or, decide_eq_true_eq] at hmore
            exact hnext hstate
              ⟨hmode.type, by rw [hbatch]; exact hmode.size, fun hne ↦ absurd rfl hne⟩
              (hflushed.2 (houtcome ▸ hmore.1))

theorem start_count (call : ExecuteCall) (stmt : BatchStatement) :
    (call.start stmt).countOfDeffered = stmt.countOfDeffered := by
  rw [ExecuteCall.start]
  split <;> rfl

theorem loopMode_start (call : StatusCall) (stmt : BatchStatement) :
    LoopMode call (call.execType stmt) (call.batchRows stmt) [] stmt where
  type := by
    rw [ExecuteCall.execType]
    split <;> exact nofun
  size := rfl
  pending := fun h ↦ absurd rfl h

theorem Collected.start (h : Collected call [] stmt) : Collected call [] (call.start stmt) where
  count := (start_count _ _).trans h.count
  blank := by
    rw [blankBuffer, (start_eq _ _).2.2]
    exact h.blank
  converted := h.converted

/-- Nothing is deferred between such calls. -/
theorem StatusReaches.collected (h : StatusReaches stmt) (call : StatusCall) :
    Collected call [] stmt := by
  induction h generalizing call with
  | constructor batchSize => exact collected_nil rfl rfl
  | initialize_ h ih => exact collected_nil (ih call).count (ih call).blank
  | @execute stmt call' h hflushed ih =>
    have hstart := (ih call').start
    have hcollected : Collected call' [] (pgapiExecute call'.toExecuteCall stmt).2 := by
      have hexecute : pgapiExecute call'.toExecuteCall stmt =
          if call'.rejected then (.error, call'.start stmt)
          else executeRows call'.toExecuteCall (call'.execType (call'.start stmt))
            (call'.endRow + 1) 0 .success (call'.start stmt) := rfl
      rw [hexecute]
      cases hrejected : call'.rejected with
      | true =>
        rw [if_pos rfl]
        exact hstart
      | false =>
        rw [hrejected, or_iff_right Bool.false_ne_true] at hflushed
        rw [if_neg Bool.false_ne_true]
        exact executeRows_collected (Nat.zero_add _) hstart (loopMode_start _ _) hflushed
    exact collected_nil hcollected.count hcollected.blank

end

/-! ## Calls -/

namespace StatusCall

/-- The condition on a call for a statement where nothing is deferred. -/
def CallFine (call : StatusCall) (stmt : BatchStatement) : Prop :=
  0 < call.paramsetSize ∧ call.paramsetSize < 2 ^ 31 ∧
    call.BatchesFine none (call.batches (call.start stmt))

end StatusCall

section

variable {call : StatusCall} {stmt : BatchStatement} {ptr : List ParamStatus}

theorem endRow_succ_eq_iff (call : ExecuteCall) :
    call.endRow + 1 = call.paramsetSize ↔ 0 < call.paramsetSize ∧ call.paramsetSize < 2 ^ 31 := by
  constructor
  · intro h
    have hpos : 0 < call.paramsetSize := by omega
    refine ⟨hpos, ?_⟩
    have hlt : (wrapInt 32 call.paramsetSize) < 2 ^ 31 := by
      rw [wrapInt]
      exact Int.bmod_lt (by decide)
    rw [ExecuteCall.endRow] at h
    omega
  · rintro ⟨hpos, hlt⟩
    rw [endRow_succ hlt]
    omega

/-- The statuses that are left of an array which is long enough. -/
theorem paramStatuses_eq (h : Collected call [] stmt) (hroom : call.endRow < ptr.length) :
    ∃ ptr', call.paramStatuses stmt ptr = some ptr' ∧ ptr'.length = ptr.length ∧
      statusOf ptr' = call.driverStatuses none (call.batches (call.start stmt))
        fun i ↦ if i < call.endRow + 1 then .unused else statusOf ptr i := by
  obtain ⟨ptr₁, hinit, hlen₁, hstatus₁⟩ := @initStatuses_eq (call.endRow + 1) ptr hroom
  have hstate : LoopState call 0 [] [] (statusOf ptr₁) (call.start stmt) ptr₁ :=
    { toCollected := h.start
      room := hlen₁ ▸ hroom
      status := rfl
      used := rfl
      later := by
        intro i _ hi
        rw [hstatus₁]
        exact if_pos (Nat.lt_succ_of_le hi) }
  obtain ⟨ptr', hloop, hlen, hresult⟩ :=
    loopStatuses_eq (Nat.zero_add _) hstate (loopMode_start call (call.start stmt))
  refine ⟨ptr', ?_, hlen.trans hlen₁, ?_⟩
  · rw [StatusCall.paramStatuses, hinit, Option.bind_some]
    exact hloop
  · rw [hresult, hstatus₁]
    rfl

/-- A row that is in a batch is one of the rows that are processed. -/
theorem mem_batches {i : Nat} {batch : Batch}
    (hbatch : batch ∈ call.batches stmt) (hi : i ∈ batch.rows) :
    (call.rows i).ignored = false ∧ i ≤ call.endRow := by
  have hmem := List.mem_flatMap_of_mem hbatch hi
  rw [StatusCall.batches, flatMap_batchesFrom, List.nil_append, ExecuteCall.wantedFrom] at hmem
  obtain ⟨hrange, hwanted⟩ := List.mem_filter.1 hmem
  have hlt := List.mem_range'_1.1 hrange
  exact ⟨by simpa using hwanted, by omega⟩

theorem fresh_batches {f : Nat → ParamStatus} (hunused : ∀ i ≤ call.endRow, f i = .unused) :
    Fresh none (call.batches stmt) f :=
  { nodup := by
      rw [StatusCall.batches, flatMap_batchesFrom, List.nil_append]
      exact (pairwise_wantedFrom _ _ _).imp Nat.ne_of_lt
    unused := fun _ hbatch i hi ↦ hunused i (mem_batches hbatch hi).2
    before := nofun }

theorem batchesFormed_batches : BatchesFormed (call.batches stmt) := by
  rw [StatusCall.batches]
  apply batchesFormed_batchesFrom
  · rw [List.nil_append]
    exact pairwise_wantedFrom _ _ _
  · intro row hrow
    rw [ExecuteCall.wantedFrom] at hrow
    have hlt := List.mem_range'_1.1 (List.mem_filter.1 hrow).1
    omega

/-- The statuses that a call leaves of an array which is as long as it says, if that fits. -/
theorem paramStatuses_kept (h : Collected call [] stmt)
    (hsize : call.endRow + 1 = call.paramsetSize) (hlen : ptr.length = call.paramsetSize) :
    ∃ ptr', call.paramStatuses stmt ptr = some ptr' ∧
      (∀ i < call.paramsetSize, (call.rows i).ignored = true ∨ call.endRow < i →
        ptr'[i]? = some .unused) ∧
      (call.RowsRight (call.batches (call.start stmt)) (statusOf ptr') ↔
        call.BatchesFine none (call.batches (call.start stmt))) := by
  obtain ⟨ptr', hrun, hlen', hstatus⟩ := @paramStatuses_eq call stmt ptr h (by omega)
  have hunused : ∀ i ≤ call.endRow,
      (if i < call.endRow + 1 then ParamStatus.unused else statusOf ptr i) = .unused :=
    fun i hi ↦ if_pos (Nat.lt_succ_of_le hi)
  refine ⟨ptr', hrun, fun i hi hout ↦ ?_, ?_⟩
  · rw [getElem?_statusOf (by omega), hstatus, driverStatuses_frame]
    · rw [hunused i (by omega)]
    · intro batch hbatch hmem
      obtain ⟨hwanted, hle⟩ := mem_batches hbatch hmem
      rcases hout with hignored | hlt
      · rw [hwanted] at hignored
        cases hignored
      · omega
    · exact Or.inl nofun
  · have hkept := @keptIff call _ _ batchesFormed_batches none
      (@fresh_batches call (call.start stmt) _ hunused)
    rw [KeptIff, Option.map_none, Option.map_none, ← hstatus, and_iff_left nofun] at hkept
    exact hkept

/-- In every run of calls behind which nothing stays deferred, a call sets the statuses as promised
exactly under the condition. -/
theorem paramStatuses_right_iff (h : StatusReaches stmt) :
    call.StatusesRight stmt ↔ call.CallFine stmt := by
  have hidle := h.collected call
  by_cases hsize : call.endRow + 1 = call.paramsetSize
  · constructor
    · intro hright
      have hlen := @List.length_replicate _ call.paramsetSize ParamStatus.success
      obtain ⟨ptr', hrun, -, hrows⟩ := hright _ hlen
      obtain ⟨ptr'', hrun', -, hfine⟩ := paramStatuses_kept hidle hsize hlen
      rw [hrun] at hrun'
      cases hrun'
      obtain ⟨hpos, hlt⟩ := (endRow_succ_eq_iff _).1 hsize
      exact ⟨hpos, hlt, hfine.1 hrows⟩
    · rintro ⟨-, -, hfine⟩ ptr hlen
      obtain ⟨ptr', hrun, hunused, hrows⟩ := paramStatuses_kept hidle hsize hlen
      exact ⟨ptr', hrun, hunused, hrows.2 hfine⟩
  · refine iff_of_false (fun hright ↦ ?_) fun h ↦ hsize ((endRow_succ_eq_iff _).2 ⟨h.1, h.2.1⟩)
    obtain ⟨ptr', hrun, hunused, -⟩ :=
      hright (List.replicate call.paramsetSize .success) List.length_replicate
    by_cases hlt : call.paramsetSize < call.endRow + 1
    · -- The array is empty, but its first element is written.
      rw [StatusCall.paramStatuses, initStatuses_none (by rw [List.length_replicate]; exact hlt)]
        at hrun
      cases hrun
    · -- The rows beyond the last one are not initialized.
      obtain ⟨ptr'', hrun', hlen, hstatus⟩ := @paramStatuses_eq call stmt
        (List.replicate call.paramsetSize .success) hidle
        (by rw [List.length_replicate]; omega)
      rw [hrun] at hrun'
      cases hrun'
      have hbeyond := hunused (call.endRow + 1) (by omega) (Or.inr (Nat.lt_succ_self _))
      rw [List.length_replicate] at hlen
      rw [getElem?_statusOf (by omega), hstatus, driverStatuses_frame, if_neg (lt_irrefl _),
        statusOf, List.getD_replicate _ (by omega)] at hbeyond
      · cases hbeyond
      · intro batch hbatch hmem
        exact absurd (mem_batches hbatch hmem).2 (by omega)
      · exact Or.inl (by rintro ⟨⟩)

end

/-- Rows of which the last one is ignored, in batches of two. -/
def trailingCall (rows : Nat) (lastOutcome : ExecOutcome) : StatusCall where
  toExecuteCall :=
    { batchCall (List.replicate rows (insertRow "INSERT") ++
        [{ insertRow "INSERT" with ignored := true }]) with lastOutcome := lastOutcome }
  hasNotice := fun _ ↦ false
  lastHasNotice := false

theorem paramStatuses_right_trailing :
    (trailingCall 3 executed).StatusesRight (scConstructor 2) := by
  refine (paramStatuses_right_iff (.constructor 2)).2 ⟨by decide, by decide, ?_⟩
  have hbatches : (trailingCall 3 executed).batches
      ((trailingCall 3 executed).start (scConstructor 2)) = [⟨[0, 1], false⟩, ⟨[2], true⟩] := by
    decide +kernel
  rw [hbatches]
  exact ⟨nofun, nofun, nofun, nofun, nofun, nofun, trivial⟩

/-- The server does not execute what it is sent. -/
def refused : ExecOutcome := ⟨true, .error, fun _ ↦ rfl, false, false⟩

/-- The first two rows have been accepted, but the second one gets the status of the third. -/
theorem not_paramStatuses_right :
    (trailingCall 3 refused).paramStatuses (scConstructor 2) (List.replicate 4 .unused) =
      some [.success, .error, .error, .unused] ∧
    ¬(trailingCall 3 refused).StatusesRight (scConstructor 2) := by
  have hrun : (trailingCall 3 refused).paramStatuses (scConstructor 2)
      (List.replicate 4 .unused) = some [.success, .error, .error, .unused] := by decide +kernel
  refine ⟨hrun, fun h ↦ ?_⟩
  have hbatches : (trailingCall 3 refused).batches
      ((trailingCall 3 refused).start (scConstructor 2)) = [⟨[0, 1], false⟩, ⟨[2], true⟩] := by
    decide +kernel
  obtain ⟨ptr', hrun', -, hrows⟩ := h (List.replicate 4 .unused) rfl
  rw [hrun] at hrun'
  cases hrun'
  rw [hbatches] at hrows
  rcases hrows.1 1 (by decide) with h | h
  · cases h
  · cases h.1

end PsqlOdbc
