import PsqlOdbc.DescCopyFields

/-!
# When a copied descriptor is equal and independent

The steps of `PGAPI_CopyDesc` one after the other.  What the copy and the source own together are
the names of parameters, so that the two are independent if and only if there are none
(`DescWorld.copied_right_iff`).
-/

namespace PsqlOdbc

open Lib

namespace DescWorld

variable {ι : Type} [DecidableEq ι] {w w' : DescWorld ι} {source target : ι}

/-! ## The steps -/

/-- `DC_Destructor` frees what the descriptor owns, once. -/
theorem dcDestructor_eq (htagged : (w.desc target).Tagged)
    (htyped : (w.desc target).typeDefined = true) (hird : (w.desc target).descType ≠ some .ird)
    (hcontents : (w.contents target).isSome) (hnodup : (w.owned target).Nodup) :
    w.dcDestructor target =
      some (w.setFields target (w.heap.without (w.owned target)) (w.desc target).fields.torn) := by
  rw [dcDestructor, if_pos htyped]
  rw [contents] at hcontents
  rw [owned] at hnodup ⊢
  rw [DescriptorClass.Tagged, htyped] at htagged
  cases htype : (w.desc target).descType with
  | none => simp [htype] at htagged
  | some kind =>
    rw [htype] at htagged
    cases hfields : (w.desc target).fields with
    | cleared | ird => cases kind <;> simp_all
    | bind fields =>
      rw [hfields] at hcontents hnodup
      have hfree := ardFieldsFree_eq (DescFields.isSome_of_mem_owned hcontents) hnodup
      have hnull : fields.bindings = none → fields.allocated = 0 := by
        intro hnone
        by_contra hallocated
        cases hbookmark : DescFields.readIf (DescFields.readBookmark w.heap) fields.bookmark with
        | none => simp [DescFields.contents, hbookmark] at hcontents
        | some bookmark =>
          simp [DescFields.contents, hbookmark, DescFields.readAll, hnone, hallocated] at hcontents
      cases kind with
      | ard =>
        dsimp only
        rw [hfree]
        rfl
      | apd =>
        dsimp only
        rw [apdFieldsFree_eq hnull, hfree]
        rfl
      | ird => exact absurd htype hird
      | ipd => simp [hfields] at htagged
    | impl fields =>
      rw [hfields] at hcontents hnodup
      cases kind with
      | ard | apd => simp [hfields] at htagged
      | ird => exact absurd htype hird
      | ipd =>
        dsimp only
        rw [ipdFieldsFree_eq hcontents hnodup]
        rfl

/-- The fields of a source that has a type other than that of rows of the driver are copied. -/
theorem copyFields_eq (htagged : (w.desc source).Tagged)
    (htyped : (w.desc source).typeDefined = true) (hird : (w.desc source).descType ≠ some .ird)
    (hcontents : (w.contents source).isSome) (target : ι) :
    ∃ heap' fields', w.copyFields source target = some (w.copied source target heap' fields') ∧
      CopyOf w.heap (w.desc source).fields heap' fields' := by
  rw [copyFields]
  rw [contents] at hcontents
  rw [DescriptorClass.Tagged, htyped] at htagged
  cases htype : (w.desc source).descType with
  | none => simp [htype] at htagged
  | some kind =>
    rw [htype] at htagged
    cases hfields : (w.desc source).fields with
    | cleared | ird => cases kind <;> simp_all
    | bind fields =>
      rw [hfields] at hcontents
      obtain ⟨heap', fields', hcopy, hof⟩ := copyOf_bind hcontents
      refine ⟨heap', .bind fields', ?_, hof⟩
      cases kind with
      | ard =>
        dsimp only
        rw [hcopy]
        rfl
      | apd =>
        dsimp only
        rw [apdFieldsCopy, hcopy]
        rfl
      | ird => exact absurd htype hird
      | ipd => simp [hfields] at htagged
    | impl fields =>
      rw [hfields] at hcontents
      obtain ⟨heap', fields', hcopy, hof⟩ := copyOf_impl hcontents
      refine ⟨heap', .impl fields', ?_, hof⟩
      cases kind with
      | ard | apd => simp [hfields] at htagged
      | ird => exact absurd htype hird
      | ipd =>
        dsimp only
        rw [hcopy]
        rfl

/-! ## Independence -/

omit [DecidableEq ι] in
/-- Descriptors that own no block together are independent. -/
theorem independent_of_disjoint {self other : ι} (hne : other ≠ self)
    (hdisjoint : List.Disjoint (w.owned self) (w.owned other))
    (hcontents : (w.contents other).isSome) : w.Independent self other := by
  intro w' honly
  rw [contents, contents, honly.desc_eq other hne]
  refine DescFields.contents_congr fun addr haddr ↦ honly.blocks_eq addr ?_ ?_
  · exact fun hself ↦ hdisjoint hself haddr
  · exact DescFields.isSome_of_mem_owned hcontents addr haddr

omit [DecidableEq ι] in
/-- A block of both of them can be freed with the one. -/
theorem not_independent {self other : ι} {addr : ℕ} (hself : addr ∈ w.owned self)
    (hother : addr ∈ w.owned other) (hcontents : (w.contents other).isSome) :
    ¬ w.Independent self other := by
  intro hindependent
  have honly : OnlyOn w { w with heap := w.heap.without [addr] } self := by
    refine ⟨fun _ _ ↦ rfl, fun addr' haddr' _ ↦ Heap.blocks_without_of_notMem ?_⟩
    rw [List.mem_singleton]
    rintro rfl
    exact haddr' hself
  have hkept := hindependent _ honly
  rw [show ({ w with heap := w.heap.without [addr] } : DescWorld ι).contents other = none from
    DescFields.contents_without hother] at hkept
  rw [← hkept] at hcontents
  exact absurd hcontents (by simp)

/-! ## The call -/

variable (w source target) in
/-- What the copied fields are when the target is `fields'` on `heap'`: those of the source, and
independent of it where no names are shared. -/
theorem copied_right_iff {heap' : Heap DescBlock} {fields' : DescFields}
    (hof : CopyOf w.heap (w.desc source).fields heap' fields') (hne : source ≠ target)
    (hcontents : (w.contents source).isSome) :
    let w' := (w.copied source target heap' fields').2
    w'.contents target = w.contents source ∧ w'.contents source = w.contents source ∧
      (w'.Independent source target ∧ w'.Independent target source ↔
        (w.desc source).fields.nameBlocks w.heap = []) := by
  intro w'
  have hkept : ∀ addr ∈ w.owned source, heap'.blocks addr = w.heap.blocks addr :=
    fun addr haddr ↦ hof.blocks_eq addr (DescFields.isSome_of_mem_owned hcontents addr haddr)
  have hdesc : w'.desc source = w.desc source := Function.update_of_ne hne ..
  have htarget : (w'.desc target).fields = fields' := by
    change (Function.update w.desc target _ target).fields = fields'
    rw [Function.update_self]
  have hsource' : w'.contents source = w.contents source := by
    rw [contents, hdesc]
    exact DescFields.contents_congr hkept
  have htarget' : w'.contents target = w.contents source := by
    rw [contents, htarget]
    exact hof.contents_eq
  have howned : w'.owned source = w.owned source := by
    rw [owned, hdesc]
    exact DescFields.owned_congr hkept
  have howned' : w'.owned target = fields'.owned heap' := by
    rw [owned, htarget]
    rfl
  refine ⟨htarget', hsource', ?_, ?_⟩
  · rintro ⟨hindependent, -⟩
    by_contra hnames
    obtain ⟨addr, haddr⟩ := List.exists_mem_of_ne_nil _ hnames
    have hsource : addr ∈ w'.owned source := by
      rw [howned]
      exact DescFields.nameBlocks_subset haddr
    have htarget : addr ∈ w'.owned target := by
      rw [howned']
      exact hof.of_mem_names addr haddr
    exact not_independent hsource htarget (by rwa [htarget']) hindependent
  · intro hnames
    have hdisjoint : List.Disjoint (w'.owned source) (w'.owned target) := by
      rw [howned, howned']
      intro addr hsource htarget
      rcases hof.mem_owned addr htarget with hnew | hname
      · have hlt := Heap.lt_next (DescFields.isSome_of_mem_owned hcontents addr hsource)
        omega
      · rw [hnames] at hname
        exact absurd hname List.not_mem_nil
    exact ⟨independent_of_disjoint hne.symm hdisjoint (by rwa [htarget']),
      independent_of_disjoint hne hdisjoint.symm (by rwa [hsource'])⟩

/-- The copy is equal and independent, or the target is as before: there is no type to copy or the
call is refused, nothing of the target is freed in vain, its type is that of the source, and the
source has no names. -/
def CopyMeets (w : DescWorld ι) (source target : ι) : Prop :=
  let src := w.desc source
  let targethd := w.desc target
  if ¬ src.typeDefined then True
  else if targethd.typeDefined then
    if targethd.descType = some .ird ∨ (targethd.descType ≠ src.descType ∧ targethd.embedded) then
      True
    else if src.descType = some .ird ∨ source = target then targethd.fields.Bare
    else targethd.descType = src.descType ∧ src.fields.nameBlocks w.heap = []
  else src.descType = some .ird ∨ src.fields.nameBlocks w.heap = []

instance (w : DescWorld ι) (source target : ι) : Decidable (w.CopyMeets source target) :=
  inferInstanceAs (Decidable (ite ..))

omit [DecidableEq ι] in
/-- A call that is refused leaves everything. -/
theorem equalOrKept_refused : w.EqualOrKept source target .error w := ⟨rfl, rfl, rfl⟩

/-- What a call that has a result does is right or not. -/
theorem exists_right_iff {ret : Retcode} (h : w.pgapiCopyDesc source target = some (ret, w')) :
    (∃ ret w', w.pgapiCopyDesc source target = some (ret, w') ∧
      w.EqualOrKept source target ret w') ↔ w.EqualOrKept source target ret w' := by
  constructor
  · rintro ⟨ret', w'', heq, hright⟩
    rw [h, Option.some.injEq, Prod.mk.injEq] at heq
    rw [heq.1, heq.2]
    exact hright
  · exact fun hright ↦ ⟨ret, w', h, hright⟩

/-- The type of a target with copied fields. -/
theorem copied_descType {heap' : Heap DescBlock} {fields' : DescFields} :
    ((w.copied source target heap' fields').2.desc target).descType =
      if (w.desc target).typeDefined then (w.desc target).descType
      else (w.desc source).descType := by
  change (Function.update w.desc target _ target).descType = _
  rw [Function.update_self]

theorem copied_typeDefined {heap' : Heap DescBlock} {fields' : DescFields} :
    ((w.copied source target heap' fields').2.desc target).typeDefined = true := by
  change (Function.update w.desc target _ target).typeDefined = _
  rw [Function.update_self]

/-- Fields that are copied to another descriptor, from a state that has the source as before. -/
theorem equalOrKept_copied_iff {w₁ : DescWorld ι} {heap' : Heap DescBlock} {fields' : DescFields}
    (hof : CopyOf w₁.heap (w₁.desc source).fields heap' fields') (hne : source ≠ target)
    (hdesc : w₁.desc source = w.desc source)
    (hsource : w₁.contents source = w.contents source) (hcontents : (w.contents source).isSome) :
    w.EqualOrKept source target .success (w₁.copied source target heap' fields').2 ↔
      ((w₁.desc target).typeDefined = true →
        (w₁.desc target).descType = (w.desc source).descType) ∧
      (w.desc source).fields.nameBlocks w₁.heap = [] := by
  obtain ⟨htarget', hsource', hindependent⟩ :=
    copied_right_iff w₁ source target hof hne (by rwa [hsource])
  have htype : ((w₁.copied source target heap' fields').2.desc target).descType =
      if (w₁.desc target).typeDefined then (w₁.desc target).descType
      else (w₁.desc source).descType := copied_descType
  rw [hdesc] at hindependent htype
  have htype_iff : ((w₁.copied source target heap' fields').2.desc target).descType =
      (w.desc source).descType ↔
        ((w₁.desc target).typeDefined = true →
          (w₁.desc target).descType = (w.desc source).descType) := by
    rw [htype]
    cases (w₁.desc target).typeDefined <;> simp
  rw [← hindependent, ← htype_iff]
  constructor
  · rintro ⟨-, htype, -, hrest⟩
    exact ⟨htype, (hrest hne).2⟩
  · rintro ⟨htype, hboth⟩
    exact ⟨copied_typeDefined, htype, htarget'.trans hsource,
      fun _ ↦ ⟨hsource'.trans hsource, hboth⟩⟩

/-- A target that is torn down, with the rest as before. -/
theorem torn_facts (h : w.Sound source target) (hne : source ≠ target) :
    let w₁ := w.setFields target (w.heap.without (w.owned target)) (w.desc target).fields.torn
    w₁.desc source = w.desc source ∧ w₁.contents source = w.contents source ∧
      (w.desc source).fields.nameBlocks w₁.heap = (w.desc source).fields.nameBlocks w.heap := by
  intro w₁
  have hdesc : w₁.desc source = w.desc source := Function.update_of_ne hne ..
  have hkept : ∀ addr ∈ w.owned source, w₁.heap.blocks addr = w.heap.blocks addr :=
    fun addr haddr ↦ Heap.blocks_without_of_notMem (h.disjoint hne haddr)
  refine ⟨hdesc, ?_, DescFields.nameBlocks_congr hkept⟩
  rw [contents, hdesc]
  exact DescFields.contents_congr hkept

/-- The call with a target that is torn down. -/
theorem right_iff_of_torn (h : w.Sound source target)
    (hsrc : (w.desc source).typeDefined = true) (htyped : (w.desc target).typeDefined = true)
    (hird : (w.desc target).descType ≠ some .ird)
    (hcall : w.pgapiCopyDesc source target =
      (w.setFields target (w.heap.without (w.owned target))
        (w.desc target).fields.torn).copyFields source target) :
    (∃ ret w', w.pgapiCopyDesc source target = some (ret, w') ∧
      w.EqualOrKept source target ret w') ↔
      if (w.desc source).descType = some .ird ∨ source = target then (w.desc target).fields.Bare
      else (w.desc target).descType = (w.desc source).descType ∧
        (w.desc source).fields.nameBlocks w.heap = [] := by
  set w₁ := w.setFields target (w.heap.without (w.owned target)) (w.desc target).fields.torn
    with hw₁
  have htarget : w₁.desc target = { w.desc target with fields := (w.desc target).fields.torn } :=
    Function.update_self ..
  by_cases hsame : source = target
  · -- the copy of what is left of itself
    subst hsame
    have htagged : (w₁.desc source).Tagged := by
      rw [htarget]
      exact DescriptorClass.tagged_torn h.source_tagged
    have hcontents : (w₁.contents source).isSome := by
      rw [contents, htarget]
      exact DescFields.isSome_contents_torn _
    obtain ⟨heap', fields', hcopy, hof⟩ := copyFields_eq (w := w₁) htagged
      (by rw [htarget]; exact hsrc) (by rw [htarget]; exact hird) hcontents source
    have hres : w.pgapiCopyDesc source source =
        some (.success, (w₁.copied source source heap' fields').2) := hcall.trans hcopy
    have hself : (w.desc source).descType = some .ird ∨ source = source := .inr rfl
    rw [exists_right_iff hres, if_pos hself]
    have hshown : (w₁.copied source source heap' fields').2.contents source =
        (w.desc source).fields.torn.contents w₁.heap := by
      have hfields : ((w₁.copied source source heap' fields').2.desc source).fields = fields' := by
        change (Function.update w₁.desc source _ source).fields = fields'
        rw [Function.update_self]
      rw [contents, hfields]
      refine hof.contents_eq.trans ?_
      rw [htarget]
    have htype : ((w₁.copied source source heap' fields').2.desc source).descType =
        (w.desc source).descType := by
      rw [copied_descType, ite_self, htarget]
    rw [← DescFields.contents_torn_iff w₁.heap h.source_contents, ← hshown]
    constructor
    · rintro ⟨-, -, hcontents', -⟩
      exact hcontents'
    · exact fun hcontents' ↦ ⟨copied_typeDefined, htype, hcontents', fun hne ↦ absurd rfl hne⟩
  · obtain ⟨hdesc, hsource, hnames⟩ := torn_facts h hsame
    by_cases hsrcIrd : (w.desc source).descType = some .ird
    · have hcopy : w₁.copyFields source target = some (.error, w₁) := by
        rw [copyFields, hdesc, hsrcIrd]
      rw [exists_right_iff (hcall.trans hcopy), if_pos (.inl hsrcIrd),
        ← DescFields.contents_torn_iff w₁.heap h.target_contents]
      have hshown : w₁.contents target = (w.desc target).fields.torn.contents w₁.heap := by
        rw [contents, htarget]
      rw [← hshown]
      constructor
      · rintro ⟨-, -, hcontents'⟩
        exact hcontents'
      · exact fun hcontents' ↦ ⟨by rw [htarget], by rw [htarget], hcontents'⟩
    · obtain ⟨heap', fields', hcopy, hof⟩ := copyFields_eq (w := w₁)
        (by rw [hdesc]; exact h.source_tagged) (by rw [hdesc]; exact hsrc)
        (by rw [hdesc]; exact hsrcIrd) (by rw [hsource]; exact h.source_contents) target
      have hres : w.pgapiCopyDesc source target =
          some (.success, (w₁.copied source target heap' fields').2) := hcall.trans hcopy
      rw [exists_right_iff hres, if_neg (not_or.2 ⟨hsrcIrd, hsame⟩),
        equalOrKept_copied_iff hof hsame hdesc hsource h.source_contents, hnames, htarget]
      simp [htyped]

/-- The copy of a descriptor is equal and independent or the target is kept if and only if the call
meets the conditions. -/
theorem pgapiCopyDesc_right_iff (h : w.Sound source target) :
    (∃ ret w', w.pgapiCopyDesc source target = some (ret, w') ∧
      w.EqualOrKept source target ret w') ↔ w.CopyMeets source target := by
  rw [CopyMeets]
  by_cases hsrc : (w.desc source).typeDefined = true
  · rw [if_neg (not_not.2 hsrc)]
    by_cases htyped : (w.desc target).typeDefined = true
    · rw [if_pos htyped]
      by_cases hrefused : (w.desc target).descType = some .ird ∨
          ((w.desc target).descType ≠ (w.desc source).descType ∧ (w.desc target).embedded)
      · have hcall : w.pgapiCopyDesc source target = some (.error, w) := by
          rw [pgapiCopyDesc, if_neg (not_not.2 hsrc), if_pos htyped]
          rcases hrefused with hird | hdiffer
          · rw [if_pos hird]
          · rw [if_pos hdiffer, ite_self]
        rw [exists_right_iff hcall, if_pos hrefused]
        exact iff_of_true equalOrKept_refused trivial
      · rw [if_neg hrefused]
        obtain ⟨hird, hdiffer⟩ := not_or.1 hrefused
        refine right_iff_of_torn h hsrc htyped hird ?_
        rw [pgapiCopyDesc, if_neg (not_not.2 hsrc), if_pos htyped, if_neg hird, if_neg hdiffer,
          dcDestructor_eq h.target_tagged htyped hird h.target_contents h.target_nodup,
          Option.bind_some]
    · rw [if_neg htyped]
      have hne : source ≠ target := by
        rintro rfl
        exact htyped hsrc
      have hcall : w.pgapiCopyDesc source target = w.copyFields source target := by
        rw [pgapiCopyDesc, if_neg (not_not.2 hsrc), if_neg htyped]
      by_cases hsrcIrd : (w.desc source).descType = some .ird
      · have hcopy : w.copyFields source target = some (.error, w) := by
          rw [copyFields, hsrcIrd]
        rw [exists_right_iff (hcall.trans hcopy)]
        exact iff_of_true equalOrKept_refused (.inl hsrcIrd)
      · obtain ⟨heap', fields', hcopy, hof⟩ :=
          copyFields_eq h.source_tagged hsrc hsrcIrd h.source_contents target
        have hres : w.pgapiCopyDesc source target =
            some (.success, (w.copied source target heap' fields').2) := hcall.trans hcopy
        rw [exists_right_iff hres,
          equalOrKept_copied_iff hof hne rfl rfl h.source_contents]
        simp [htyped, hsrcIrd]
  · have hcall : w.pgapiCopyDesc source target = some (.error, w) := by
      rw [pgapiCopyDesc, if_pos hsrc]
    rw [exists_right_iff hcall, if_pos hsrc]
    exact iff_of_true equalOrKept_refused trivial

/-- A column of four bytes, and a descriptor that has it at `addr`. -/
def oneBinding (addr : ℕ) : DescFields :=
  .bind ⟨1, 0, 0, 0, none, some addr, 1, 1⟩

/-- Two descriptors with a record each: one of a statement, and one that was allocated. -/
def twoDescs (sourceType targetType : DescKind) : DescWorld Bool where
  desc
    | false => ⟨true, true, some sourceType, oneBinding 0⟩
    | true => ⟨false, true, some targetType, oneBinding 1⟩
  heap := (Heap.empty.alloc (.bindings [⟨4, 0x100, 0, 0, 4, 0, 0⟩])).alloc
    (.bindings [⟨8, 0x200, 0, 0, 1, 0, 0⟩])

theorem twoDescs_sound {sourceType targetType : DescKind}
    (hsource : sourceType = .ard ∨ sourceType = .apd)
    (htarget : targetType = .ard ∨ targetType = .apd) :
    (twoDescs sourceType targetType).Sound false true where
  source_tagged := by rcases hsource with rfl | rfl <;> trivial
  target_tagged := by rcases htarget with rfl | rfl <;> trivial
  source_contents := rfl
  target_contents := rfl
  source_nodup := List.nodup_singleton _
  target_nodup := List.nodup_singleton _
  disjoint _ := List.disjoint_singleton.2 (by
    change 1 ∉ [0]
    decide)

/-- The columns of a statement, copied to a descriptor that had columns. -/
theorem right_columns :
    ∃ ret w', (twoDescs .ard .ard).pgapiCopyDesc false true = some (ret, w') ∧
      (twoDescs .ard .ard).EqualOrKept false true ret w' :=
  (pgapiCopyDesc_right_iff (twoDescs_sound (.inl rfl) (.inl rfl))).2 (by decide)

/-- A descriptor of columns does not become one of parameters, though the call succeeds. -/
theorem not_right_otherType :
    (twoDescs .apd .ard).Sound false true ∧
      ¬ ∃ ret w', (twoDescs .apd .ard).pgapiCopyDesc false true = some (ret, w') ∧
        (twoDescs .apd .ard).EqualOrKept false true ret w' := by
  refine ⟨twoDescs_sound (.inr rfl) (.inl rfl), ?_⟩
  rintro ⟨ret, w', hcall, hright⟩
  have htype : ((twoDescs .apd .ard).pgapiCopyDesc false true).map
      (fun res ↦ (res.1, (res.2.desc true).descType)) = some (.success, some .ard) := rfl
  rw [hcall, Option.map_some, Option.some.injEq, Prod.mk.injEq] at htype
  obtain ⟨rfl, htype⟩ := htype
  have hsource := hright.2.1
  rw [htype] at hsource
  exact absurd hsource (by decide)

end DescWorld

end PsqlOdbc
