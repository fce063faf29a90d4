import PsqlOdbc.DescCopy

/-!
# The fields of a copied descriptor

What a descriptor shows depends on the blocks that it owns only (`contents_congr`), and it shows
nothing if one of them is gone (`contents_without`).  A copy shows what the source shows (`CopyOf`),
but it has the names of its parameters in common with it.
-/

namespace PsqlOdbc

open Lib

namespace DescFields

/-! ## Lists of results -/

theorem mapM_congr {α β : Type} {f g : α → Option β} {l : List α} (h : ∀ a ∈ l, f a = g a) :
    l.mapM f = l.mapM g := by
  induction l with
  | nil => simp
  | cons a l ih =>
    rw [List.mapM_cons, List.mapM_cons, h a List.mem_cons_self,
      ih fun b hb ↦ h b (List.mem_cons_of_mem _ hb)]

theorem isSome_of_mapM {α β : Type} {f : α → Option β} {l : List α} (h : (l.mapM f).isSome) :
    ∀ a ∈ l, (f a).isSome := by
  induction l with
  | nil => simp
  | cons a l ih =>
    rw [List.mapM_cons] at h
    cases ha : f a with
    | none => simp [ha] at h
    | some b =>
      cases hl : l.mapM f with
      | none => simp [ha, hl] at h
      | some bs =>
        intro a' ha'
        rcases List.mem_cons.1 ha' with rfl | ha'
        · rw [ha]
          rfl
        · exact ih (by rw [hl]; rfl) a' ha'

/-! ## What is read -/

variable {heap heap' : Heap DescBlock}

theorem isSome_of_readBookmark {addr : ℕ} (h : (readBookmark heap addr).isSome) :
    (heap.blocks addr).isSome := by
  cases hblock : heap.blocks addr with
  | none => simp [readBookmark, hblock] at h
  | some block => rfl

theorem isSome_of_readBindings {n addr : ℕ} (h : (readBindings heap n addr).isSome) :
    (heap.blocks addr).isSome := by
  cases hblock : heap.blocks addr with
  | none => simp [readBindings, hblock] at h
  | some block => rfl

theorem isSome_of_readParameters {n addr : ℕ} (h : (readParameters heap n addr).isSome) :
    (heap.blocks addr).isSome := by
  cases hblock : heap.blocks addr with
  | none => simp [readParameters, hblock] at h
  | some block => rfl

theorem isSome_of_readName {addr : ℕ} (h : (readName heap addr).isSome) :
    (heap.blocks addr).isSome := by
  cases hblock : heap.blocks addr with
  | none => simp [readName, hblock] at h
  | some block => rfl

theorem readBookmark_congr {addr : ℕ} (h : heap'.blocks addr = heap.blocks addr) :
    readBookmark heap' addr = readBookmark heap addr := by
  rw [readBookmark, readBookmark, h]

theorem readBindings_congr {n addr : ℕ} (h : heap'.blocks addr = heap.blocks addr) :
    readBindings heap' n addr = readBindings heap n addr := by
  rw [readBindings, readBindings, h]

theorem readParameters_congr {n addr : ℕ} (h : heap'.blocks addr = heap.blocks addr) :
    readParameters heap' n addr = readParameters heap n addr := by
  rw [readParameters, readParameters, h]

theorem readName_congr {addr : ℕ} (h : heap'.blocks addr = heap.blocks addr) :
    readName heap' addr = readName heap addr := by
  rw [readName, readName, h]

theorem readIf_congr {α : Type} {read read' : ℕ → Option α} {pointer : Option ℕ}
    (h : ∀ addr ∈ pointer.toList, read' addr = read addr) :
    readIf read' pointer = readIf read pointer := by
  cases pointer with
  | none => rfl
  | some addr => rw [readIf, readIf, h addr (by simp)]

theorem readAll_congr {α : Type} {read read' : ℕ → ℕ → Option (List α)} {n : ℕ}
    {pointer : Option ℕ} (h : ∀ addr ∈ pointer.toList, read' n addr = read n addr) :
    readAll read' n pointer = readAll read n pointer := by
  cases pointer with
  | none => rfl
  | some addr => exact h addr (by simp)

theorem readBindings_zero {addr : ℕ} (h : (readBindings heap 0 addr).isSome) :
    readBindings heap 0 addr = some [] := by
  cases hblock : heap.blocks addr with
  | none => simp [readBindings, hblock] at h
  | some block => cases block <;> simp [readBindings, hblock] at h ⊢

theorem readParameters_zero {addr : ℕ} (h : (readParameters heap 0 addr).isSome) :
    readParameters heap 0 addr = some [] := by
  cases hblock : heap.blocks addr with
  | none => simp [readParameters, hblock] at h
  | some block => cases block <;> simp [readParameters, hblock] at h ⊢

theorem length_of_readBindings {n addr : ℕ} {infos : List BindInfo}
    (h : readBindings heap n addr = some infos) : infos.length = n := by
  rw [readBindings] at h
  split at h
  · split at h
    · next hle =>
      rw [← Option.some.inj h, List.length_take, Nat.min_eq_left hle]
    · cases h
  · cases h

theorem length_of_readParameters {n addr : ℕ} {impls : List ParameterImplClass}
    (h : readParameters heap n addr = some impls) : impls.length = n := by
  rw [readParameters] at h
  split at h
  · split at h
    · next hle =>
      rw [← Option.some.inj h, List.length_take, Nat.min_eq_left hle]
    · cases h
  · cases h

/-- A new block of records is read in full. -/
theorem readBindings_alloc (infos : List BindInfo) :
    readBindings (heap.alloc (.bindings infos)) infos.length heap.next = some infos := by
  rw [readBindings, Heap.blocks_alloc_next]
  exact (if_pos le_rfl).trans (by rw [List.take_length])

theorem readParameters_alloc (impls : List ParameterImplClass) :
    readParameters (heap.alloc (.parameters impls)) impls.length heap.next = some impls := by
  rw [readParameters, Heap.blocks_alloc_next]
  exact (if_pos le_rfl).trans (by rw [List.take_length])

/-- Where there are no records, none are read. -/
theorem readAll_zero {α : Type} {read : ℕ → ℕ → Option (List α)} {pointer : Option ℕ}
    (hread : ∀ addr, (read 0 addr).isSome → read 0 addr = some [])
    (h : (readAll read 0 pointer).isSome) : readAll read 0 pointer = some [] := by
  cases pointer with
  | none => rfl
  | some addr => exact hread addr h

/-! ## The blocks that are owned -/

/-- The records of a descriptor whose blocks are the same. -/
theorem readAll_parameters_congr {fields : ImplFields (Option ℕ)}
    (h : ∀ addr ∈ fields.parameters.toList, heap'.blocks addr = heap.blocks addr) :
    readAll (readParameters heap') fields.allocated fields.parameters =
      readAll (readParameters heap) fields.allocated fields.parameters :=
  readAll_congr fun addr haddr ↦ readParameters_congr (h addr haddr)

theorem names_congr {fields : ImplFields (Option ℕ)}
    (h : ∀ addr ∈ fields.parameters.toList, heap'.blocks addr = heap.blocks addr) :
    names heap' fields = names heap fields := by
  rw [names, names, readAll_parameters_congr h]

/-- The name of a record is one of the names. -/
theorem mem_names {fields : ImplFields (Option ℕ)} {impls : List ParameterImplClass} {addr : ℕ}
    (h : readAll (readParameters heap) fields.allocated fields.parameters = some impls) :
    addr ∈ names heap fields ↔ ∃ impl ∈ impls, impl.paramName = some addr := by
  rw [names, h, Option.getD_some, List.mem_filterMap]

theorem owned_congr {fields : DescFields}
    (h : ∀ addr ∈ fields.owned heap, heap'.blocks addr = heap.blocks addr) :
    fields.owned heap' = fields.owned heap := by
  cases fields with
  | cleared | ird | bind fields => rfl
  | impl fields =>
    rw [owned, owned, names_congr fun addr haddr ↦ h addr (List.mem_append_right _ haddr)]

/-- What a descriptor shows is in its blocks. -/
theorem contents_congr {fields : DescFields}
    (h : ∀ addr ∈ fields.owned heap, heap'.blocks addr = heap.blocks addr) :
    fields.contents heap' = fields.contents heap := by
  cases fields with
  | cleared | ird => rfl
  | bind fields =>
    have hbookmark : readIf (readBookmark heap') fields.bookmark =
        readIf (readBookmark heap) fields.bookmark :=
      readIf_congr fun addr haddr ↦ readBookmark_congr (h addr (List.mem_append_left _ haddr))
    have hbindings : readAll (readBindings heap') fields.allocated fields.bindings =
        readAll (readBindings heap) fields.allocated fields.bindings :=
      readAll_congr fun addr haddr ↦ readBindings_congr (h addr (List.mem_append_right _ haddr))
    rw [contents, contents, hbookmark, hbindings]
  | impl fields =>
    rw [contents, contents,
      readAll_parameters_congr fun addr haddr ↦ h addr (List.mem_append_right _ haddr)]
    cases himpls : readAll (readParameters heap) fields.allocated fields.parameters with
    | none => rfl
    | some impls =>
      have hparameters : impls.mapM (readParameter heap') = impls.mapM (readParameter heap) := by
        refine mapM_congr fun impl himpl ↦ ?_
        rw [readParameter, readParameter]
        refine congrArg _ (readIf_congr fun addr haddr ↦ readName_congr (h addr ?_))
        refine List.mem_append_left _ ((mem_names himpls).2 ⟨impl, himpl, ?_⟩)
        simpa using haddr
      change (impls.mapM (readParameter heap')).bind _ = (impls.mapM (readParameter heap)).bind _
      rw [hparameters]

/-- A descriptor whose memory is there owns blocks that are there. -/
theorem isSome_of_mem_owned {fields : DescFields} (h : (fields.contents heap).isSome) :
    ∀ addr ∈ fields.owned heap, (heap.blocks addr).isSome := by
  cases fields with
  | cleared | ird => simp [owned]
  | bind fields =>
    intro addr haddr
    cases hbookmark : readIf (readBookmark heap) fields.bookmark with
    | none => simp [contents, hbookmark] at h
    | some bookmark =>
      cases hbindings : readAll (readBindings heap) fields.allocated fields.bindings with
      | none => simp [contents, hbookmark, hbindings] at h
      | some bindings =>
        rcases List.mem_append.1 haddr with haddr | haddr
        · rw [Option.mem_toList] at haddr
          refine isSome_of_readBookmark ?_
          cases hread : readBookmark heap addr with
          | none => simp [haddr, readIf, hread] at hbookmark
          | some info => rfl
        · rw [Option.mem_toList] at haddr
          refine isSome_of_readBindings (n := fields.allocated) ?_
          rw [haddr] at hbindings
          exact Option.isSome_of_eq_some hbindings
  | impl fields =>
    intro addr haddr
    cases himpls : readAll (readParameters heap) fields.allocated fields.parameters with
    | none => simp [contents, himpls] at h
    | some impls =>
      rcases List.mem_append.1 haddr with haddr | haddr
      · obtain ⟨impl, himpl, hname⟩ := (mem_names himpls).1 haddr
        have hparameters : (impls.mapM (readParameter heap)).isSome := by
          cases hparameters : impls.mapM (readParameter heap) with
          | none => simp [contents, himpls, hparameters] at h
          | some parameters => rfl
        have hparameter := isSome_of_mapM hparameters impl himpl
        refine isSome_of_readName ?_
        cases hread : readName heap addr with
        | none => simp [readParameter, hname, readIf, hread] at hparameter
        | some text => rfl
      · rw [Option.mem_toList] at haddr
        refine isSome_of_readParameters (n := fields.allocated) ?_
        rw [haddr] at himpls
        exact Option.isSome_of_eq_some himpls

/-- Without one of its blocks a descriptor has nothing to show. -/
theorem contents_without {fields : DescFields} {addr : ℕ} (haddr : addr ∈ fields.owned heap) :
    fields.contents (heap.without [addr]) = none := by
  have hgone : (heap.without [addr]).blocks addr = none := if_pos (List.mem_singleton_self addr)
  have hkept : ∀ other ≠ addr, (heap.without [addr]).blocks other = heap.blocks other :=
    fun other hother ↦ Heap.blocks_without_of_notMem (by rwa [List.mem_singleton])
  have howned : addr ∈ fields.owned (heap.without [addr]) := by
    cases fields with
    | cleared | ird | bind fields => exact haddr
    | impl fields =>
      by_cases hpointer : addr ∈ fields.parameters.toList
      · exact List.mem_append_right _ hpointer
      · have hother : ∀ other ∈ fields.parameters.toList, other ≠ addr := by
          rintro other hother rfl
          exact hpointer hother
        rw [owned, names_congr fun other hmem ↦ hkept other (hother other hmem)]
        exact haddr
  by_contra hsome
  have hblock := isSome_of_mem_owned (Option.isSome_iff_ne_none.2 hsome) addr howned
  rw [hgone] at hblock
  exact absurd hblock (by simp)

/-! ## A descriptor that is torn down -/

/-- The fields when their memory is freed. -/
def torn : DescFields → DescFields
  | cleared => cleared
  | ird => ird
  | bind fields => bind { fields with bookmark := none, bindings := none, allocated := 0 }
  | impl fields => impl { fields with parameters := none, allocated := 0 }

/-- No bookmark and no records. -/
def Bare : DescFields → Prop
  | cleared | ird => True
  | bind fields => fields.bookmark = none ∧ fields.allocated = 0
  | impl fields => fields.allocated = 0

instance (fields : DescFields) : Decidable fields.Bare :=
  match fields with
  | cleared | ird => inferInstanceAs (Decidable True)
  | bind _ => inferInstanceAs (Decidable (_ ∧ _))
  | impl _ => inferInstanceAs (Decidable (_ = _))

/-- The names that are in memory of their own. -/
def nameBlocks (heap : Heap DescBlock) : DescFields → List ℕ
  | impl fields => names heap fields
  | _ => []

theorem contents_torn_bind (heap : Heap DescBlock) (fields : BindFields (Option ℕ) (Option ℕ)) :
    (torn (bind fields)).contents heap =
      some (.bind { fields with bookmark := none, bindings := [], allocated := 0 }) := rfl

theorem contents_torn_impl (heap : Heap DescBlock) (fields : ImplFields (Option ℕ)) :
    (torn (impl fields)).contents heap =
      some (.impl { fields with parameters := [], allocated := 0 }) := by
  simp [torn, contents, readAll]

/-- What a descriptor shows is the same if and only if there was nothing to free. -/
theorem contents_torn_iff (heap' : Heap DescBlock) {fields : DescFields}
    (h : (fields.contents heap).isSome) :
    fields.torn.contents heap' = fields.contents heap ↔ fields.Bare := by
  cases fields with
  | cleared | ird => exact iff_of_true rfl trivial
  | bind fields =>
    rw [contents_torn_bind, contents]
    constructor
    · intro heq
      cases hbookmark : readIf (readBookmark heap) fields.bookmark with
      | none => simp [hbookmark] at heq
      | some bookmark =>
        cases hbindings : readAll (readBindings heap) fields.allocated fields.bindings with
        | none => simp [hbookmark, hbindings] at heq
        | some bindings =>
          simp only [hbookmark, hbindings, Option.bind_eq_bind, Option.bind_some, Option.some.injEq,
            DescContents.bind.injEq, BindFields.mk.injEq] at heq
          obtain ⟨-, -, -, -, hnone, -, hallocated, -⟩ := heq
          refine ⟨?_, hallocated.symm⟩
          cases haddr : fields.bookmark with
          | none => rfl
          | some addr =>
            subst hnone
            simp [haddr, readIf] at hbookmark
    · rintro ⟨hbookmark, hallocated⟩
      have hbindings : readAll (readBindings heap) fields.allocated fields.bindings = some [] := by
        rw [contents, hbookmark, hallocated] at h
        rw [hallocated]
        refine readAll_zero (fun addr ↦ readBindings_zero) ?_
        cases hread : readAll (readBindings heap) 0 fields.bindings with
        | none => simp [readIf, hread] at h
        | some bindings => rfl
      rw [hbindings, hbookmark, hallocated]
      rfl
  | impl fields =>
    rw [contents_torn_impl, contents]
    constructor
    · intro heq
      cases himpls : readAll (readParameters heap) fields.allocated fields.parameters with
      | none => simp [himpls] at heq
      | some impls =>
        cases hparameters : impls.mapM (readParameter heap) with
        | none => simp [himpls, hparameters] at heq
        | some parameters =>
          simp only [himpls, hparameters, Option.bind_eq_bind, Option.bind_some, Option.some.injEq,
            DescContents.impl.injEq, ImplFields.mk.injEq] at heq
          exact heq.2.2.1.symm
    · intro hallocated
      have hzero : fields.allocated = 0 := hallocated
      have himpls : readAll (readParameters heap) fields.allocated fields.parameters = some [] := by
        rw [contents, hzero] at h
        rw [hzero]
        refine readAll_zero (fun addr ↦ readParameters_zero) ?_
        cases hread : readAll (readParameters heap) 0 fields.parameters with
        | none => simp [hread] at h
        | some impls => rfl
      rw [himpls, hzero]
      simp

/-- The names are owned. -/
theorem nameBlocks_subset {fields : DescFields} {addr : ℕ} (h : addr ∈ fields.nameBlocks heap) :
    addr ∈ fields.owned heap := by
  cases fields with
  | cleared | ird | bind fields => exact absurd h List.not_mem_nil
  | impl fields => exact List.mem_append_left _ h

theorem nameBlocks_congr {fields : DescFields}
    (h : ∀ addr ∈ fields.owned heap, heap'.blocks addr = heap.blocks addr) :
    fields.nameBlocks heap' = fields.nameBlocks heap := by
  cases fields with
  | cleared | ird | bind fields => rfl
  | impl fields => exact names_congr fun addr haddr ↦ h addr (List.mem_append_right _ haddr)

theorem isSome_contents_torn {fields : DescFields} (heap : Heap DescBlock) :
    (fields.torn.contents heap).isSome := by
  cases fields with
  | cleared | ird => rfl
  | bind fields => rfl
  | impl fields => rw [contents_torn_impl]; rfl

end DescFields

/-- Memory that is freed leaves the type. -/
theorem DescriptorClass.tagged_torn {desc : DescriptorClass} (h : desc.Tagged) :
    ({ desc with fields := desc.fields.torn } : DescriptorClass).Tagged := by
  obtain ⟨_, typed, type, fields⟩ := desc
  cases typed <;> cases fields <;> rcases type with _ | kind <;> (try cases kind) <;> exact h

/-! ## The frees -/

variable {heap heap' : Heap DescBlock}

theorem ardFieldsFree_eq {fields : BindFields (Option ℕ) (Option ℕ)}
    (hsome : ∀ addr ∈ (DescFields.bind fields).owned heap, (heap.blocks addr).isSome)
    (hnodup : ((DescFields.bind fields).owned heap).Nodup) :
    ardFieldsFree heap fields =
      some (heap.without ((DescFields.bind fields).owned heap),
        { fields with bookmark := none, bindings := none, allocated := 0 }) := by
  have hfree := Heap.freeAll_eq hnodup hsome
  rw [DescFields.owned, Heap.freeAll_append] at hfree
  obtain ⟨heap', hbookmark, hbindings⟩ := Option.bind_eq_some_iff.1 hfree
  rw [ardFieldsFree, hbookmark, Option.bind_eq_bind, Option.bind_some, hbindings]
  rfl

/-- Where the pointer is null, there are no parameters. -/
theorem apdFieldsFree_eq {fields : BindFields (Option ℕ) (Option ℕ)}
    (h : fields.bindings = none → fields.allocated = 0) :
    apdFieldsFree heap fields = ardFieldsFree heap fields := by
  rw [apdFieldsFree, ardFieldsFree]
  cases hfree : Heap.freeAll fields.bookmark.toList heap with
  | none => rfl
  | some heap' =>
    cases hbindings : fields.bindings with
    | none => simp [Heap.freeAll, h hbindings]
    | some parameters => simp [Heap.freeAll_singleton]

theorem ipdFieldsFree_eq {fields : ImplFields (Option ℕ)}
    (hcontents : ((DescFields.impl fields).contents heap).isSome)
    (hnodup : ((DescFields.impl fields).owned heap).Nodup) :
    ipdFieldsFree heap fields =
      some (heap.without ((DescFields.impl fields).owned heap),
        { fields with parameters := none, allocated := 0 }) := by
  have hfree := Heap.freeAll_eq hnodup (DescFields.isSome_of_mem_owned hcontents)
  cases himpls : DescFields.readAll (DescFields.readParameters heap) fields.allocated
      fields.parameters with
  | none => simp [DescFields.contents, himpls] at hcontents
  | some impls =>
    have hnames : DescFields.names heap fields =
        impls.filterMap ParameterImplClass.paramName := by
      rw [DescFields.names, himpls, Option.getD_some]
    cases hparameters : fields.parameters with
    | none =>
      rw [hparameters, DescFields.readAll] at himpls
      by_cases hallocated : fields.allocated = 0
      · rw [if_pos hallocated] at himpls
        cases himpls
        have howned : (DescFields.impl fields).owned heap = [] := by
          rw [DescFields.owned, hnames, hparameters]
          rfl
        have hfields : { fields with parameters := none, allocated := 0 } = fields := by
          rw [← hparameters, ← hallocated]
        simp only [ipdFieldsFree, hparameters, howned, Heap.without_nil, hfields]
      · rw [if_neg hallocated] at himpls
        cases himpls
    | some parameters =>
      rw [hparameters, DescFields.readAll] at himpls
      rw [DescFields.owned, hnames, hparameters, Option.toList_some, Heap.freeAll_append] at hfree
      obtain ⟨heap', hfirst, hlast⟩ := Option.bind_eq_some_iff.1 hfree
      rw [Heap.freeAll_singleton] at hlast
      rw [ipdFieldsFree, hparameters, DescFields.owned, hnames, hparameters, Option.toList_some]
      simp only [himpls, hfirst, hlast, Option.bind_eq_bind, Option.bind_some]

/-! ## The copies -/

/-- What a copy of fields has of the memory before. -/
structure CopyOf (heap : Heap DescBlock) (fields : DescFields) (heap' : Heap DescBlock)
    (fields' : DescFields) : Prop where
  contents_eq : fields'.contents heap' = fields.contents heap
  blocks_eq : ∀ addr, (heap.blocks addr).isSome → heap'.blocks addr = heap.blocks addr
  mem_owned : ∀ addr ∈ fields'.owned heap', heap.next ≤ addr ∨ addr ∈ fields.nameBlocks heap
  of_mem_names : ∀ addr ∈ fields.nameBlocks heap, addr ∈ fields'.owned heap'


/-- The bookmark of a copy is in memory of its own. -/
theorem copyBookmark_eq {pointer : Option ℕ}
    (h : (DescFields.readIf (DescFields.readBookmark heap) pointer).isSome) :
    ∃ heap' pointer', copyBookmark heap pointer = some (heap', pointer') ∧
      heap.next ≤ heap'.next ∧
      (∀ addr, (heap.blocks addr).isSome → heap'.blocks addr = heap.blocks addr) ∧
      DescFields.readIf (DescFields.readBookmark heap') pointer' =
        DescFields.readIf (DescFields.readBookmark heap) pointer ∧
      ∀ addr ∈ pointer'.toList, heap.next ≤ addr ∧ (heap'.blocks addr).isSome := by
  cases pointer with
  | none => exact ⟨heap, none, rfl, le_rfl, fun _ _ ↦ rfl, rfl, by simp⟩
  | some addr =>
    cases hread : DescFields.readBookmark heap addr with
    | none => simp [DescFields.readIf, hread] at h
    | some info =>
      refine ⟨heap.alloc (.bookmark info), some heap.next, ?_, ?_, ?_, ?_, ?_⟩
      · rw [copyBookmark, hread, Option.map_some]
      · rw [Heap.next_alloc]
        omega
      · exact fun other hother ↦ Heap.blocks_alloc_of_isSome _ hother
      · rw [DescFields.readIf, DescFields.readIf, hread, DescFields.readBookmark,
          Heap.blocks_alloc_next]
      · intro other hother
        rw [Option.toList_some, List.mem_singleton] at hother
        subst hother
        exact ⟨le_rfl, by rw [Heap.blocks_alloc_next]; rfl⟩

theorem copyOf_bind {fields : BindFields (Option ℕ) (Option ℕ)}
    (hcontents : ((DescFields.bind fields).contents heap).isSome) :
    ∃ heap' fields', ardFieldsCopy heap fields = some (heap', fields') ∧
      CopyOf heap (.bind fields) heap' (.bind fields') := by
  cases hbookmark : DescFields.readIf (DescFields.readBookmark heap) fields.bookmark with
  | none => simp [DescFields.contents, hbookmark] at hcontents
  | some bookmark =>
    cases hbindings : DescFields.readAll (DescFields.readBindings heap) fields.allocated
        fields.bindings with
    | none => simp [DescFields.contents, hbookmark, hbindings] at hcontents
    | some bindings =>
      obtain ⟨heap', pointer', hcopy, hnext, hkept, hread, hnew⟩ :=
        copyBookmark_eq (Option.isSome_of_eq_some hbookmark)
      have hcontents' : (DescFields.bind fields).contents heap =
          some (.bind { fields with bookmark, bindings }) := by
        simp [DescFields.contents, hbookmark, hbindings]
      by_cases hallocated : fields.allocated = 0
      · have hempty : bindings = [] := by
          have hzero : DescFields.readAll (DescFields.readBindings heap) 0 fields.bindings =
              some [] := DescFields.readAll_zero (fun addr ↦ DescFields.readBindings_zero)
            (Option.isSome_of_eq_some (hallocated ▸ hbindings))
          rw [hallocated, hzero] at hbindings
          exact (Option.some.inj hbindings).symm
        refine ⟨heap', { fields with bookmark := pointer', bindings := none }, ?_, ?_, hkept, ?_,
          by simp [DescFields.nameBlocks]⟩
        · simp [ardFieldsCopy, hcopy, hallocated]
        · rw [hcontents', hempty]
          simp [DescFields.contents, hread, hbookmark, DescFields.readAll, hallocated]
        · intro addr haddr
          refine .inl (hnew addr ?_).1
          simpa [DescFields.owned] using haddr
      · have hpointer : fields.bindings.bind (DescFields.readBindings heap fields.allocated) =
            some bindings := by
          cases haddr : fields.bindings with
          | none => simp [DescFields.readAll, haddr, hallocated] at hbindings
          | some addr =>
            rw [haddr] at hbindings
            exact hbindings
        obtain ⟨addr, haddr, hinfos⟩ := Option.bind_eq_some_iff.1 hpointer
        have hlength := DescFields.length_of_readBindings hinfos
        have hblock : (heap.blocks addr).isSome :=
          DescFields.isSome_of_readBindings (Option.isSome_of_eq_some hinfos)
        have hinfos' : fields.bindings.bind (DescFields.readBindings heap' fields.allocated) =
            some bindings := by
          rw [haddr, Option.bind_some, DescFields.readBindings_congr (hkept addr hblock), hinfos]
        have hbookmark' : DescFields.readIf
            (DescFields.readBookmark (heap'.alloc (.bindings bindings))) pointer' =
              some bookmark := by
          rw [← hbookmark, ← hread]
          exact DescFields.readIf_congr fun other hother ↦
            DescFields.readBookmark_congr (Heap.blocks_alloc_of_isSome _ (hnew other hother).2)
        refine ⟨heap'.alloc (.bindings bindings),
          { fields with bookmark := pointer', bindings := some heap'.next }, ?_, ?_, ?_, ?_,
          by simp [DescFields.nameBlocks]⟩
        · simp [ardFieldsCopy, hcopy, hallocated, hinfos']
        · have halloc : DescFields.readBindings (heap'.alloc (.bindings bindings)) bindings.length
              heap'.next = some bindings := DescFields.readBindings_alloc bindings
          rw [hlength] at halloc
          rw [hcontents']
          simp [DescFields.contents, hbookmark', DescFields.readAll, halloc]
        · intro other hother
          rw [Heap.blocks_alloc_of_isSome _ (by rw [hkept other hother]; exact hother),
            hkept other hother]
        · intro other hother
          rcases List.mem_append.1 hother with hother | hother
          · exact .inl (hnew other hother).1
          · rw [Option.toList_some, List.mem_singleton] at hother
            exact .inl (hother ▸ hnext)

theorem copyOf_impl {fields : ImplFields (Option ℕ)}
    (hcontents : ((DescFields.impl fields).contents heap).isSome) :
    ∃ heap' fields', ipdFieldsCopy heap fields = some (heap', fields') ∧
      CopyOf heap (.impl fields) heap' (.impl fields') := by
  cases himpls : DescFields.readAll (DescFields.readParameters heap) fields.allocated
      fields.parameters with
  | none => simp [DescFields.contents, himpls] at hcontents
  | some impls =>
    have hnames : DescFields.names heap fields =
        impls.filterMap ParameterImplClass.paramName := by
      rw [DescFields.names, himpls, Option.getD_some]
    by_cases hallocated : fields.allocated = 0
    · have hempty : impls = [] := by
        have hzero : DescFields.readAll (DescFields.readParameters heap) 0 fields.parameters =
            some [] := DescFields.readAll_zero (fun addr ↦ DescFields.readParameters_zero)
          (Option.isSome_of_eq_some (hallocated ▸ himpls))
        rw [hallocated, hzero] at himpls
        exact (Option.some.inj himpls).symm
      subst hempty
      have hnone : DescFields.names heap { fields with parameters := none } = [] := by
        simp [DescFields.names, DescFields.readAll, hallocated]
      refine ⟨heap, { fields with parameters := none }, ?_, ?_, fun _ _ ↦ rfl, ?_, ?_⟩
      · rw [ipdFieldsCopy, if_pos hallocated]
      · rw [DescFields.contents, DescFields.contents, himpls]
        simp [DescFields.readAll, hallocated]
      · simp [DescFields.owned, hnone]
      · simp [DescFields.nameBlocks, hnames]
    · have hpointer : fields.parameters.bind (DescFields.readParameters heap fields.allocated) =
          some impls := by
        cases haddr : fields.parameters with
        | none => simp [DescFields.readAll, haddr, hallocated] at himpls
        | some addr =>
          rw [haddr] at himpls
          exact himpls
      obtain ⟨addr, haddr, hread⟩ := Option.bind_eq_some_iff.1 hpointer
      have halloc : DescFields.readAll
          (DescFields.readParameters (heap.alloc (.parameters impls))) fields.allocated
          (some heap.next) = some impls := by
        rw [← DescFields.length_of_readParameters hread]
        exact DescFields.readParameters_alloc impls
      have hnames' : DescFields.names (heap.alloc (.parameters impls))
          { fields with parameters := some heap.next } = DescFields.names heap fields := by
        rw [DescFields.names, halloc, Option.getD_some, hnames]
      have hparameters : impls.mapM (DescFields.readParameter (heap.alloc (.parameters impls))) =
          impls.mapM (DescFields.readParameter heap) := by
        refine DescFields.mapM_congr fun impl himpl ↦ ?_
        rw [DescFields.readParameter, DescFields.readParameter]
        refine congrArg _ (DescFields.readIf_congr fun name hname ↦
          DescFields.readName_congr (Heap.blocks_alloc_of_isSome _ ?_))
        refine DescFields.isSome_of_mem_owned hcontents name (List.mem_append_left _ ?_)
        exact (DescFields.mem_names himpls).2 ⟨impl, himpl, by simpa using hname⟩
      refine ⟨heap.alloc (.parameters impls), { fields with parameters := some heap.next }, ?_, ?_,
        fun other hother ↦ Heap.blocks_alloc_of_isSome _ hother, ?_, ?_⟩
      · simp [ipdFieldsCopy, hallocated, hpointer]
      · simp [DescFields.contents, himpls, halloc, hparameters]
      · intro other hother
        rw [DescFields.owned, hnames'] at hother
        rcases List.mem_append.1 hother with hother | hother
        · exact .inr hother
        · rw [Option.toList_some, List.mem_singleton] at hother
          exact .inl hother.ge
      · intro other hother
        rw [DescFields.owned, hnames']
        exact List.mem_append_left _ hother

end PsqlOdbc
