import PsqlOdbc.Lib.Outcome
import PsqlOdbc.Results.ReloadNeeded

/-!
# The rows that a batch brings (`results.c`)

After the loops over the batches each row of the range is as it was, or holds what the server has for
its key and is no longer marked; a marked row that the server has is of the second kind if it is the
first of its key.
-/

namespace PsqlOdbc

open Lib

/-! ## Entries and their places -/

section

variable {α : Type*} {xs ys : List α} {x : α}

theorem entryAt_eq_ok {i : Int} : entryAt xs i = .ok x ↔ 0 ≤ i ∧ xs[i.toNat]? = some x := by
  rw [entryAt]
  by_cases hi : i < 0
  · rw [if_pos hi]
    constructor
    · intro h
      cases h
    · rintro ⟨h, -⟩
      exact absurd hi (Int.not_lt.2 h)
  · rw [if_neg hi]
    cases hx : xs[i.toNat]? with
    | none =>
      constructor
      · intro h
        cases h
      · rintro ⟨-, h⟩
        cases h
    | some y =>
      constructor
      · intro h
        cases h
        exact ⟨Int.not_lt.1 hi, rfl⟩
      · rintro ⟨-, h⟩
        cases h
        rfl

theorem entryAt_natCast {k : Nat} : entryAt xs k = .ok x ↔ xs[k]? = some x := by
  rw [entryAt_eq_ok, Int.toNat_natCast]
  exact and_iff_right (Int.natCast_nonneg k)

theorem entryAt_unique {y : α} {k : Nat} (hx : xs[k]? = some x) (hy : entryAt xs k = .ok y) : y = x :=
  Option.some.inj ((entryAt_natCast.1 hy).symm.trans hx)

theorem storeAt_eq_ok {i : Int} :
    storeAt xs i x = .ok ys ↔ (0 ≤ i ∧ i < xs.length) ∧ ys = xs.set i.toNat x := by
  rw [storeAt]
  split_ifs with hi
  · exact ⟨fun h ↦ ⟨hi, (Except.ok.inj h).symm⟩, fun h ↦ congrArg Except.ok h.2.symm⟩
  · constructor
    · intro h
      cases h
    · rintro ⟨h, -⟩
      exact absurd h hi

end

namespace ReloadRows

/-- The contents of the cache at a place. -/
def cell (s : ReloadRows) (c : Int) : Option (List TupleField) :=
  if c < 0 then none else s.tuples[c.toNat]?

/-- The contents of a row. -/
def tuple (s : ReloadRows) (k : Nat) : Option (List TupleField) := s.cell (s.cacheIdx k)

/-- The first row of the range that has a key. -/
def rowOf (s : ReloadRows) (limitrow : Nat) (key : RowKey) : Option Nat :=
  (s.rowsTo limitrow).find? fun k ↦ (s.keyset[k]?.map KeySet.key) = some key

/-- Row and place in the keyset have the same number: without a cursor the start of the rowset is the
base of the keys. -/
def Aligned (s : ReloadRows) : Prop := s.validBase → s.keyBase = s.rowsetStart

/-- Rows have the same places in two states. -/
structure SamePlaces (s₁ s : ReloadRows) : Prop where
  rowsetStart : s.rowsetStart = s₁.rowsetStart
  validBase : s.validBase = s₁.validBase
  base : s.base = s₁.base
  keyBase : s.keyBase = s₁.keyBase
  keyset : s.keyset.length = s₁.keyset.length
  tuples : s.tuples.length = s₁.tuples.length

variable {s s' s₁ : ReloadRows} {limitrow k j : Nat} {c : Int} {key : RowKey}

theorem SamePlaces.refl (s : ReloadRows) : SamePlaces s s := ⟨rfl, rfl, rfl, rfl, rfl, rfl⟩

theorem SamePlaces.trans (h : SamePlaces s₁ s) (h' : SamePlaces s s') : SamePlaces s₁ s' :=
  ⟨h'.rowsetStart.trans h.rowsetStart, h'.validBase.trans h.validBase, h'.base.trans h.base,
    h'.keyBase.trans h.keyBase, h'.keyset.trans h.keyset, h'.tuples.trans h.tuples⟩

theorem SamePlaces.cacheIdx (h : SamePlaces s₁ s) (k : Nat) : s.cacheIdx k = s₁.cacheIdx k := by
  rw [ReloadRows.cacheIdx, ReloadRows.cacheIdx, h.rowsetStart, h.validBase, h.base]

theorem SamePlaces.rowsTo (h : SamePlaces s₁ s) (limitrow : Nat) :
    s.rowsTo limitrow = s₁.rowsTo limitrow := by
  rw [ReloadRows.rowsTo, ReloadRows.rowsTo, h.rowsetStart]

theorem SamePlaces.aligned (h : SamePlaces s₁ s) (ha : s₁.Aligned) : s.Aligned := by
  intro hv
  rw [h.keyBase, h.rowsetStart]
  exact ha (h.validBase ▸ hv)

theorem Aligned.kresIdx (ha : s.Aligned) (k : Nat) : s.kresIdx k = k := by
  rw [ReloadRows.kresIdx]
  by_cases hv : s.validBase
  · rw [if_pos hv, ha hv, Int.sub_self, Int.sub_zero]
  · rw [if_neg hv, Int.sub_zero]

theorem cacheIdx_ne (h : j ≠ k) : s.cacheIdx j ≠ s.cacheIdx k := by
  unfold cacheIdx
  omega

theorem mem_rowsTo : k ∈ s.rowsTo limitrow ↔ s.rowsetStart ≤ k ∧ k < limitrow := by
  rw [rowsTo, List.mem_range'_1]
  omega

theorem rowOf_eq_some (h : s.rowOf limitrow key = some k) :
    k ∈ s.rowsTo limitrow ∧ s.keyset[k]?.map KeySet.key = some key := by
  unfold rowOf at h
  have hkey := List.find?_some h
  exact ⟨List.mem_of_find?_eq_some h, of_decide_eq_true hkey⟩

theorem rowOf_congr (h : SamePlaces s₁ s)
    (hkey : ∀ k : Nat, s.keyset[k]?.map KeySet.key = s₁.keyset[k]?.map KeySet.key) :
    s.rowOf limitrow key = s₁.rowOf limitrow key := by
  rw [rowOf, rowOf, h.rowsTo]
  simp only [hkey]

theorem cell_set_self {fields : List TupleField} (hc : 0 ≤ c ∧ c < s.tuples.length) :
    cell { s with tuples := s.tuples.set c.toNat fields } c = some fields := by
  rw [cell, if_neg (Int.not_lt.2 hc.1)]
  exact List.getElem?_set_self (by omega)

theorem cell_set_ne {fields : List TupleField} {c' : Int} (hc : 0 ≤ c) (h : c' ≠ c) :
    cell { s with tuples := s.tuples.set c.toNat fields } c' = s.cell c' := by
  rw [cell, cell]
  by_cases hneg : c' < 0
  · rw [if_pos hneg, if_pos hneg]
  · rw [if_neg hneg, if_neg hneg]
    exact List.getElem?_set_ne (by omega)

end ReloadRows

open ReloadRows

/-! ## What a batch brings -/

/-- What the server holds: the fields of the row of a key. -/
abbrev HeldRows := RowKey → Option (List TupleField)

/-- The rows of a query are the ones that the server holds: all of those with the `ctid`s, and of the
table, that are asked for. -/
structure ReloadServer.Answers (server : ReloadServer) (held : HeldRows) : Prop where
  sound : ∀ query table tids rows, server.load query table tids = some rows →
    ∀ r ∈ rows, held r.key = some r.fields
  complete : ∀ query table tids rows, server.load query table tids = some rows →
    ∀ key fields, held key = some fields → key.2 ∈ tids → (∀ oid ∈ table, key.1 = oid) →
      ⟨key, fields⟩ ∈ rows

variable {server : ReloadServer} {held : HeldRows} {limitrow : Nat} {s₁ s s' : ReloadRows} {k : Nat}

/-- A row is as it was. -/
def RowKept (s₁ s : ReloadRows) (k : Nat) : Prop :=
  s.keyset[k]? = s₁.keyset[k]? ∧ s.tuple k = s₁.tuple k

/-- A row, the first of its key, is the one that the server holds. -/
def RowLoaded (held : HeldRows) (limitrow : Nat) (s₁ s : ReloadRows) (k : Nat) : Prop :=
  ∃ e, s₁.keyset[k]? = some e ∧ s₁.rowOf limitrow e.key = some k ∧ (held e.key).isSome ∧
    s.keyset[k]? = some e.reread ∧ s.tuple k = held e.key

/-- What holds of a state on the way from the first one. -/
structure Loads (held : HeldRows) (limitrow : Nat) (s₁ s : ReloadRows) : Prop where
  places : SamePlaces s₁ s
  rows : ∀ k, RowKept s₁ s k ∨ RowLoaded held limitrow s₁ s k
  outside : ∀ c, (∀ k ∈ s₁.rowsTo limitrow, s₁.cacheIdx k ≠ c) → s.cell c = s₁.cell c

theorem Loads.of_eq (hplaces : SamePlaces s₁ s) (hkeys : s.keyset = s₁.keyset)
    (htuples : s.tuples = s₁.tuples) : Loads held limitrow s₁ s := by
  have hcell : ∀ c, s.cell c = s₁.cell c := fun c ↦ by rw [cell, cell, htuples]
  refine ⟨hplaces, fun k ↦ Or.inl ⟨by rw [hkeys], ?_⟩, fun c _ ↦ hcell c⟩
  rw [tuple, tuple, hplaces.cacheIdx, hcell]

theorem Loads.key (h : Loads held limitrow s₁ s) (k : Nat) :
    s.keyset[k]?.map KeySet.key = s₁.keyset[k]?.map KeySet.key := by
  rcases h.rows k with hk | ⟨e, he, -, -, hk, -⟩
  · rw [hk.1]
  · rw [hk, he]
    rfl

/-- A row that is still marked is as it was. -/
theorem Loads.entry_of_marked {e : KeySet} (h : Loads held limitrow s₁ s)
    (hk : s.keyset[k]? = some e) (hmark : e.status.needsReread = true) : s₁.keyset[k]? = some e := by
  rcases h.rows k with hkept | ⟨e', -, -, -, hk', -⟩
  · exact hkept.1 ▸ hk
  · rw [hk] at hk'
    cases hk'
    cases hmark

/-- A row that is returned is stored for the first row of its key, and nothing else changes. -/
theorem storeLoaded_loads {r : LoadedRow} (h : Loads held limitrow s₁ s)
    (hr : held r.key = some r.fields) (hstore : storeLoaded limitrow s r = .ok s') :
    Loads held limitrow s₁ s' ∧
      (∀ k, s₁.rowOf limitrow r.key = some k → RowLoaded held limitrow s₁ s' k) ∧
      ∀ k, RowLoaded held limitrow s₁ s k → RowLoaded held limitrow s₁ s' k := by
  have hrow : (s.rowsTo limitrow).find? (fun k ↦ (s.keyset[k]?.map KeySet.key) = some r.key) =
      s₁.rowOf limitrow r.key := rowOf_congr h.places h.key
  unfold storeLoaded at hstore
  rw [hrow] at hstore
  cases hfirst : s₁.rowOf limitrow r.key with
  | none =>
    rw [hfirst] at hstore
    cases hstore
    refine ⟨h, ?_, fun k hk ↦ hk⟩
    rintro k ⟨⟩
  | some i =>
    rw [hfirst] at hstore
    obtain ⟨tuples, htuples, hs'⟩ := map_eq_ok.1 hstore
    obtain ⟨hc, rfl⟩ := storeAt_eq_ok.1 htuples
    obtain ⟨hi, hkey⟩ := rowOf_eq_some hfirst
    obtain ⟨e, he, hekey⟩ := Option.map_eq_some_iff.1 hkey
    have hplaces : SamePlaces s s' := by
      subst hs'
      exact ⟨rfl, rfl, rfl, rfl, List.length_modify _ _ _, List.length_set⟩
    have hcell : ∀ c, c ≠ s.cacheIdx i → s'.cell c = s.cell c := by
      subst hs'
      exact fun c ↦ cell_set_ne hc.1
    have hother : ∀ j, j ≠ i → RowKept s s' j := by
      intro j hj
      constructor
      · subst hs'
        exact List.getElem?_modify_ne _ _ (Ne.symm hj)
      · rw [tuple, hplaces.cacheIdx, hcell _ (cacheIdx_ne hj), tuple]
    have hloaded : RowLoaded held limitrow s₁ s' i := by
      refine ⟨e, he, hekey ▸ hfirst, ?_, ?_, ?_⟩
      · rw [hekey, hr]
        rfl
      · have hset : s'.keyset[i]? = s.keyset[i]?.map KeySet.reread := by
          subst hs'
          exact List.getElem?_modify_eq _ _ _
        rcases h.rows i with hk | ⟨e', he', -, -, hk, -⟩
        · rw [hset, hk.1, he]
          rfl
        · rw [he] at he'
          cases he'
          rw [hset, hk]
          rfl
      · rw [tuple, hplaces.cacheIdx, hekey, hr]
        subst hs'
        exact cell_set_self hc
    have hkeep : ∀ j, RowLoaded held limitrow s₁ s j → RowLoaded held limitrow s₁ s' j := by
      rintro j ⟨e', he', hfirst', hheld, hk, ht⟩
      by_cases hj : j = i
      · exact hj ▸ hloaded
      · exact ⟨e', he', hfirst', hheld, (hother j hj).1.trans hk, (hother j hj).2.trans ht⟩
    refine ⟨⟨h.places.trans hplaces, fun j ↦ ?_, fun c hout ↦ ?_⟩, ?_, hkeep⟩
    · by_cases hj : j = i
      · exact Or.inr (hj ▸ hloaded)
      · rcases h.rows j with hk | hk
        · exact Or.inl ⟨(hother j hj).1.trans hk.1, (hother j hj).2.trans hk.2⟩
        · exact Or.inr (hkeep j hk)
    · rw [hcell c, h.outside c hout]
      rw [h.places.cacheIdx]
      exact (hout i (h.places.rowsTo limitrow ▸ h.places.rowsTo limitrow ▸ hi)).symm
    · rintro j ⟨⟩
      exact hloaded

/-! ## Batches -/

/-- A marked row that the server has, the first of its key, is loaded or in the batch. -/
def RowAwaits (held : HeldRows) (limitrow : Nat) (s₁ s : ReloadRows) (table : Option Nat)
    (tids : List (Nat × Nat)) (k : Nat) : Prop :=
  ∀ e, s₁.keyset[k]? = some e → e.status.needsReread = true → s₁.rowOf limitrow e.key = some k →
    (held e.key).isSome →
      RowLoaded held limitrow s₁ s k ∨ e.tid ∈ tids ∧ ∀ oid ∈ table, e.oid = oid

variable {query : Nat} {table : Option Nat} {tids : List (Nat × Nat)}

/-- With nothing in the batch it does not matter of which table it is. -/
theorem RowAwaits.of_nil (h : RowAwaits held limitrow s₁ s table [] k) (table' : Option Nat)
    (tids' : List (Nat × Nat)) : RowAwaits held limitrow s₁ s table' tids' k := by
  intro e he hmark hfirst hheld
  rcases h e he hmark hfirst hheld with hk | ⟨hmem, -⟩
  · exact Or.inl hk
  · exact absurd hmem List.not_mem_nil

theorem RowAwaits.append (h : RowAwaits held limitrow s₁ s table tids k) (tids' : List (Nat × Nat)) :
    RowAwaits held limitrow s₁ s table (tids ++ tids') k := by
  intro e he hmark hfirst hheld
  rcases h e he hmark hfirst hheld with hk | ⟨hmem, htable⟩
  · exact Or.inl hk
  · exact Or.inr ⟨List.mem_append_left _ hmem, htable⟩

/-- A row that has been looked at is in the batch or is loaded. -/
theorem RowAwaits.of_entry {e : KeySet} (h : Loads held limitrow s₁ s) (hk : s.keyset[k]? = some e)
    (hmem : e.status.needsReread = true → e.tid ∈ tids ∧ ∀ oid ∈ table, e.oid = oid) :
    RowAwaits held limitrow s₁ s table tids k := by
  intro e' he' hmark hfirst hheld
  rcases h.rows k with hkept | hloaded
  · rw [hkept.1, he'] at hk
    cases hk
    exact Or.inr (hmem hmark)
  · exact Or.inl hloaded

theorem sendBatch_loads (hserver : server.Answers held) (h : Loads held limitrow s₁ s)
    (hsend : sendBatch server limitrow query table tids s = .ok s') :
    Loads held limitrow s₁ s' ∧
      ∀ k, RowAwaits held limitrow s₁ s table tids k → RowAwaits held limitrow s₁ s' table [] k := by
  unfold sendBatch at hsend
  cases hload : server.load query table tids with
  | none =>
    rw [hload] at hsend
    cases hsend
  | some rows =>
    rw [hload] at hsend
    have hsound := hserver.sound query table tids rows hload
    -- What has been loaded before stays, and each row that is stored is loaded.
    let inv (b : ReloadRows) : Prop := Loads held limitrow s₁ b ∧
      ∀ k, RowLoaded held limitrow s₁ s k → RowLoaded held limitrow s₁ b k
    let done (r : LoadedRow) (b : ReloadRows) : Prop :=
      ∀ k, s₁.rowOf limitrow r.key = some k → RowLoaded held limitrow s₁ b k
    obtain ⟨hloads, hdone, -⟩ := @foldlM_ok _ _ _ _ inv done rows
      (fun r hr b b' hb hstore ↦ by
        obtain ⟨hloads, hdone, hkeep⟩ := storeLoaded_loads hb.1 (hsound r hr) hstore
        exact ⟨⟨hloads, fun k hk ↦ hkeep k (hb.2 k hk)⟩, hdone,
          fun r' hr' k hk ↦ hkeep k (hr' k hk)⟩)
      _ _ ⟨h, fun k hk ↦ hk⟩ hsend
    refine ⟨hloads.1, fun k hk e he hmark hfirst hheld ↦ Or.inl ?_⟩
    rcases hk e he hmark hfirst hheld with hk | ⟨hmem, htable⟩
    · exact hloads.2 k hk
    · obtain ⟨fields, hfields⟩ := Option.isSome_iff_exists.1 hheld
      exact hdone _ (hserver.complete query table tids rows hload e.key fields hfields hmem htable) k
        hfirst

theorem sendFull_loads {full : Bool} {query' : Nat} {tids' : List (Nat × Nat)}
    (hserver : server.Answers held) (h : Loads held limitrow s₁ s)
    (hsend : sendFull server limitrow full query table tids s = .ok (query', tids', s')) :
    Loads held limitrow s₁ s' ∧ (tids' = [] ∨ full = false ∧ tids' = tids) ∧
      ∀ k, RowAwaits held limitrow s₁ s table tids k → RowAwaits held limitrow s₁ s' table tids' k := by
  cases full with
  | true =>
    obtain ⟨s'', hs'', heq⟩ := map_eq_ok.1 hsend
    cases heq
    obtain ⟨hloads, hawaits⟩ := sendBatch_loads hserver h hs''
    exact ⟨hloads, Or.inl rfl, hawaits⟩
  | false =>
    cases hsend
    exact ⟨h, Or.inr ⟨rfl, rfl⟩, fun k hk ↦ hk⟩

section

variable {is : List Nat} {keysPerFetch : Nat}

theorem loadLoop_loads (hserver : server.Answers held) (ha : s₁.Aligned)
    (h : Loads held limitrow s₁ s)
    (hloop : loadLoop server limitrow keysPerFetch is query tids s = .ok s') :
    Loads held limitrow s₁ s' ∧
      ∀ k, k ∈ is ∨ RowAwaits held limitrow s₁ s none tids k →
        RowAwaits held limitrow s₁ s' none [] k := by
  induction is generalizing query tids s with
  | nil =>
    rw [loadLoop] at hloop
    split_ifs at hloop with htids
    · cases hloop
      exact ⟨h, fun k hk ↦ htids ▸ hk.resolve_left List.not_mem_nil⟩
    · obtain ⟨hloads, hawaits⟩ := sendBatch_loads hserver h hloop
      exact ⟨hloads, fun k hk ↦ hawaits k (hk.resolve_left List.not_mem_nil)⟩
  | cons i is ih =>
    rw [loadLoop] at hloop
    obtain ⟨⟨query', tids', s''⟩, hsend, hrest⟩ := bind_eq_ok.1 hloop
    obtain ⟨hloads, -, hawaits⟩ := sendFull_loads hserver h hsend
    obtain ⟨e, hentry, hrest⟩ := bind_eq_ok.1 hrest
    rw [(hloads.places.aligned ha).kresIdx] at hentry
    have he := entryAt_natCast.1 hentry
    obtain ⟨hloads', hawaits'⟩ := ih hloads hrest
    refine ⟨hloads', fun k hk ↦ hawaits' k ?_⟩
    rcases hk with hmem | hk
    · rcases List.mem_cons.1 hmem with rfl | hmem
      · refine Or.inr (RowAwaits.of_entry hloads he fun hmark ↦ ?_)
        rw [if_pos hmark]
        exact ⟨List.mem_append_right _ List.mem_cons_self, fun oid hoid ↦ by cases hoid⟩
      · exact Or.inl hmem
    · refine Or.inr ?_
      split_ifs
      · exact (hawaits k hk).append _
      · exact hawaits k hk

theorem loadFromKeyset_loads (hserver : server.Answers held) (ha : s₁.Aligned) {rowsPerFetch : Nat}
    (hload : loadFromKeyset server rowsPerFetch limitrow s₁ = .ok s') :
    Loads held limitrow s₁ s' ∧
      ∀ k ∈ s₁.rowsTo limitrow, RowAwaits held limitrow s₁ s' none [] k := by
  have hfirst : Loads held limitrow s₁ s₁ := .of_eq (.refl s₁) rfl rfl
  rw [loadFromKeyset] at hload
  split_ifs at hload with hnone hcount
  · cases hload
    refine ⟨hfirst, fun k hk ↦ ?_⟩
    have hk' := mem_rowsTo.1 hk
    omega
  · obtain ⟨hloads, hawaits⟩ := loadLoop_loads hserver ha hfirst hload
    exact ⟨hloads, fun k hk ↦ hawaits k (Or.inl hk)⟩
  · have hprepared : Loads held limitrow s₁
        { s₁ with reloadCount := PsqlOdbc.keysPerFetch rowsPerFetch } :=
      .of_eq ⟨rfl, rfl, rfl, rfl, rfl, rfl⟩ rfl rfl
    obtain ⟨hloads, hawaits⟩ := loadLoop_loads hserver ha hprepared hload
    exact ⟨hloads, fun k hk ↦ hawaits k (Or.inl hk)⟩

/-- In a batch of one table all of the rows are of that table. -/
theorem loadLoopInh_loads (hserver : server.Answers held) (ha : s₁.Aligned)
    (hoids : ∀ e ∈ s₁.keyset, e.oid ≠ 0) {oid batch : Nat} (h : Loads held limitrow s₁ s)
    (hbatch : tids ≠ [] → oid = batch ∧ oid ≠ 0)
    (hloop : loadLoopInh server limitrow keysPerFetch is query oid batch tids s = .ok s') :
    Loads held limitrow s₁ s' ∧
      ∀ k, k ∈ is ∨ RowAwaits held limitrow s₁ s (some batch) tids k →
        RowAwaits held limitrow s₁ s' none [] k := by
  induction is generalizing query oid batch tids s with
  | nil =>
    rw [loadLoopInh] at hloop
    split_ifs at hloop with htids
    · cases hloop
      subst htids
      exact ⟨h, fun k hk ↦ (hk.resolve_left List.not_mem_nil).of_nil none []⟩
    · obtain ⟨hloads, hawaits⟩ := sendBatch_loads hserver h hloop
      exact ⟨hloads, fun k hk ↦ (hawaits k (hk.resolve_left List.not_mem_nil)).of_nil none []⟩
  | cons i is ih =>
    rw [loadLoopInh] at hloop
    obtain ⟨e, hentry, hrest⟩ := bind_eq_ok.1 hloop
    rw [(h.places.aligned ha).kresIdx] at hentry
    have he := entryAt_natCast.1 hentry
    dsimp only at hrest
    by_cases hmark : e.status.needsReread = true
    · rw [if_pos hmark] at hrest
      obtain ⟨⟨query', tids', s''⟩, hsend, hrest⟩ := bind_eq_ok.1 hrest
      obtain ⟨hloads, htids', hawaits⟩ := sendFull_loads hserver h hsend
      have he₁ := h.entry_of_marked he hmark
      have hoid : e.oid ≠ 0 := hoids e (List.mem_of_getElem? he₁)
      -- The table of the batch stays the same as long as something is in it.
      have hsame : tids' ≠ [] → batch = e.oid := by
        intro hne
        obtain ⟨hc, rfl⟩ := htids'.resolve_left hne
        obtain ⟨rfl, hne'⟩ := hbatch hne
        by_contra hdiff
        exact of_decide_eq_false hc (Or.inr ⟨hne', fun heq ↦ hdiff heq.symm⟩)
      have htable : (if tids' = [] then e.oid else batch) = e.oid := by
        split_ifs with hnil
        · rfl
        · exact hsame hnil
      rw [htable] at hrest
      obtain ⟨hloads', hawaits'⟩ := ih hloads (fun _ ↦ ⟨rfl, hoid⟩) hrest
      refine ⟨hloads', fun k hk ↦ hawaits' k ?_⟩
      rcases hk with hmem | hk
      · rcases List.mem_cons.1 hmem with rfl | hmem
        · refine Or.inr fun e' he' _ _ _ ↦ Or.inr ?_
          rw [he₁] at he'
          cases he'
          refine ⟨List.mem_append_right _ List.mem_cons_self, ?_⟩
          rintro oid' ⟨⟩
          rfl
        · exact Or.inl hmem
      · refine Or.inr ?_
        by_cases hnil : tids' = []
        · rw [hnil]
          exact RowAwaits.of_nil (hnil ▸ hawaits k hk) _ _
        · exact (hsame hnil ▸ hawaits k hk).append _
    · rw [if_neg hmark] at hrest
      obtain ⟨hloads', hawaits'⟩ := ih h hbatch hrest
      refine ⟨hloads', fun k hk ↦ hawaits' k ?_⟩
      rcases hk with hmem | hk
      · rcases List.mem_cons.1 hmem with rfl | hmem
        · exact Or.inr (RowAwaits.of_entry h he fun hmark' ↦ absurd hmark' hmark)
        · exact Or.inl hmem
      · exact Or.inr hk

theorem loadFromKeysetInh_loads (hserver : server.Answers held) (ha : s₁.Aligned)
    (hoids : ∀ e ∈ s₁.keyset, e.oid ≠ 0) {rowsPerFetch : Nat}
    (hload : loadFromKeysetInh server rowsPerFetch limitrow s₁ = .ok s') :
    Loads held limitrow s₁ s' ∧
      ∀ k ∈ s₁.rowsTo limitrow, RowAwaits held limitrow s₁ s' none [] k := by
  obtain ⟨hloads, hawaits⟩ := loadLoopInh_loads hserver ha hoids (.of_eq (.refl s₁) rfl rfl)
    (fun hne ↦ absurd rfl hne) hload
  exact ⟨hloads, fun k hk ↦ hawaits k (Or.inl hk)⟩

end

end PsqlOdbc
