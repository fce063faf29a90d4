import PsqlOdbc.Results.LoadedRows

/-!
# When nothing is left to be read again (`results.c`)

The last loop looks at the first row of the range only, so that `SC_pos_reload_needed` leaves marks
behind wherever another row has not come with a batch.
-/

namespace PsqlOdbc

open Lib ReloadRows

variable {server : ReloadServer} {held : HeldRows} {options : ReloadOptions} {limitrow k i : Nat}
  {s₁ s s' : ReloadRows} {e : KeySet}

/-! ## A single row -/

/-- What becomes of the information on a row that is not there when it is asked for alone. -/
def KeySet.infoGone (options : ReloadOptions) (k : KeySet) : Nat :=
  if options.keysetDriven ∧ ¬(k.oid = 0 ∧ options.bestIsOid) then k.status.info ||| 1
  else k.status.info

theorem KeySet.isDeleted_settle (k : KeySet) :
    k.settle.status.isDeleted = (k.status.isDeleted || k.status.info = 1) :=
  (Bool.or_assoc _ _ _).symm

/-- Only one row differs between two states. -/
structure OnlyRow (i : Nat) (s s' : ReloadRows) : Prop where
  places : SamePlaces s s'
  keys : ∀ j : Nat, j ≠ i → s'.keyset[j]? = s.keyset[j]?
  cells : ∀ c, c ≠ s.cacheIdx i → s'.cell c = s.cell c

theorem OnlyRow.refl (s : ReloadRows) : OnlyRow i s s :=
  ⟨.refl s, fun _ _ ↦ rfl, fun _ _ ↦ rfl⟩

theorem OnlyRow.trans {s'' : ReloadRows} (h : OnlyRow i s s') (h' : OnlyRow i s' s'') :
    OnlyRow i s s'' :=
  ⟨h.places.trans h'.places, fun j hj ↦ (h'.keys j hj).trans (h.keys j hj),
    fun c hc ↦ (h'.cells c (h.places.cacheIdx i ▸ hc)).trans (h.cells c hc)⟩

theorem OnlyRow.tuple (h : OnlyRow i s s') (hk : k ≠ i) : s'.tuple k = s.tuple k := by
  rw [ReloadRows.tuple, h.places.cacheIdx, h.cells _ (cacheIdx_ne hk), ReloadRows.tuple]

theorem onlyRow_set (e : KeySet) : OnlyRow i s { s with keyset := s.keyset.set i e } :=
  ⟨⟨rfl, rfl, rfl, rfl, List.length_set, rfl⟩, fun _ hj ↦ List.getElem?_set_ne hj.symm, fun _ _ ↦ rfl⟩

/-- What becomes of a row that the server does not return alone. -/
theorem storeGone_spec (he : s.keyset[i]? = some e) (hoid : ¬(e.oid = 0 ∧ options.bestIsOid))
    (hstore : (if options.keysetDriven then
      (storeAt s.keyset i
        { e with status := { e.status with info := e.status.info ||| 1 } }).map fun keyset ↦
          { s with keyset }
      else .ok s) = .ok s') :
    OnlyRow i s s' ∧ ∃ e', s'.keyset[i]? = some e' ∧
      e'.status.info = e.infoGone options ∧ e'.status.isDeleted = e.status.isDeleted := by
  have hi : i < s.keyset.length := (List.getElem?_eq_some_iff.1 he).1
  rw [KeySet.infoGone]
  by_cases hdriven : options.keysetDriven = true
  · rw [if_pos hdriven] at hstore
    obtain ⟨keyset, hset, rfl⟩ := map_eq_ok.1 hstore
    obtain ⟨-, rfl⟩ := storeAt_eq_ok.1 hset
    rw [if_pos ⟨hdriven, hoid⟩]
    exact ⟨onlyRow_set _, _, List.getElem?_set_self hi, rfl, rfl⟩
  · rw [if_neg hdriven] at hstore
    cases hstore
    rw [if_neg fun h ↦ hdriven h.1]
    exact ⟨.refl s, e, he, rfl, rfl⟩

/-- A row that is read alone. -/
theorem scPosReload_spec (ha : s.Aligned) (he : s.keyset[i]? = some e)
    (hread : scPosReload server options i s = .ok s') :
    OnlyRow i s s' ∧ ∃ e', s'.keyset[i]? = some e' ∧
      match server.latest options e with
      | some r => 0 ≤ s.cacheIdx i ∧ s.cacheIdx i < s.tuples.length →
          e'.key = r.key ∧ s'.tuple i = some r.fields
      | none => e'.status.info = e.infoGone options ∧ e'.status.isDeleted = e.status.isDeleted := by
  have hi : i < s.keyset.length := (List.getElem?_eq_some_iff.1 he).1
  unfold scPosReload at hread
  dsimp only at hread
  rw [ha.kresIdx, if_neg (by omega), entryAt_natCast.2 he] at hread
  change (if e.oid = 0 ∧ options.bestIsOid = true then _ else _) = _ at hread
  rw [ReloadServer.latest]
  by_cases hoid : e.oid = 0 ∧ options.bestIsOid = true
  · rw [if_pos hoid] at hread
    cases hread
    rw [if_pos hoid]
    exact ⟨.refl s, e, he, (if_neg fun h ↦ h.2 hoid).symm, rfl⟩
  · rw [if_neg hoid] at hread
    rw [if_neg hoid]
    cases hpos : server.position e.usedTid e.oid with
    | none =>
      rw [hpos] at hread
      cases hread
    | some rows =>
      rw [hpos] at hread
      match rows, hread with
      | [], hread => exact storeGone_spec he hoid hread
      | _ :: _ :: _, hread => exact storeGone_spec he hoid hread
      | [r], hread =>
        change (if 0 ≤ s.cacheIdx i ∧ s.cacheIdx i < s.tuples.length then _ else _) = _ at hread
        by_cases hc : 0 ≤ s.cacheIdx i ∧ s.cacheIdx i < s.tuples.length
        · rw [if_pos hc] at hread
          obtain ⟨tuples, htuples, hread⟩ := bind_eq_ok.1 hread
          obtain ⟨-, rfl⟩ := storeAt_eq_ok.1 htuples
          obtain ⟨keyset, hkeyset, hread⟩ := bind_eq_ok.1 hread
          obtain ⟨-, rfl⟩ := storeAt_eq_ok.1 hkeyset
          cases hread
          refine ⟨⟨⟨rfl, rfl, rfl, rfl, List.length_set, List.length_set⟩,
            fun j hj ↦ List.getElem?_set_ne hj.symm, fun c hne ↦ cell_set_ne hc.1 hne⟩,
            _, List.getElem?_set_self hi, fun _ ↦ ⟨rfl, cell_set_self hc⟩⟩
        · rw [if_neg hc] at hread
          cases hread
          exact ⟨.refl s, e, he, fun hc' ↦ absurd hc' hc⟩

/-! ## The last loop -/

/-- Once the first row is not marked the loop does nothing. -/
theorem reloadLoop_unmarked {is : List Nat} (he : s.keyset[i]? = some e)
    (hmark : e.status.needsReread = false) (hloop : reloadLoop server options i is s = .ok s') :
    s' = s := by
  induction is with
  | nil => exact (Except.ok.inj hloop).symm
  | cons j is ih =>
    rw [reloadLoop] at hloop
    obtain ⟨e', he', hloop⟩ := bind_eq_ok.1 hloop
    rw [entryAt_unique he he', hmark] at hloop
    exact ih hloop

/-- A row is not marked any more; if it was, it has been read alone. -/
def RowSettled (server : ReloadServer) (options : ReloadOptions) (i : Nat) (e : KeySet)
    (s s' : ReloadRows) : Prop :=
  ∃ e', s'.keyset[i]? = some e' ∧ e'.status.needsReread = false ∧
    if e.status.needsReread then
      match server.latest options e with
      | some r => 0 ≤ s.cacheIdx i ∧ s.cacheIdx i < s.tuples.length →
          e'.key = r.key ∧ s'.tuple i = some r.fields
      | none => e'.status.isDeleted = (e.status.isDeleted || e.infoGone options = 1)
    else e' = e ∧ s'.tuple i = s.tuple i

/-- The loop reads the first row, if it is marked. -/
theorem reloadLoop_spec {is : List Nat} (ha : s.Aligned) (he : s.keyset[i]? = some e)
    (hloop : reloadLoop server options i (i :: is) s = .ok s') :
    OnlyRow i s s' ∧ RowSettled server options i e s s' := by
  rw [RowSettled]
  cases hmark : e.status.needsReread with
  | false =>
    obtain rfl := reloadLoop_unmarked he hmark hloop
    exact ⟨.refl s', e, he, hmark, rfl, rfl⟩
  | true =>
    rw [reloadLoop] at hloop
    obtain ⟨e', he', hloop⟩ := bind_eq_ok.1 hloop
    obtain rfl : e = e' := (entryAt_unique he he').symm
    rw [if_pos hmark] at hloop
    obtain ⟨s'', hread, hloop⟩ := bind_eq_ok.1 hloop
    obtain ⟨honly, e'', he'', hspec⟩ := scPosReload_spec ha he hread
    obtain ⟨read, hentry, hloop⟩ := bind_eq_ok.1 hloop
    obtain rfl : e'' = read := (entryAt_unique he'' hentry).symm
    obtain ⟨keyset, hset, hloop⟩ := bind_eq_ok.1 hloop
    obtain ⟨-, rfl⟩ := storeAt_eq_ok.1 hset
    have hi : i < s''.keyset.length := (List.getElem?_eq_some_iff.1 he'').1
    have hsettled : (s''.keyset.set i e''.settle)[i]? = some e''.settle := List.getElem?_set_self hi
    obtain rfl := reloadLoop_unmarked
      (s := { s'' with keyset := s''.keyset.set (i : Int).toNat e''.settle }) hsettled rfl hloop
    refine ⟨honly.trans (onlyRow_set _), _, hsettled, rfl, ?_⟩
    rw [if_pos rfl]
    cases hlatest : server.latest options e with
    | none =>
      rw [hlatest] at hspec
      dsimp only
      rw [KeySet.isDeleted_settle, hspec.1, hspec.2]
    | some r =>
      rw [hlatest] at hspec
      exact hspec

/-! ## `SC_pos_reload_needed` -/

/-- What the only caller has seen to: the base is valid, and, without a cursor, the keys start where the
rowset does. -/
structure ReloadRows.Positioned (s : ReloadRows) : Prop where
  validBase : s.validBase = true
  keyBase : s.keyBase = s.rowsetStart

namespace ReloadRequest

/-- The rows of the rowset that lie in the cache. -/
structure InRowset (req : ReloadRequest) (s : ReloadRows) (k : Nat) : Prop where
  start : s.rowsetStart ≤ k
  size : k < s.rowsetStart + req.rows
  keys : k < s.keyset.length
  cache : req.rebuilds s ∨ 0 ≤ s.cacheIdx k ∧ s.cacheIdx k < s.tuples.length

/-- Whether a row is to be read again. -/
def rereads (req : ReloadRequest) (s : ReloadRows) (k : KeySet) : Bool :=
  k.status.needsReread || req.rebuilds s && req.retrieveData && !k.status.isDeleted

end ReloadRequest

variable {req : ReloadRequest}

theorem ReloadRequest.InRowset.mem (h : req.InRowset s k) : k ∈ s.rowsTo (req.limitrow s) := by
  refine mem_rowsTo.2 ⟨h.start, Nat.lt_min.2 ⟨?_, h.keys⟩⟩
  have hsize := h.size
  split_ifs with hscratch
  · have hle : req.rows ≤ req.perFetch := by
      rw [ReloadRequest.perFetch, if_pos hscratch]
      exact Nat.le_mul_of_pos_left _ (Nat.succ_pos _)
    omega
  · exact hsize

/-! ### The state in which the rows are loaded -/

theorem KeySet.mark_key (e : KeySet) : e.mark.key = e.key := by
  rw [KeySet.mark]
  split_ifs <;> rfl

theorem KeySet.mark_isDeleted (e : KeySet) : e.mark.status.isDeleted = e.status.isDeleted := by
  rw [KeySet.mark]
  split_ifs <;> rfl

theorem KeySet.mark_infoGone (e : KeySet) : e.mark.infoGone options = e.infoGone options := by
  rw [KeySet.mark]
  split_ifs <;> rfl

theorem KeySet.mark_needsReread (e : KeySet) :
    e.mark.status.needsReread = (e.status.needsReread || !e.status.isDeleted) := by
  rw [KeySet.mark]
  split_ifs with h
  · rw [h, Bool.not_true, Bool.or_false]
  · rw [Bool.not_eq_true] at h
    rw [h, Bool.not_false, Bool.or_true]

theorem ReloadServer.latest_mark (e : KeySet) : server.latest options e.mark = server.latest options e := by
  rw [KeySet.mark]
  split_ifs <;> rfl

theorem started_rowsetStart : (req.started s).rowsetStart = s.rowsetStart := by
  rw [ReloadRequest.started]
  split_ifs <;> rfl

theorem started_rowsTo (n : Nat) : (req.started s).rowsTo n = s.rowsTo n := by
  rw [ReloadRequest.started]
  split_ifs <;> rfl

theorem started_aligned (hs : s.Positioned) : (req.started s).Aligned := by
  intro _
  rw [ReloadRequest.started]
  split_ifs
  · exact hs.keyBase
  · exact hs.keyBase

theorem started_keyset_length : (req.started s).keyset.length = s.keyset.length := by
  rw [ReloadRequest.started]
  split_ifs
  · exact List.length_mapIdx
  · rfl

/-- The entry of a row, marked if the cache is set up anew. -/
def ReloadRequest.entry (req : ReloadRequest) (s : ReloadRows) (e : KeySet) : KeySet :=
  if req.rebuilds s then e.mark else e

theorem started_entry (hk : k ∈ s.rowsTo (req.limitrow s)) :
    (req.started s).keyset[k]? = s.keyset[k]?.map (req.entry s) := by
  have hrange := mem_rowsTo.1 hk
  rw [ReloadRequest.started]
  unfold ReloadRequest.entry
  by_cases hb : req.rebuilds s = true
  · simp only [if_pos hb]
    change (s.keyset.mapIdx _)[k]? = _
    rw [List.getElem?_mapIdx]
    refine Option.map_congr fun e _ ↦ ?_
    exact if_pos hrange
  · simp only [if_neg hb, Option.map_id']

theorem started_outside (hk : k ∉ s.rowsTo (req.limitrow s)) :
    (req.started s).keyset[k]? = s.keyset[k]? := by
  rw [ReloadRequest.started]
  split_ifs
  · change (s.keyset.mapIdx _)[k]? = _
    rw [List.getElem?_mapIdx]
    refine (Option.map_congr fun e _ ↦ ?_).trans Option.map_id'
    exact if_neg fun h ↦ hk (mem_rowsTo.2 h)
  · rfl

theorem started_key (k : Nat) :
    (req.started s).keyset[k]?.map KeySet.key = s.keyset[k]?.map KeySet.key := by
  by_cases hk : k ∈ s.rowsTo (req.limitrow s)
  · rw [started_entry hk, Option.map_map]
    refine Option.map_congr fun e _ ↦ ?_
    rw [Function.comp_apply, ReloadRequest.entry]
    split_ifs
    · exact e.mark_key
    · rfl
  · rw [started_outside hk]

theorem started_cached (hs : s.Positioned) (h : req.InRowset s k) :
    0 ≤ (req.started s).cacheIdx k ∧ (req.started s).cacheIdx k < (req.started s).tuples.length := by
  have hrange := mem_rowsTo.1 h.mem
  rw [ReloadRequest.started]
  split_ifs with hb
  · have hidx : ((s.clearCache (req.limitrow s)).markRows (req.limitrow s)).cacheIdx k =
        k - ((s.rowsetStart : Int) - 0) := by
      change (k : Int) - (if s.validBase then (s.rowsetStart : Int) - 0 else 0) = _
      rw [if_pos hs.validBase]
    have hlen : ((s.clearCache (req.limitrow s)).markRows (req.limitrow s)).tuples.length =
        req.limitrow s - s.rowsetStart := List.length_replicate
    rw [hidx, hlen]
    omega
  · exact h.cache.resolve_left hb

/-! ### A run -/

/-- Where rows are read again, they are loaded, and then the first row is settled. -/
theorem scPosReloadNeeded_run (hserver : server.Answers held) (hs : s.Positioned)
    (hoids : req.hasSubclass → ∀ e ∈ s.keyset, e.oid ≠ 0)
    (hread : ¬(req.rebuilds s ∧ !req.retrieveData))
    (hrun : scPosReloadNeeded server req s = .ok s') :
    ∃ s₂, Loads held (req.limitrow s) (req.started s) s₂ ∧
      (∀ k ∈ s.rowsTo (req.limitrow s),
        RowAwaits held (req.limitrow s) (req.started s) s₂ none [] k) ∧
      if s.rowsetStart ∈ s.rowsTo (req.limitrow s) then
        OnlyRow s.rowsetStart s₂ s' ∧ ∃ e, s₂.keyset[s.rowsetStart]? = some e ∧
          RowSettled server req.options s.rowsetStart e s₂ s'
      else s'.keyset = s₂.keyset ∧ s'.tuples = s₂.tuples := by
  unfold scPosReloadNeeded at hrun
  split_ifs at hrun with hupdatable hrows
  obtain ⟨s₂, hload, hrun⟩ := bind_eq_ok.1 hrun
  obtain ⟨s₃, hloop, hrun⟩ := bind_eq_ok.1 hrun
  cases hrun
  have hloads : Loads held (req.limitrow s) (req.started s) s₂ ∧
      ∀ k ∈ (req.started s).rowsTo (req.limitrow s),
        RowAwaits held (req.limitrow s) (req.started s) s₂ none [] k := by
    rw [loadRows] at hload
    split_ifs at hload with hsub
    · refine loadFromKeysetInh_loads hserver (started_aligned hs) ?_ hload
      intro e he
      obtain ⟨k, hk⟩ := List.mem_iff_getElem?.1 he
      obtain ⟨e', he', hoid⟩ := Option.map_eq_some_iff.1
        ((started_key k).symm.trans (congrArg (Option.map KeySet.key) hk))
      have heq : e'.oid = e.oid := congrArg Prod.fst hoid
      exact heq ▸ hoids hsub e' (List.mem_of_getElem? he')
    · exact loadFromKeyset_loads hserver (started_aligned hs) hload
  rw [started_rowsTo] at hloads
  refine ⟨s₂, hloads.1, hloads.2, ?_⟩
  have hplaces := hloads.1.places
  have hrowsTo : s₂.rowsTo (req.limitrow s) = s.rowsTo (req.limitrow s) :=
    (hplaces.rowsTo _).trans (started_rowsTo _)
  have hstart : s₂.rowsetStart = s.rowsetStart := hplaces.rowsetStart.trans started_rowsetStart
  have haligned := hplaces.aligned (started_aligned hs)
  rw [haligned.kresIdx, hrowsTo, hstart] at hloop
  split_ifs with hmem
  · have hrange := mem_rowsTo.1 hmem
    have hcons : s.rowsTo (req.limitrow s) =
        s.rowsetStart :: List.range' (s.rowsetStart + 1) (req.limitrow s - s.rowsetStart - 1) := by
      rw [rowsTo, ← List.range'_succ]
      congr 1
      omega
    rw [hcons] at hloop
    have hlt : s.rowsetStart < s₂.keyset.length := by
      rw [hplaces.keyset, started_keyset_length]
      exact Nat.lt_of_lt_of_le hrange.2 (Nat.min_le_right _ _)
    have he := List.getElem?_eq_getElem hlt
    obtain ⟨honly, hsettled⟩ := reloadLoop_spec haligned he hloop
    exact ⟨⟨⟨honly.places.rowsetStart, honly.places.validBase, honly.places.base,
      honly.places.keyBase, honly.places.keyset, honly.places.tuples⟩, honly.keys, honly.cells⟩,
      _, he, hsettled⟩
  · have hnil : s.rowsTo (req.limitrow s) = [] := by
      rw [rowsTo, List.range'_eq_nil_iff]
      rw [mem_rowsTo] at hmem
      omega
    rw [hnil] at hloop
    cases hloop
    exact ⟨rfl, rfl⟩

/-! ### The rows of the rowset -/

theorem started_rowOf {key : RowKey} :
    (req.started s).rowOf (req.limitrow s) key = s.rowOf (req.limitrow s) key := by
  rw [rowOf, rowOf, started_rowsTo]
  simp only [started_key]

theorem entry_key : (req.entry s e).key = e.key := by
  rw [ReloadRequest.entry]
  split_ifs
  · exact e.mark_key
  · rfl

theorem entry_isDeleted : (req.entry s e).status.isDeleted = e.status.isDeleted := by
  rw [ReloadRequest.entry]
  split_ifs
  · exact e.mark_isDeleted
  · rfl

theorem entry_infoGone : (req.entry s e).infoGone options = e.infoGone options := by
  rw [ReloadRequest.entry]
  split_ifs
  · exact e.mark_infoGone
  · rfl

theorem entry_latest : server.latest options (req.entry s e) = server.latest options e := by
  rw [ReloadRequest.entry]
  split_ifs
  · exact server.latest_mark e
  · rfl

theorem entry_needsReread (hread : ¬(req.rebuilds s ∧ !req.retrieveData)) :
    (req.entry s e).status.needsReread = req.rereads s e := by
  rw [ReloadRequest.entry, ReloadRequest.rereads]
  by_cases hb : req.rebuilds s = true
  · have hretrieve : req.retrieveData = true := by
      by_contra hoff
      rw [Bool.not_eq_true] at hoff
      exact hread ⟨hb, by rw [hoff]; rfl⟩
    rw [if_pos hb, hb, hretrieve, Bool.true_and, Bool.true_and, KeySet.mark_needsReread]
  · rw [if_neg hb, Bool.eq_false_iff.2 hb, Bool.false_and, Bool.false_and, Bool.or_false]

/-- The first row of the range is the first of its key. -/
theorem rowOf_start (hmem : s.rowsetStart ∈ s.rowsTo limitrow)
    (he : s.keyset[s.rowsetStart]? = some e) : s.rowOf limitrow e.key = some s.rowsetStart := by
  have hrange := mem_rowsTo.1 hmem
  have hcons : s.rowsTo limitrow =
      s.rowsetStart :: List.range' (s.rowsetStart + 1) (limitrow - s.rowsetStart - 1) := by
    rw [rowsTo, ← List.range'_succ]
    congr 1
    omega
  rw [rowOf, hcons]
  exact List.find?_cons_of_pos (decide_eq_true (congrArg (Option.map KeySet.key) he))

/-- What becomes of a row of the rowset that is to be read again. -/
def RowRead (server : ReloadServer) (held : HeldRows) (req : ReloadRequest) (s s' : ReloadRows)
    (k : Nat) (e e' : KeySet) : Prop :=
  if (held e.key).isSome ∧ s.rowOf (req.limitrow s) e.key = some k then
    e'.status.needsReread = false ∧ e'.key = e.key ∧ s'.tuple k = held e.key
  else if k = s.rowsetStart then
    e'.status.needsReread = false ∧
      match server.latest req.options e with
      | some r => e'.key = r.key ∧ s'.tuple k = some r.fields
      | none => e'.status.isDeleted = (e.status.isDeleted || e.infoGone req.options = 1)
  else e'.status.needsReread = true

theorem row_result (hserver : server.Answers held) (hs : s.Positioned)
    (hoids : req.hasSubclass → ∀ e ∈ s.keyset, e.oid ≠ 0)
    (hread : ¬(req.rebuilds s ∧ !req.retrieveData))
    (hrun : scPosReloadNeeded server req s = .ok s') (hk : req.InRowset s k)
    (he : s.keyset[k]? = some e) :
    ∃ e', s'.keyset[k]? = some e' ∧ (req.rereads s e = false → e'.status.needsReread = false) ∧
      (req.rereads s e = true → RowRead server held req s s' k e e') := by
  obtain ⟨s₂, hloads, hawaits, hend⟩ := scPosReloadNeeded_run hserver hs hoids hread hrun
  have hmem := hk.mem
  have hrange := mem_rowsTo.1 hmem
  rw [if_pos (mem_rowsTo.2 ⟨Nat.le_refl _, Nat.lt_of_le_of_lt hrange.1 hrange.2⟩)] at hend
  obtain ⟨honly, estart, hestart, hsettled⟩ := hend
  have hentry : (req.started s).keyset[k]? = some (req.entry s e) := by
    rw [started_entry hmem, he]
    rfl
  have hmarked := entry_needsReread (e := e) hread
  by_cases hloaded : RowLoaded held (req.limitrow s) (req.started s) s₂ k
  · obtain ⟨e₁, he₁, hfirst, hheld, hk₂, ht₂⟩ := hloaded
    rw [hentry] at he₁
    cases he₁
    rw [started_rowOf, entry_key] at hfirst
    rw [entry_key] at hheld ht₂
    have hend : s'.keyset[k]? = some (req.entry s e).reread ∧ s'.tuple k = held e.key := by
      by_cases hstart : k = s.rowsetStart
      · rw [← hstart, hk₂] at hestart
        cases hestart
        obtain ⟨e', he', -, hsame⟩ := hsettled
        rw [if_neg (by exact Bool.false_ne_true), ← hstart] at hsame
        rw [← hstart] at he'
        exact ⟨hsame.1 ▸ he', hsame.2.trans ht₂⟩
      · exact ⟨(honly.keys k hstart).trans hk₂, (honly.tuple hstart).trans ht₂⟩
    refine ⟨_, hend.1, fun _ ↦ rfl, fun _ ↦ ?_⟩
    rw [RowRead, if_pos ⟨hheld, hfirst⟩]
    exact ⟨rfl, entry_key, hend.2⟩
  · have hkept := (hloads.rows k).resolve_right hloaded
    have hk₂ : s₂.keyset[k]? = some (req.entry s e) := hkept.1.trans hentry
    have hnot : req.rereads s e = true →
        ¬((held e.key).isSome ∧ s.rowOf (req.limitrow s) e.key = some k) := by
      rintro hmark ⟨hheld, hfirst⟩
      rcases hawaits k hmem _ hentry (hmarked.trans hmark) (by rw [started_rowOf, entry_key, hfirst])
        (by rw [entry_key, hheld]) with h | ⟨h, -⟩
      · exact hloaded h
      · exact absurd h List.not_mem_nil
    by_cases hstart : k = s.rowsetStart
    · rw [← hstart, hk₂] at hestart
      cases hestart
      obtain ⟨e', he', hoff, hend⟩ := hsettled
      rw [← hstart] at he' hend
      refine ⟨e', he', fun _ ↦ hoff, fun hmark ↦ ?_⟩
      rw [RowRead, if_neg (hnot hmark), if_pos hstart]
      rw [if_pos (hmarked.trans hmark), entry_latest, entry_isDeleted, entry_infoGone] at hend
      refine ⟨hoff, ?_⟩
      cases hlatest : server.latest req.options e with
      | none =>
        rw [hlatest] at hend
        exact hend
      | some r =>
        rw [hlatest] at hend
        have hcached := started_cached hs hk
        rw [← hloads.places.cacheIdx, ← hloads.places.tuples] at hcached
        exact hend hcached
    · refine ⟨_, (honly.keys k hstart).trans hk₂, fun hmark ↦ hmarked.trans hmark, fun hmark ↦ ?_⟩
      rw [RowRead, if_neg (hnot hmark), if_neg hstart]
      exact hmarked.trans hmark

/-! ### The rows outside of the range -/

theorem keys_outside (hserver : server.Answers held) (hs : s.Positioned)
    (hoids : req.hasSubclass → ∀ e ∈ s.keyset, e.oid ≠ 0)
    (hread : ¬(req.rebuilds s ∧ !req.retrieveData))
    (hrun : scPosReloadNeeded server req s = .ok s') (hk : k ∉ s.rowsTo (req.limitrow s)) :
    s'.keyset[k]? = s.keyset[k]? := by
  obtain ⟨s₂, hloads, -, hend⟩ := scPosReloadNeeded_run hserver hs hoids hread hrun
  have hsame : s₂.keyset[k]? = s.keyset[k]? := by
    rcases hloads.rows k with hkept | ⟨e, -, hfirst, -⟩
    · rw [hkept.1, started_outside hk]
    · have hmem := (rowOf_eq_some hfirst).1
      rw [started_rowsTo] at hmem
      exact absurd hmem hk
  split_ifs at hend with hstart
  · rw [hend.1.keys k fun h ↦ hk (h ▸ hstart), hsame]
  · rw [hend.1, hsame]

theorem cells_outside (hserver : server.Answers held) (hs : s.Positioned)
    (hoids : req.hasSubclass → ∀ e ∈ s.keyset, e.oid ≠ 0) (hkeep : ¬req.rebuilds s)
    (hrun : scPosReloadNeeded server req s = .ok s') {c : Int}
    (hc : ∀ k ∈ s.rowsTo (req.limitrow s), s.cacheIdx k ≠ c) : s'.cell c = s.cell c := by
  obtain ⟨s₂, hloads, -, hend⟩ :=
    scPosReloadNeeded_run hserver hs hoids (fun h ↦ hkeep h.1) hrun
  have hstarted : req.started s = s := if_neg hkeep
  rw [hstarted] at hloads
  have hsame := hloads.outside c hc
  split_ifs at hend with hstart
  · have hne : c ≠ s₂.cacheIdx s.rowsetStart := by
      rw [hloads.places.cacheIdx]
      exact (hc _ hstart).symm
    rw [hend.1.cells c hne, hsame]
  · rw [cell, hend.2, ← cell, hsame]

/-! ## Nothing is left -/

/-- The row that the server returns for a key, with a batch or alone. -/
def ReloadServer.returns (server : ReloadServer) (options : ReloadOptions) (held : HeldRows)
    (k : KeySet) : Option LoadedRow :=
  ((held k.key).map fun fields ↦ ⟨k.key, fields⟩).or (server.latest options k)

/-- No row of the rowset that lies in the cache is marked any more, those that were to be read again
are what the server returned, or deleted, and nothing has changed outside of the range. -/
structure NothingStale (server : ReloadServer) (held : HeldRows) (req : ReloadRequest)
    (s s' : ReloadRows) : Prop where
  unmarked : ∀ k e, req.InRowset s k → s'.keyset[k]? = some e → e.status.needsReread = false
  refetched : ∀ k e r, req.InRowset s k → s.keyset[k]? = some e → req.rereads s e = true →
    server.returns req.options held e = some r →
      s'.tuple k = some r.fields ∧ s'.keyset[k]?.map KeySet.key = some r.key
  deleted : ∀ k e, req.InRowset s k → s.keyset[k]? = some e → req.rereads s e = true →
    server.returns req.options held e = none →
      s'.keyset[k]?.map (fun e ↦ e.status.isDeleted) = some true
  keysOutside : ∀ k : Nat, k ∉ s.rowsTo (req.limitrow s) → s'.keyset[k]? = s.keyset[k]?
  cellsOutside : ¬req.rebuilds s → ∀ c, (∀ k ∈ s.rowsTo (req.limitrow s), s.cacheIdx k ≠ c) →
    s'.cell c = s.cell c

/-- Rows are read at all, and each row of the rowset that is to be read again comes with a batch: the
server holds it, and it is the first of its key.  If it is the first row of the rowset it may come
alone as well, or be one that counts as deleted once it has not come. -/
def ReadsEach (server : ReloadServer) (held : HeldRows) (req : ReloadRequest) (s : ReloadRows) : Prop :=
  ∀ k e, req.InRowset s k → s.keyset[k]? = some e → req.rereads s e = true →
    (req.rebuilds s → req.retrieveData) ∧
      if k = s.rowsetStart then
        (server.returns req.options held e).isSome ∨ e.status.isDeleted ∨
          e.infoGone req.options = 1
      else (held e.key).isSome ∧ s.rowOf (req.limitrow s) e.key = some k

theorem returns_of_held {fields : List TupleField} (h : held e.key = some fields) :
    server.returns options held e = some ⟨e.key, fields⟩ := by
  rw [ReloadServer.returns, h]
  rfl

theorem returns_of_not_held (h : held e.key = none) :
    server.returns options held e = server.latest options e := by
  rw [ReloadServer.returns, h]
  rfl

/-- A row that was to be read again is what the server returned, or deleted. -/
def RowFresh (server : ReloadServer) (held : HeldRows) (options : ReloadOptions) (s' : ReloadRows)
    (k : Nat) (e e' : KeySet) : Prop :=
  e'.status.needsReread = false ∧
    (∀ r, server.returns options held e = some r → s'.tuple k = some r.fields ∧ e'.key = r.key) ∧
    (server.returns options held e = none → e'.status.isDeleted = true)

theorem rowFresh_iff {e' : KeySet} (hfirst : k = s.rowsetStart → s.rowOf (req.limitrow s) e.key = some k)
    (h : RowRead server held req s s' k e e') :
    RowFresh server held req.options s' k e e' ↔
      if k = s.rowsetStart then
        (server.returns req.options held e).isSome ∨ e.status.isDeleted ∨
          e.infoGone req.options = 1
      else (held e.key).isSome ∧ s.rowOf (req.limitrow s) e.key = some k := by
  rw [RowRead] at h
  rw [RowFresh]
  by_cases hloaded : (held e.key).isSome ∧ s.rowOf (req.limitrow s) e.key = some k
  · rw [if_pos hloaded] at h
    obtain ⟨fields, hfields⟩ := Option.isSome_iff_exists.1 hloaded.1
    rw [returns_of_held hfields]
    refine iff_of_true ⟨h.1, ?_, fun hnone ↦ by cases hnone⟩ ?_
    · rintro r ⟨⟩
      exact ⟨h.2.2.trans hfields, h.2.1⟩
    · split_ifs
      · exact Or.inl rfl
      · exact hloaded
  · rw [if_neg hloaded] at h
    split_ifs at h ⊢ with hstart
    · have hheld : held e.key = none := by
        by_contra hsome
        exact hloaded ⟨Option.isSome_iff_ne_none.2 hsome, hfirst hstart⟩
      rw [returns_of_not_held hheld]
      cases hlatest : server.latest req.options e with
      | some r =>
        rw [hlatest] at h
        refine iff_of_true ⟨h.1, ?_, fun hnone ↦ by cases hnone⟩ (Or.inl rfl)
        rintro r' ⟨⟩
        exact ⟨h.2.2, h.2.1⟩
      | none =>
        rw [hlatest] at h
        constructor
        · rintro ⟨-, -, hdeleted⟩
          rw [h.2, Bool.or_eq_true, decide_eq_true_iff] at hdeleted
          exact Or.inr (hdeleted rfl)
        · rintro (hnone | hdeleted)
          · cases hnone
          · refine ⟨h.1, ?_, fun _ ↦ ?_⟩
            · rintro r ⟨⟩
            rw [h.2, Bool.or_eq_true, decide_eq_true_iff]
            exact hdeleted
    · refine iff_of_false ?_ hloaded
      rintro ⟨hoff, -⟩
      rw [h] at hoff
      cases hoff

theorem scPosReloadNeeded_off (hoff : req.rebuilds s ∧ !req.retrieveData)
    (hrun : scPosReloadNeeded server req s = .ok s') : s' = s.clearCache (req.limitrow s) := by
  unfold scPosReloadNeeded at hrun
  split_ifs at hrun
  exact (Except.ok.inj hrun).symm

/-- Where rows are not to be retrieved the marks stay as they are. -/
theorem nothingStale_off (hoff : req.rebuilds s ∧ !req.retrieveData)
    (hrun : scPosReloadNeeded server req s = .ok s') :
    NothingStale server held req s s' ↔ ReadsEach server held req s := by
  obtain rfl := scPosReloadNeeded_off hoff hrun
  have hretrieve : ¬(req.rebuilds s → req.retrieveData) := by
    intro hon
    have hnot := hoff.2
    rw [hon hoff.1] at hnot
    cases hnot
  have hrereads : ∀ e, req.rereads s e = e.status.needsReread := by
    intro e
    have hnot : req.retrieveData = false := (Bool.not_eq_true' _).mp hoff.2
    rw [ReloadRequest.rereads, hnot, Bool.and_false, Bool.false_and, Bool.or_false]
  constructor
  · intro h k e hk he hmark
    have hunmarked := h.unmarked k e hk he
    rw [← hrereads, hmark] at hunmarked
    cases hunmarked
  · intro h
    have hnone : ∀ k e, req.InRowset s k → s.keyset[k]? = some e → ¬req.rereads s e = true :=
      fun k e hk he hmark ↦ hretrieve (h k e hk he hmark).1
    exact ⟨fun k e hk he ↦ hrereads e ▸ Bool.eq_false_iff.2 (hnone k e hk he),
      fun k e r hk he hmark ↦ absurd hmark (hnone k e hk he),
      fun k e hk he hmark ↦ absurd hmark (hnone k e hk he), fun k _ ↦ rfl,
      fun hkeep ↦ absurd hoff.1 hkeep⟩

/-- Nothing is left to be read again exactly when the batches bring each row but the first. -/
theorem nothingStale_iff (hserver : server.Answers held) (hs : s.Positioned)
    (hoids : req.hasSubclass → ∀ e ∈ s.keyset, e.oid ≠ 0)
    (hrun : scPosReloadNeeded server req s = .ok s') :
    NothingStale server held req s s' ↔ ReadsEach server held req s := by
  by_cases hread : req.rebuilds s ∧ !req.retrieveData
  · exact nothingStale_off hread hrun
  · have hresult := fun k e ↦ row_result (k := k) (e := e) hserver hs hoids hread hrun
    have hfirst : ∀ k e, req.InRowset s k → s.keyset[k]? = some e → k = s.rowsetStart →
        s.rowOf (req.limitrow s) e.key = some k := by
      rintro k e hk he rfl
      exact rowOf_start hk.mem he
    constructor
    · intro h k e hk he hmark
      obtain ⟨e', he', -, hrow⟩ := hresult k e hk he
      refine ⟨fun hb ↦ ?_, (rowFresh_iff (hfirst k e hk he) (hrow hmark)).1 ⟨?_, ?_, ?_⟩⟩
      · by_contra hoff
        exact hread ⟨hb, Bool.not_eq_true' _ ▸ Bool.not_eq_true _ ▸ hoff⟩
      · exact h.unmarked k e' hk he'
      · intro r hr
        obtain ⟨htuple, hkey⟩ := h.refetched k e r hk he hmark hr
        rw [he'] at hkey
        exact ⟨htuple, Option.some.inj hkey⟩
      · intro hnone
        have hdeleted := h.deleted k e hk he hmark hnone
        rw [he'] at hdeleted
        exact Option.some.inj hdeleted
    · intro h
      have hfresh : ∀ k e, req.InRowset s k → s.keyset[k]? = some e → req.rereads s e = true →
          ∃ e', s'.keyset[k]? = some e' ∧ RowFresh server held req.options s' k e e' := by
        intro k e hk he hmark
        obtain ⟨e', he', -, hrow⟩ := hresult k e hk he
        exact ⟨e', he', (rowFresh_iff (hfirst k e hk he) (hrow hmark)).2 (h k e hk he hmark).2⟩
      refine ⟨fun k e' hk he' ↦ ?_, fun k e r hk he hmark hr ↦ ?_, fun k e hk he hmark hnone ↦ ?_,
        fun k hk ↦ keys_outside hserver hs hoids hread hrun hk,
        fun hkeep c hc ↦ cells_outside hserver hs hoids hkeep hrun hc⟩
      · obtain ⟨e, he⟩ : ∃ e, s.keyset[k]? = some e := ⟨_, List.getElem?_eq_getElem hk.keys⟩
        cases hmark : req.rereads s e with
        | false =>
          obtain ⟨e'', he'', hoff, -⟩ := hresult k e hk he
          rw [he'] at he''
          cases he''
          exact hoff hmark
        | true =>
          obtain ⟨e'', he'', hrow⟩ := hfresh k e hk he hmark
          rw [he'] at he''
          cases he''
          exact hrow.1
      · obtain ⟨e', he', hrow⟩ := hfresh k e hk he hmark
        rw [he']
        exact ⟨(hrow.2.1 r hr).1, congrArg some (hrow.2.1 r hr).2⟩
      · obtain ⟨e', he', hrow⟩ := hfresh k e hk he hmark
        rw [he']
        exact congrArg some (hrow.2.2 hnone)

/-! ### A server with given rows -/

/-- A server that has certain rows. -/
def ReloadServer.ofRows (rows : List LoadedRow) : ReloadServer where
  prepare := true
  load _ table tids := some (rows.filter fun r ↦ r.key.2 ∈ tids ∧ ∀ oid ∈ table, r.key.1 = oid)
  position tid oid := some (rows.filter fun r ↦ (∀ t ∈ tid, r.key.2 = t) ∧ r.key.1 = oid)

/-- What it holds. -/
def heldIn (rows : List LoadedRow) : HeldRows := fun key ↦
  (rows.find? fun r ↦ r.key = key).map LoadedRow.fields

theorem heldIn_of_mem {rows : List LoadedRow} (h : rows.Pairwise fun r r' ↦ r.key ≠ r'.key)
    {r : LoadedRow} (hr : r ∈ rows) : heldIn rows r.key = some r.fields := by
  induction rows with
  | nil => cases hr
  | cons r' rows ih =>
    rw [List.pairwise_cons] at h
    rcases List.mem_cons.1 hr with rfl | hmem
    · rw [heldIn, List.find?_cons, decide_eq_true rfl]
      rfl
    · rw [heldIn, List.find?_cons, decide_eq_false (h.1 r hmem)]
      exact ih h.2 hmem

theorem answers_ofRows {rows : List LoadedRow} (h : rows.Pairwise fun r r' ↦ r.key ≠ r'.key) :
    (ReloadServer.ofRows rows).Answers (heldIn rows) := by
  constructor
  · rintro _ table tids _ ⟨⟩ r hr
    exact heldIn_of_mem h (List.mem_filter.1 hr).1
  · rintro _ table tids _ ⟨⟩ key fields hheld hmem htable
    obtain ⟨r, hr, rfl⟩ := Option.map_eq_some_iff.1 hheld
    have hkey := List.find?_some hr
    obtain rfl : r.key = key := of_decide_eq_true hkey
    exact List.mem_filter.2 ⟨List.mem_of_find?_eq_some hr, decide_eq_true ⟨hmem, htable⟩⟩

/-- Two rows that are marked. -/
def twoMarked : ReloadRows :=
  ⟨0, true, 0, 0, 1,
    [⟨{ RowStatus.none with needsReread := true }, 0, 1, 0⟩,
      ⟨{ RowStatus.none with needsReread := true }, 0, 2, 0⟩],
    [[⟨1, some [97]⟩], [⟨1, some [98]⟩]], 0, true⟩

/-- A rowset of two rows. -/
def rowsetOfTwo : ReloadRequest := ⟨true, 2, 2, false, true, false, ⟨true, false⟩⟩

/-- The rows that the server has by now. -/
def rowsByNow : List LoadedRow :=
  [⟨(0, 0, 1), [⟨1, some [99]⟩]⟩, ⟨(0, 0, 2), [⟨1, some [100]⟩]⟩]

theorem nothingStale_rowsByNow :
    ∃ s', scPosReloadNeeded (.ofRows rowsByNow) rowsetOfTwo twoMarked = .ok s' ∧
      (NothingStale (.ofRows rowsByNow) (heldIn rowsByNow) rowsetOfTwo twoMarked s' ↔
        ReadsEach (.ofRows rowsByNow) (heldIn rowsByNow) rowsetOfTwo twoMarked) :=
  ⟨_, rfl, nothingStale_iff (answers_ofRows (by decide)) ⟨rfl, rfl⟩ (fun h ↦ by cases h) rfl⟩

/-- Without the second row: it stays marked, and is not marked as deleted. -/
theorem not_nothingStale_secondGone :
    (ReloadServer.ofRows (rowsByNow.take 1)).Answers (heldIn (rowsByNow.take 1)) ∧
      twoMarked.Positioned ∧
      ∃ s', scPosReloadNeeded (.ofRows (rowsByNow.take 1)) rowsetOfTwo twoMarked = .ok s' ∧
        ¬NothingStale (.ofRows (rowsByNow.take 1)) (heldIn (rowsByNow.take 1)) rowsetOfTwo twoMarked
          s' := by
  refine ⟨answers_ofRows (List.pairwise_singleton _ _), ⟨rfl, rfl⟩, _, rfl, fun h ↦ ?_⟩
  have hmarked := h.unmarked 1 _ ⟨by decide, by decide, by decide, Or.inr (by decide)⟩ rfl
  cases hmarked

end PsqlOdbc
