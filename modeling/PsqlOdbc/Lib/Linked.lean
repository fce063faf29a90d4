import PsqlOdbc.Lib.Heap
import Mathlib.Data.List.Perm.Subperm

/-!
# Linked lists

Links on a heap, each with the address of the next one.  A segment is what is met on the way from
one pointer to another; a list is a segment that ends at the null pointer.
-/

namespace Lib

/-- A block with a pointer to the next one. -/
structure Link (α : Type) where
  data : α
  lnext : Option ℕ

/-- The blocks of a list. -/
abbrev Links (α : Type) := Heap (Link α)

variable {α : Type}

/-! ## Operations -/

namespace Links

/-- The pointer in a link. -/
def nextr (heap : Links α) (p : Option ℕ) : Option (Option ℕ) :=
  p.bind fun addr ↦ (heap.blocks addr).map Link.lnext

/-- A change to the link at an address. -/
def modify (addr : ℕ) (f : Link α → Link α) (heap : Links α) : Links α where
  blocks a := if a = addr then (heap.blocks a).map f else heap.blocks a
  next := heap.next
  fresh a h := by rw [heap.fresh a h, Option.map_none, ite_self]

/-- A change to the link a pointer leads to. -/
def update (p : Option ℕ) (f : Link α → Link α) (heap : Links α) : Option (Links α) :=
  p.bind fun addr ↦ if (heap.blocks addr).isSome then some (heap.modify addr f) else none

/-- Another pointer in a link. -/
def setNext (p q : Option ℕ) (heap : Links α) : Option (Links α) :=
  heap.update p fun link ↦ { link with lnext := q }

/-- Other data in a link. -/
def setData (p : Option ℕ) (f : α → α) (heap : Links α) : Option (Links α) :=
  heap.update p fun link ↦ { link with data := f link.data }

/-- The links freed from a pointer on, in at most so many steps. -/
def destroyLoop : ℕ → Option ℕ → Links α → Option (Links α)
  | _, none, heap => some heap
  | 0, some _, _ => none
  | n + 1, some addr, heap =>
    (heap.nextr (some addr)).bind fun next ↦ (heap.free addr).bind (destroyLoop n next)

/-- The links freed from a pointer on. -/
def destroy (p : Option ℕ) (heap : Links α) : Option (Links α) := destroyLoop heap.next p heap

/-- The last link from a pointer on, or the one before, in at most so many steps. -/
def lastLoop (heap : Links α) : ℕ → Option ℕ → Option ℕ → Option (Option ℕ)
  | _, none, last => some last
  | 0, some _, _ => none
  | n + 1, some addr, _ => (heap.nextr (some addr)).bind fun next ↦ heap.lastLoop n next (some addr)

/-- The last link from a pointer on. -/
def last (heap : Links α) (p : Option ℕ) : Option (Option ℕ) := heap.lastLoop heap.next p none

theorem destroy_none (heap : Links α) : heap.destroy none = some heap := by
  rw [destroy]
  cases heap.next <;> rfl

theorem blocks_modify_of_ne {addr a : ℕ} (f : Link α → Link α) (heap : Links α) (h : a ≠ addr) :
    (heap.modify addr f).blocks a = heap.blocks a := if_neg h

theorem blocks_modify_self {addr : ℕ} {link : Link α} (f : Link α → Link α) {heap : Links α}
    (h : heap.blocks addr = some link) : (heap.modify addr f).blocks addr = some (f link) :=
  (if_pos rfl).trans (by rw [h, Option.map_some])

theorem update_some {addr : ℕ} {link : Link α} (f : Link α → Link α) {heap : Links α}
    (h : heap.blocks addr = some link) : heap.update (some addr) f = some (heap.modify addr f) := by
  rw [update, Option.bind_some, if_pos (by rw [h]; rfl)]

end Links

/-! ## Frames -/

/-- What was given before is as it was, and nothing was taken back. -/
structure Links.Frame (heap heap' : Links α) : Prop where
  next_le : heap.next ≤ heap'.next
  blocks_eq : ∀ addr < heap.next, heap'.blocks addr = heap.blocks addr

namespace Links.Frame

variable {heap heap' heap'' : Links α}

theorem refl (heap : Links α) : Frame heap heap := ⟨Nat.le_refl _, fun _ _ ↦ rfl⟩

theorem trans (h : Frame heap heap') (h' : Frame heap' heap'') : Frame heap heap'' where
  next_le := Nat.le_trans h.next_le h'.next_le
  blocks_eq addr hlt := by
    rw [h'.blocks_eq addr (Nat.lt_of_lt_of_le hlt h.next_le), h.blocks_eq addr hlt]

theorem alloc (heap : Links α) (link : Link α) : Frame heap (heap.alloc link) where
  next_le := by simp
  blocks_eq addr hlt := Heap.blocks_alloc_of_ne link (Nat.ne_of_lt hlt)

/-- Changes and releases of what was given later. -/
theorem modify (h : Frame heap heap') {addr : ℕ} (haddr : heap.next ≤ addr)
    (f : Link α → Link α) : Frame heap (heap'.modify addr f) where
  next_le := h.next_le
  blocks_eq a hlt := by
    rw [blocks_modify_of_ne f heap' (by omega : a ≠ addr), h.blocks_eq a hlt]

theorem without (h : Frame heap heap') {addrs : List ℕ}
    (haddrs : ∀ addr ∈ addrs, heap.next ≤ addr) : Frame heap (heap'.without addrs) where
  next_le := h.next_le
  blocks_eq a hlt := by
    rw [Heap.blocks_without_of_notMem, h.blocks_eq a hlt]
    intro hmem
    have := haddrs a hmem
    omega

end Links.Frame

/-! ## Segments -/

/-- From a pointer on, links at these addresses and with these data are met, then a pointer. -/
def Seg (heap : Links α) : Option ℕ → List (ℕ × α) → Option ℕ → Prop
  | p, [], q => p = q
  | p, cell :: cells, q =>
    p = some cell.1 ∧ ∃ next, heap.blocks cell.1 = some ⟨cell.2, next⟩ ∧ Seg heap next cells q

namespace Seg

variable {heap heap' : Links α} {p q r : Option ℕ} {cell : ℕ × α} {cells cells' : List (ℕ × α)}

theorem append (h : Seg heap p cells q) (h' : Seg heap q cells' r) :
    Seg heap p (cells ++ cells') r := by
  induction cells generalizing p with
  | nil =>
    have hp : p = q := h
    rw [hp]
    exact h'
  | cons cell cells ih =>
    obtain ⟨hp, next, hcell, hrest⟩ := h
    exact ⟨hp, next, hcell, ih hrest⟩

theorem split (h : Seg heap p (cells ++ cells') r) :
    ∃ q, Seg heap p cells q ∧ Seg heap q cells' r := by
  induction cells generalizing p with
  | nil => exact ⟨p, rfl, h⟩
  | cons cell cells ih =>
    obtain ⟨hp, next, hcell, hrest⟩ := h
    obtain ⟨q, hleft, hright⟩ := ih hrest
    exact ⟨q, ⟨hp, next, hcell, hleft⟩, hright⟩

/-- A segment depends on its own links only. -/
theorem congr (h : Seg heap p cells q)
    (hblocks : ∀ cell ∈ cells, heap'.blocks cell.1 = heap.blocks cell.1) :
    Seg heap' p cells q := by
  induction cells generalizing p with
  | nil => exact h
  | cons cell cells ih =>
    obtain ⟨hp, next, hcell, hrest⟩ := h
    refine ⟨hp, next, ?_, ih hrest fun other hother ↦ hblocks other (List.mem_cons_of_mem _ hother)⟩
    rw [hblocks cell List.mem_cons_self, hcell]

/-- The links of a segment are there. -/
theorem blocks (h : Seg heap p cells q) {addr : ℕ} (haddr : addr ∈ cells.map Prod.fst) :
    (heap.blocks addr).isSome := by
  induction cells generalizing p with
  | nil => exact absurd haddr List.not_mem_nil
  | cons cell cells ih =>
    obtain ⟨-, next, hcell, hrest⟩ := h
    rcases List.mem_cons.1 haddr with rfl | hmem
    · rw [hcell]
      rfl
    · exact ih hrest hmem

theorem lt_next (h : Seg heap p cells q) {addr : ℕ} (haddr : addr ∈ cells.map Prod.fst) :
    addr < heap.next := Heap.lt_next (h.blocks haddr)

/-- Where a list begins is its first address. -/
theorem eq_head (h : Seg heap p cells none) : p = (cells.map Prod.fst).head? := by
  cases cells with
  | nil => exact h
  | cons cell cells => exact h.1

/-- From a pointer on there is one list. -/
theorem unique (h : Seg heap p cells none) (h' : Seg heap p cells' none) : cells = cells' := by
  induction cells generalizing p cells' with
  | nil =>
    cases cells' with
    | nil => rfl
    | cons cell' cells' => exact absurd (h.symm.trans h'.1) nofun
  | cons cell cells ih =>
    cases cells' with
    | nil => exact absurd (h'.symm.trans h.1) nofun
    | cons cell' cells' =>
      obtain ⟨hp, next, hcell, hrest⟩ := h
      obtain ⟨hp', next', hcell', hrest'⟩ := h'
      have haddr : cell.1 = cell'.1 := Option.some.inj (hp.symm.trans hp')
      rw [haddr, hcell'] at hcell
      injection Option.some.inj hcell with hdata hnext
      rw [← hnext] at hrest
      exact congr_arg₂ _ (Prod.ext haddr hdata.symm) (ih hrest hrest')

/-- A list that ends meets no link twice. -/
theorem nodup (h : Seg heap p cells none) : (cells.map Prod.fst).Nodup := by
  induction cells generalizing p with
  | nil => exact List.nodup_nil
  | cons cell cells ih =>
    obtain ⟨hp, next, hcell, hrest⟩ := id h
    refine List.nodup_cons.2 ⟨fun hmem ↦ ?_, ih hrest⟩
    obtain ⟨other, hother, haddr⟩ := List.mem_map.1 hmem
    obtain ⟨front, back, rfl⟩ := List.append_of_mem hother
    obtain ⟨q, -, hback⟩ := hrest.split
    -- from the link that is met again on there would be two lists, one longer than the other
    have hq : q = p := by rw [hback.1, hp, haddr]
    have heq := congrArg List.length (h.unique (hq ▸ hback))
    simp only [List.length_cons, List.length_append] at heq
    omega

theorem length_le (h : Seg heap p cells none) : cells.length ≤ heap.next := by
  have hsub : cells.map Prod.fst ⊆ List.range heap.next := fun addr haddr ↦
    List.mem_range.2 (h.lt_next haddr)
  have hle := (h.nodup.subperm hsub).length_le
  rwa [List.length_map, List.length_range] at hle

/-- A pointer is null at the end of a list only. -/
theorem eq_nil_iff (h : Seg heap p cells none) : cells = [] ↔ p = none := by
  cases cells with
  | nil => exact iff_of_true rfl h
  | cons cell cells => exact iff_of_false nofun fun hp ↦ absurd (hp.symm.trans h.1) nofun

theorem frame (h : Seg heap p cells q) (hframe : heap.Frame heap') : Seg heap' p cells q :=
  h.congr fun _ hcell ↦
    hframe.blocks_eq _ (h.lt_next (List.mem_map_of_mem hcell))

/-! ## What the operations do -/

theorem nextr (h : Seg heap p (cell :: cells) q) :
    ∃ next, heap.nextr (some cell.1) = some next ∧ Seg heap next cells q := by
  obtain ⟨-, next, hcell, hrest⟩ := h
  refine ⟨next, ?_, hrest⟩
  rw [Links.nextr, Option.bind_some, hcell, Option.map_some]

/-- Behind a link of a list there is the next one, or none. -/
theorem nextr_middle (h : Seg heap p (cells ++ cell :: cells') none) :
    heap.nextr (some cell.1) = some (cells'.map Prod.fst).head? := by
  obtain ⟨q, -, hright⟩ := h.split
  obtain ⟨next, hnext, hrest⟩ := hright.nextr
  rw [hnext, hrest.eq_head]

/-- A change of the data of a link. -/
theorem setData (h : Seg heap p (cells ++ cell :: cells') none) (f : α → α) :
    Seg (heap.modify cell.1 fun link ↦ { link with data := f link.data }) p
      (cells ++ (cell.1, f cell.2) :: cells') none := by
  have hnodup := h.nodup
  rw [List.map_append, List.map_cons, List.nodup_middle, List.nodup_cons, List.mem_append,
    not_or] at hnodup
  obtain ⟨⟨hfront, hback⟩, -⟩ := hnodup
  have hne {list : List (ℕ × α)} (hlist : cell.1 ∉ list.map Prod.fst) :
      ∀ other ∈ list, other.1 ≠ cell.1 := by
    rintro other hother heq
    exact hlist (heq ▸ List.mem_map_of_mem hother)
  obtain ⟨q, hleft, hp, next, hcell, hright⟩ := h.split
  refine (hleft.congr fun other hother ↦ ?_).append
    ⟨hp, next, ?_, hright.congr fun other hother ↦ ?_⟩
  · exact Links.blocks_modify_of_ne _ heap (hne hfront other hother)
  · exact Links.blocks_modify_self _ hcell
  · exact Links.blocks_modify_of_ne _ heap (hne hback other hother)

/-- Another list behind the last link. -/
theorem setNext (h : Seg heap p (cells ++ [cell]) none) {next : Option ℕ}
    (hnext : Seg heap next cells' none) (hdisjoint : cell.1 ∉ cells'.map Prod.fst) :
    Seg (heap.modify cell.1 fun link ↦ { link with lnext := next }) p
      (cells ++ cell :: cells') none := by
  have hnodup := h.nodup
  rw [List.map_append, List.map_cons, List.nodup_middle, List.nodup_cons, List.map_nil,
    List.append_nil] at hnodup
  have hne {list : List (ℕ × α)} (hlist : cell.1 ∉ list.map Prod.fst) :
      ∀ other ∈ list, other.1 ≠ cell.1 := by
    rintro other hother heq
    exact hlist (heq ▸ List.mem_map_of_mem hother)
  obtain ⟨q, hleft, hp, last, hcell, -⟩ := h.split
  refine (hleft.congr fun other hother ↦ ?_).append
    ⟨hp, next, ?_, hnext.congr fun other hother ↦ ?_⟩
  · exact Links.blocks_modify_of_ne _ heap (hne hnodup.1 other hother)
  · exact Links.blocks_modify_self _ hcell
  · exact Links.blocks_modify_of_ne _ heap (hne hdisjoint other hother)

/-- A list without links that are not its own. -/
theorem without (h : Seg heap p cells q) {addrs : List ℕ}
    (haddrs : ∀ addr ∈ addrs, addr ∉ cells.map Prod.fst) : Seg (heap.without addrs) p cells q :=
  h.congr fun _ hcell ↦ Heap.blocks_without_of_notMem fun hmem ↦
    haddrs _ hmem (List.mem_map_of_mem hcell)

theorem destroyLoop (h : Seg heap p cells none) {n : ℕ} (hn : cells.length ≤ n) :
    Links.destroyLoop n p heap = some (heap.without (cells.map Prod.fst)) := by
  induction cells generalizing p heap n with
  | nil =>
    obtain rfl : p = none := h
    cases n <;> rw [Links.destroyLoop, List.map_nil, Heap.without_nil]
  | cons cell cells ih =>
    obtain ⟨n, rfl⟩ := Nat.exists_eq_add_of_le' (show 1 ≤ n by rw [List.length_cons] at hn; omega)
    have hnodup := h.nodup
    obtain ⟨next, hnext, hrest⟩ := h.nextr
    obtain rfl : p = some cell.1 := h.1
    have hfree : heap.free cell.1 = some (heap.without [cell.1]) :=
      if_pos (h.blocks List.mem_cons_self)
    have hrest' : Seg (heap.without [cell.1]) next cells none :=
      hrest.without fun addr haddr ↦ by
        rw [List.mem_singleton.1 haddr]
        exact (List.nodup_cons.1 hnodup).1
    rw [Links.destroyLoop, hnext, Option.bind_some, hfree, Option.bind_some,
      ih hrest' (by rw [List.length_cons] at hn; omega), Heap.without_without, List.map_cons]
    rfl

/-- A list is freed. -/
theorem destroy (h : Seg heap p cells none) :
    heap.destroy p = some (heap.without (cells.map Prod.fst)) := h.destroyLoop h.length_le

theorem lastLoop (h : Seg heap p cells none) {n : ℕ} (hn : cells.length ≤ n) (last : Option ℕ) :
    heap.lastLoop n p last = some ((cells.map Prod.fst).getLast?.or last) := by
  induction cells generalizing p n last with
  | nil =>
    obtain rfl : p = none := h
    cases n <;> rfl
  | cons cell cells ih =>
    obtain ⟨n, rfl⟩ := Nat.exists_eq_add_of_le' (show 1 ≤ n by rw [List.length_cons] at hn; omega)
    obtain ⟨next, hnext, hrest⟩ := h.nextr
    obtain rfl : p = some cell.1 := h.1
    rw [Links.lastLoop, hnext, Option.bind_some,
      ih hrest (by rw [List.length_cons] at hn; omega), List.map_cons, List.getLast?_cons]
    cases (cells.map Prod.fst).getLast? <;> rfl

/-- The last link of a list is found. -/
theorem last (h : Seg heap p cells none) : heap.last p = some (cells.map Prod.fst).getLast? := by
  rw [Links.last, h.lastLoop h.length_le, Option.or_none]

end Seg

/-! ## New lists -/

/-- A list of which each link was given after a heap, on a heap that has what was there before. -/
structure NewList (base heap : Links α) (p : Option ℕ) (cells : List (ℕ × α)) : Prop where
  seg : Seg heap p cells none
  frame : base.Frame heap
  le_addr : ∀ cell ∈ cells, base.next ≤ cell.1

namespace NewList

variable {base heap heap' : Links α} {p q : Option ℕ} {cell : ℕ × α} {cells cells' : List (ℕ × α)}

theorem nil (h : base.Frame heap) : NewList base heap none [] := ⟨rfl, h, List.forall_mem_nil _⟩

/-- Any list is new on the heap before all others. -/
theorem of_seg (h : Seg heap p cells none) : NewList .empty heap p cells :=
  ⟨h, ⟨Nat.zero_le _, fun _ hlt ↦ absurd hlt (Nat.not_lt_zero _)⟩, fun _ _ ↦ Nat.zero_le _⟩

/-- One new link. -/
theorem alloc (h : base.Frame heap) (data : α) :
    NewList base (heap.alloc ⟨data, none⟩) (some heap.next) [(heap.next, data)] where
  seg := ⟨rfl, none, Heap.blocks_alloc_next heap _, rfl⟩
  frame := h.trans (.alloc heap _)
  le_addr := List.forall_mem_singleton.2 h.next_le

theorem le_of_mem (h : NewList base heap p cells) {addr : ℕ} (haddr : addr ∈ cells.map Prod.fst) :
    base.next ≤ addr := by
  obtain ⟨cell, hcell, rfl⟩ := List.mem_map.1 haddr
  exact h.le_addr cell hcell

/-- What was there before is not in a new list. -/
theorem notMem (h : NewList base heap p cells) {addr : ℕ} (haddr : addr < base.next) :
    addr ∉ cells.map Prod.fst := fun hmem ↦ Nat.not_le.2 haddr (h.le_of_mem hmem)

/-- The heap goes on. -/
theorem mono (h : NewList base heap p cells) (hframe : heap.Frame heap') :
    NewList base heap' p cells := ⟨h.seg.frame hframe, h.frame.trans hframe, h.le_addr⟩

/-- The data of a link are changed. -/
theorem setData (h : NewList base heap p (cells ++ cell :: cells')) (f : α → α) :
    ∃ heap', heap.setData (some cell.1) f = some heap' ∧
      NewList base heap' p (cells ++ (cell.1, f cell.2) :: cells') := by
  obtain ⟨q, -, -, next, hcell, -⟩ := h.seg.split
  refine ⟨_, Links.update_some _ hcell, h.seg.setData f, ?_, fun other hother ↦ ?_⟩
  · exact h.frame.modify (h.le_addr cell (by simp)) _
  · rcases List.mem_append.1 hother with hmem | hmem
    · exact h.le_addr other (List.mem_append_left _ hmem)
    rcases List.mem_cons.1 hmem with rfl | hmem
    · exact h.le_addr cell (by simp)
    · exact h.le_addr other (by simp [hmem])

/-- A list is put behind the last link. -/
theorem setNext (h : NewList base heap p (cells ++ [cell])) (h' : NewList heap heap' q cells') :
    ∃ heap'', heap'.setNext (some cell.1) q = some heap'' ∧
      NewList base heap'' p (cells ++ cell :: cells') := by
  have hlt : cell.1 < heap.next := h.seg.lt_next (by simp)
  have hseg := h.seg.frame h'.frame
  obtain ⟨r, -, -, next, hcell, -⟩ := hseg.split
  refine ⟨_, Links.update_some _ hcell, hseg.setNext h'.seg (h'.notMem hlt), ?_,
    fun other hother ↦ ?_⟩
  · exact (h.frame.trans h'.frame).modify (h.le_addr cell (by simp)) _
  · rw [← List.singleton_append, ← List.append_assoc] at hother
    rcases List.mem_append.1 hother with hmem | hmem
    · exact h.le_addr other hmem
    · exact Nat.le_trans h.frame.next_le (h'.le_addr other hmem)

/-- A new link behind the last one. -/
theorem append_alloc (h : NewList base heap p (cells ++ [cell])) (data : α) :
    ∃ heap', Links.setNext (some cell.1) (some heap.next) (heap.alloc ⟨data, none⟩) = some heap' ∧
      NewList base heap' p (cells ++ [cell] ++ [(heap.next, data)]) := by
  obtain ⟨heap', hset, hlist⟩ := h.setNext (alloc (.refl heap) data)
  exact ⟨heap', hset, by simpa using hlist⟩

/-- A new list is freed. -/
theorem destroy (h : NewList base heap p cells) :
    ∃ heap', heap.destroy p = some heap' ∧ base.Frame heap' ∧
      heap' = heap.without (cells.map Prod.fst) :=
  ⟨_, h.seg.destroy, h.frame.without fun _ ↦ h.le_of_mem, rfl⟩

/-- The first link is taken off and freed. -/
theorem dropFirst (h : NewList base heap p (cell :: cells)) {next : Option ℕ}
    (hcell : heap.blocks cell.1 = some ⟨cell.2, next⟩) :
    ∃ heap' heap'', heap.setNext p none = some heap' ∧ heap'.destroy p = some heap'' ∧
      NewList base heap'' next cells := by
  obtain ⟨rfl, next', hcell', hrest⟩ := h.seg
  obtain rfl : next = next' := congrArg Link.lnext (Option.some.inj (hcell.symm.trans hcell'))
  have hnotMem : cell.1 ∉ cells.map Prod.fst := (List.nodup_cons.1 h.seg.nodup).1
  have hrest' : Seg (heap.modify cell.1 fun link ↦ { link with lnext := none }) next cells none :=
    hrest.congr fun other hother ↦ Links.blocks_modify_of_ne _ heap
      fun heq ↦ hnotMem (heq ▸ List.mem_map_of_mem hother)
  have hone : Seg (heap.modify cell.1 fun link ↦ { link with lnext := none }) (some cell.1)
      [cell] none := ⟨rfl, none, Links.blocks_modify_self _ hcell, rfl⟩
  refine ⟨_, _, Links.update_some _ hcell, hone.destroy, ?_, ?_, ?_⟩
  · exact hrest'.without fun addr haddr ↦ by
      rw [List.map_cons, List.map_nil, List.mem_singleton] at haddr
      rwa [haddr]
  · exact (h.frame.modify (h.le_addr cell List.mem_cons_self) _).without
      (List.forall_mem_singleton.2 (h.le_addr cell List.mem_cons_self))
  · exact fun other hother ↦ h.le_addr other (List.mem_cons_of_mem _ hother)

end NewList

end Lib
