import Mathlib.Data.List.Basic
import Mathlib.Data.List.Nodup

/-!
# Reference counters

Objects in memory with a counter each.  `Counted` says that there is an object behind every
reference and that its counter is the number of references to it.  A new object, a reference that is
taken or given back, and an object that is freed behind its last reference keep this.
-/

namespace Lib

variable {α : Type*}

/-- The object at an address; none if nothing is there, or nothing any more. -/
def objectAt (memory : List (Option α)) (i : Nat) : Option α := memory[i]?.join

/-- The counters of the objects are the numbers of the references to them. -/
structure Counted (count : α → Int) (memory : List (Option α)) (refs : List Nat) : Prop where
  counts : ∀ i x, objectAt memory i = some x → count x = refs.count i
  lives : ∀ i ∈ refs, ∃ x, objectAt memory i = some x

section

variable {memory : List (Option α)} {i j : Nat} {x y : α} {o : Option α}

theorem lt_of_objectAt (h : objectAt memory i = some x) : i < memory.length := by
  rw [objectAt, Option.join_eq_some_iff] at h
  exact (List.getElem?_eq_some_iff.1 h).1

theorem objectAt_set_self (h : i < memory.length) (o : Option α) :
    objectAt (memory.set i o) i = o := by
  rw [objectAt, List.getElem?_set_self h]
  rfl

theorem objectAt_set_ne (h : i ≠ j) (o : Option α) :
    objectAt (memory.set i o) j = objectAt memory j := by
  rw [objectAt, List.getElem?_set_ne h, objectAt]

theorem objectAt_append_self (memory : List (Option α)) (x : α) :
    objectAt (memory ++ [some x]) memory.length = some x := by
  rw [objectAt, List.getElem?_concat_length]
  rfl

theorem objectAt_append_ne (h : i ≠ memory.length) (x : α) :
    objectAt (memory ++ [some x]) i = objectAt memory i := by
  rw [objectAt, objectAt]
  rcases Nat.lt_or_gt_of_ne h with hlt | hlt
  · rw [List.getElem?_append_left hlt]
  · rw [List.getElem?_eq_none (by rw [List.length_append, List.length_singleton]; omega),
      List.getElem?_eq_none (Nat.le_of_lt hlt)]

end

namespace Counted

variable {count : α → Int} {memory : List (Option α)} {refs refs' : List Nat} {i : Nat} {x y : α}

theorem perm (h : Counted count memory refs) (hrefs : refs.Perm refs') :
    Counted count memory refs' where
  counts j x hx := by
    rw [h.counts j x hx, hrefs.count_eq]
  lives j hj := h.lives j (hrefs.mem_iff.2 hj)

theorem pos (h : Counted count memory refs) (hx : objectAt memory i = some x) (hi : i ∈ refs) :
    0 < count x := by
  rw [h.counts i x hx]
  exact Int.natCast_pos.2 (List.count_pos_iff.2 hi)

/-- A new object with one reference. -/
theorem alloc (h : Counted count memory refs) (hx : count x = 1) :
    Counted count (memory ++ [some x]) (memory.length :: refs) where
  counts j y hy := by
    by_cases hj : j = memory.length
    · rw [hj, objectAt_append_self] at hy
      cases hy
      have hnew : memory.length ∉ refs := fun hmem ↦ by
        obtain ⟨_, hold⟩ := h.lives _ hmem
        exact absurd (lt_of_objectAt hold) (Nat.lt_irrefl _)
      rw [hj, List.count_cons_self, List.count_eq_zero.2 hnew, hx]
      rfl
    · rw [objectAt_append_ne hj] at hy
      rw [h.counts j y hy, List.count_cons_of_ne (Ne.symm hj)]
  lives j hj := by
    rcases List.mem_cons.1 hj with rfl | hj
    · exact ⟨x, objectAt_append_self memory x⟩
    · obtain ⟨y, hy⟩ := h.lives j hj
      exact ⟨y, (objectAt_append_ne (Nat.ne_of_lt (lt_of_objectAt hy)) x).trans hy⟩

/-- An object is changed, and the references with it. -/
theorem set (h : Counted count memory refs) (hx : objectAt memory i = some x)
    (hself : count y = refs'.count i) (hcount : ∀ j, j ≠ i → refs'.count j = refs.count j) :
    Counted count (memory.set i (some y)) refs' where
  counts j z hz := by
    by_cases hj : j = i
    · rw [hj, objectAt_set_self (lt_of_objectAt hx)] at hz
      cases hz
      rw [hj, hself]
    · rw [objectAt_set_ne (Ne.symm hj)] at hz
      rw [h.counts j z hz, hcount j hj]
  lives j hj := by
    by_cases hji : j = i
    · exact ⟨y, hji ▸ objectAt_set_self (lt_of_objectAt hx) _⟩
    · obtain ⟨z, hz⟩ := h.lives j (List.count_pos_iff.1 (hcount j hji ▸ List.count_pos_iff.2 hj))
      exact ⟨z, (objectAt_set_ne (Ne.symm hji) _).trans hz⟩

theorem update (h : Counted count memory refs) (hx : objectAt memory i = some x)
    (hy : count y = count x) : Counted count (memory.set i (some y)) refs :=
  h.set hx (hy.trans (h.counts i x hx)) fun _ _ ↦ rfl

/-- A reference is taken. -/
theorem acquire (h : Counted count memory refs) (hx : objectAt memory i = some x)
    (hy : count y = count x + 1) : Counted count (memory.set i (some y)) (i :: refs) := by
  refine h.set hx ?_ fun j hj ↦ List.count_cons_of_ne (Ne.symm hj)
  rw [hy, h.counts i x hx, List.count_cons_self]
  rfl

/-- A reference is given back. -/
theorem release (h : Counted count memory (i :: refs)) (hx : objectAt memory i = some x)
    (hy : count y = count x - 1) : Counted count (memory.set i (some y)) refs := by
  refine h.set hx ?_ fun j hj ↦ (List.count_cons_of_ne (Ne.symm hj)).symm
  rw [hy, h.counts i x hx, List.count_cons_self, Int.natCast_add, Int.natCast_one,
    Int.add_sub_cancel]

/-- The last reference is given back, and the object is freed. -/
theorem releaseLast (h : Counted count memory (i :: refs)) (hx : objectAt memory i = some x)
    (hle : count x ≤ 1) : Counted count (memory.set i none) refs := by
  have hi : i ∉ refs := by
    have hcount := h.counts i x hx
    rw [List.count_cons_self, Int.natCast_add, Int.natCast_one] at hcount
    exact List.count_eq_zero.1 (by omega)
  constructor
  · intro j y hy
    have hj : j ≠ i := by
      rintro rfl
      rw [objectAt_set_self (lt_of_objectAt hx)] at hy
      cases hy
    rw [objectAt_set_ne (Ne.symm hj)] at hy
    rw [h.counts j y hy, List.count_cons_of_ne (Ne.symm hj)]
  · intro j hj
    obtain ⟨y, hy⟩ := h.lives j (List.mem_cons_of_mem i hj)
    have hji : i ≠ j := by
      rintro rfl
      exact hi hj
    exact ⟨y, (objectAt_set_ne hji none).trans hy⟩

end Counted

end Lib
