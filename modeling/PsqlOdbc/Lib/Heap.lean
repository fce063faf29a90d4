import Mathlib.Data.List.Nodup
import Mathlib.Logic.Function.Basic

/-!
# Blocks of memory

A heap has blocks at numbers.  A number that was given is not given again, and to free what is not
there has no result, so that a run with a result frees no block twice.
-/

namespace Lib

/-- The blocks that are there, and the first number that was never given. -/
structure Heap (β : Type) where
  blocks : ℕ → Option β
  next : ℕ
  fresh : ∀ addr, next ≤ addr → blocks addr = none

namespace Heap

variable {β : Type}

/-- Nothing was given yet. -/
def empty : Heap β := ⟨fun _ ↦ none, 0, fun _ _ ↦ rfl⟩

/-- A new block, at `heap.next`. -/
def alloc (heap : Heap β) (block : β) : Heap β where
  blocks := Function.update heap.blocks heap.next (some block)
  next := heap.next + 1
  fresh addr h := by
    rw [Function.update_of_ne (by omega : addr ≠ heap.next)]
    exact heap.fresh addr (by omega)

/-- The heap without some of its blocks. -/
def without (heap : Heap β) (addrs : List ℕ) : Heap β where
  blocks addr := if addr ∈ addrs then none else heap.blocks addr
  next := heap.next
  fresh addr h := by rw [heap.fresh addr h, ite_self]

/-- `free` of a pointer that is not null. -/
def free (heap : Heap β) (addr : ℕ) : Option (Heap β) :=
  if (heap.blocks addr).isSome then some (heap.without [addr]) else none

/-- Blocks freed one after the other. -/
def freeAll : List ℕ → Heap β → Option (Heap β)
  | [], heap => some heap
  | addr :: addrs, heap => (heap.free addr).bind (freeAll addrs)

@[ext]
theorem ext' {heap heap' : Heap β} (hblocks : heap.blocks = heap'.blocks)
    (hnext : heap.next = heap'.next) : heap = heap' := by
  cases heap
  cases heap'
  cases hblocks
  cases hnext
  rfl

@[simp] theorem next_alloc (heap : Heap β) (block : β) : (heap.alloc block).next = heap.next + 1 :=
  rfl

@[simp] theorem blocks_alloc_next (heap : Heap β) (block : β) :
    (heap.alloc block).blocks heap.next = some block := Function.update_self ..

theorem blocks_alloc_of_ne {heap : Heap β} {addr : ℕ} (block : β) (h : addr ≠ heap.next) :
    (heap.alloc block).blocks addr = heap.blocks addr := Function.update_of_ne h ..

/-- What is there was given before. -/
theorem lt_next {heap : Heap β} {addr : ℕ} (h : (heap.blocks addr).isSome) : addr < heap.next := by
  by_contra hle
  rw [heap.fresh addr (by omega)] at h
  exact absurd h (by simp)

/-- A new block leaves those there are. -/
theorem blocks_alloc_of_isSome {heap : Heap β} {addr : ℕ} (block : β)
    (h : (heap.blocks addr).isSome) : (heap.alloc block).blocks addr = heap.blocks addr :=
  blocks_alloc_of_ne block (Nat.ne_of_lt (lt_next h))

theorem blocks_without_of_notMem {heap : Heap β} {addrs : List ℕ} {addr : ℕ} (h : addr ∉ addrs) :
    (heap.without addrs).blocks addr = heap.blocks addr := if_neg h

@[simp] theorem without_nil (heap : Heap β) : heap.without [] = heap := by
  ext addr : 2
  · exact blocks_without_of_notMem List.not_mem_nil
  · rfl

theorem without_without (heap : Heap β) (addrs addrs' : List ℕ) :
    (heap.without addrs).without addrs' = heap.without (addrs ++ addrs') := by
  ext addr : 2
  · by_cases h : addr ∈ addrs <;> by_cases h' : addr ∈ addrs' <;> simp [without, h, h']
  · rfl

theorem freeAll_append (addrs addrs' : List ℕ) (heap : Heap β) :
    freeAll (addrs ++ addrs') heap = (freeAll addrs heap).bind (freeAll addrs') := by
  induction addrs generalizing heap with
  | nil => rfl
  | cons addr addrs ih =>
    rw [List.cons_append, freeAll, freeAll, Option.bind_assoc]
    exact congrArg _ (funext ih)

theorem freeAll_singleton (addr : ℕ) (heap : Heap β) : freeAll [addr] heap = heap.free addr :=
  Option.bind_fun_some ..

/-- Different blocks that are there can be freed. -/
theorem freeAll_eq {addrs : List ℕ} {heap : Heap β} (hnodup : addrs.Nodup)
    (hsome : ∀ addr ∈ addrs, (heap.blocks addr).isSome) :
    freeAll addrs heap = some (heap.without addrs) := by
  induction addrs generalizing heap with
  | nil => rw [freeAll, without_nil]
  | cons addr addrs ih =>
    obtain ⟨hnotMem, hnodup⟩ := List.nodup_cons.1 hnodup
    have hrest : ∀ other ∈ addrs, ((heap.without [addr]).blocks other).isSome := by
      intro other hother
      rw [blocks_without_of_notMem]
      · exact hsome other (List.mem_cons_of_mem _ hother)
      · rw [List.mem_singleton]
        rintro rfl
        exact hnotMem hother
    rw [freeAll, free, if_pos (hsome addr List.mem_cons_self)]
    exact (ih hnodup hrest).trans (by rw [without_without]; rfl)

end Heap

end Lib
