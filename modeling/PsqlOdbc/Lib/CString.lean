import Mathlib.Data.List.Basic
import Mathlib.Data.List.TakeWhile

/-!
# Strings in memory

The functions of C's string library on a piece of memory, a list of bytes; pointers are
positions in it.  An access behind the end of the memory is `none`, so that a program that
makes one has no result.  Each function comes with what it finds in memory whose contents
around the position are known.
-/

namespace Lib

/-- The first position from `p` on that holds a byte with `stop`; the list is the memory from
`p` on. -/
def findByte (stop : UInt8 → Bool) : List UInt8 → Nat → Option Nat
  | [], _ => none
  | b :: bs, p => if stop b then some p else findByte stop bs (p + 1)

/-- `strchr`: where the string at `p` has a byte, if it has. -/
def strchr (mem : List UInt8) (p : Nat) (c : UInt8) : Option (Option Nat) :=
  (findByte (fun b ↦ b = c || b = 0) (mem.drop p) p).map fun j ↦
    if mem.getD j 0 = c then some j else none

/-- The string at `p`. -/
def cstr (mem : List UInt8) (p : Nat) : Option (List UInt8) :=
  (findByte (fun b ↦ b = 0) (mem.drop p) p).map fun j ↦ (mem.drop p).take (j - p)

/-- `strtok` with a single delimiter, from `p` on: the token, the memory with the delimiter
behind it overwritten, and where the next call goes on. -/
def strtok (mem : List UInt8) (p : Nat) (delim : UInt8) :
    Option (Option Nat × List UInt8 × Nat) :=
  (findByte (fun b ↦ b ≠ delim) (mem.drop p) p).bind fun tok ↦
    if mem.getD tok 0 = 0 then some (none, mem, tok)
    else (findByte (fun b ↦ b = delim || b = 0) (mem.drop tok) tok).map fun e ↦
      if mem.getD e 0 = 0 then (some tok, mem, e) else (some tok, mem.set e 0, e + 1)

section

variable {stop : UInt8 → Bool} {A u w : List UInt8} {b c : UInt8}

theorem findByte_append (hu : ∀ b ∈ u, stop b = false) (hb : stop b = true) (p : Nat) :
    findByte stop (u ++ b :: w) p = some (p + u.length) := by
  induction u generalizing p with
  | nil => rw [List.nil_append, findByte, if_pos hb]; rfl
  | cons a u ih =>
    rw [List.cons_append, findByte, hu a List.mem_cons_self, if_neg Bool.false_ne_true,
      ih (fun b h ↦ hu b (List.mem_cons_of_mem _ h)), List.length_cons]
    congr 1
    omega

@[simp] theorem getD_length_append : (A ++ b :: w).getD A.length 0 = b := by
  rw [List.getD_eq_getElem?_getD, List.getElem?_append_right (Nat.le_refl _), Nat.sub_self]
  rfl

@[simp] theorem getElem?_length_append : (A ++ b :: w)[A.length]? = some b := by
  rw [List.getElem?_append_right (Nat.le_refl _), Nat.sub_self]
  rfl

@[simp] theorem set_length_append : (A ++ b :: w).set A.length c = A ++ c :: w := by
  rw [List.set_append_right _ _ (Nat.le_refl _), Nat.sub_self]
  rfl

@[simp] theorem drop_length_append : (A ++ w).drop A.length = w := List.drop_left

/-- The byte is there. -/
theorem strchr_found (hu : ∀ b ∈ u, b ≠ c ∧ b ≠ 0) :
    strchr (A ++ (u ++ c :: w)) A.length c = some (some (A.length + u.length)) := by
  have hstop : ∀ b ∈ u, (decide (b = c) || decide (b = 0)) = false := fun b hb ↦ by
    simp [(hu b hb).1, (hu b hb).2]
  have hget : (A ++ (u ++ c :: w)).getD (A.length + u.length) 0 = c := by
    rw [← List.append_assoc, ← List.length_append, getD_length_append]
  rw [strchr, drop_length_append, findByte_append hstop (by simp), Option.map_some, hget,
    if_pos rfl]

/-- The string ends without it. -/
theorem strchr_null (hc : c ≠ 0) (hu : ∀ b ∈ u, b ≠ c ∧ b ≠ 0) :
    strchr (A ++ (u ++ 0 :: w)) A.length c = some none := by
  have hstop : ∀ b ∈ u, (decide (b = c) || decide (b = 0)) = false := fun b hb ↦ by
    simp [(hu b hb).1, (hu b hb).2]
  have hget : (A ++ (u ++ 0 :: w)).getD (A.length + u.length) 0 = 0 := by
    rw [← List.append_assoc, ← List.length_append, getD_length_append]
  rw [strchr, drop_length_append, findByte_append hstop (by simp), Option.map_some, hget,
    if_neg (Ne.symm hc)]

theorem cstr_eq (hu : 0 ∉ u) : cstr (A ++ (u ++ 0 :: w)) A.length = some u := by
  have hstop : ∀ b ∈ u, decide (b = 0) = false := fun b hb ↦
    decide_eq_false fun h ↦ hu (h ▸ hb)
  rw [cstr, drop_length_append, findByte_append hstop (by simp), Option.map_some,
    Nat.add_sub_cancel_left, List.take_left]

/-- A token that a delimiter ends. -/
theorem strtok_delim {ds : List UInt8} {delim : UInt8} (hd : delim ≠ 0) (hds : ∀ b ∈ ds, b = delim)
    (hu : ∀ b ∈ u, b ≠ delim ∧ b ≠ 0) (hne : u ≠ []) :
    strtok (A ++ (ds ++ (u ++ delim :: w))) A.length delim =
      some (some (A ++ ds).length, A ++ (ds ++ (u ++ 0 :: w)), (A ++ ds ++ u).length + 1) := by
  obtain ⟨a, u, rfl⟩ := List.exists_cons_of_ne_nil hne
  have ha := hu a List.mem_cons_self
  have hskip : ∀ b ∈ ds, decide (b ≠ delim) = false := fun b hb ↦
    decide_eq_false (not_not.2 (hds b hb))
  have hstop : ∀ b ∈ a :: u, (decide (b = delim) || decide (b = 0)) = false := fun b hb ↦ by
    simp [(hu b hb).1, (hu b hb).2]
  have hmem : A ++ (ds ++ (a :: u ++ delim :: w)) = A ++ ds ++ (a :: u ++ delim :: w) := by
    rw [List.append_assoc]
  rw [strtok, drop_length_append, List.cons_append,
    findByte_append hskip (decide_eq_true ha.1), Option.bind_some, ← List.length_append,
    ← List.cons_append, hmem, List.cons_append, getD_length_append, if_neg ha.2,
    drop_length_append, ← List.cons_append, findByte_append hstop (by simp), Option.map_some,
    ← List.append_assoc, ← List.length_append, getD_length_append, if_neg hd, set_length_append]
  simp only [List.append_assoc]

/-- A token at the end of the string. -/
theorem strtok_last {ds : List UInt8} {delim : UInt8} (hds : ∀ b ∈ ds, b = delim)
    (hu : ∀ b ∈ u, b ≠ delim ∧ b ≠ 0) (hne : u ≠ []) :
    strtok (A ++ (ds ++ (u ++ 0 :: w))) A.length delim =
      some (some (A ++ ds).length, A ++ (ds ++ (u ++ 0 :: w)), (A ++ ds ++ u).length) := by
  obtain ⟨a, u, rfl⟩ := List.exists_cons_of_ne_nil hne
  have ha := hu a List.mem_cons_self
  have hskip : ∀ b ∈ ds, decide (b ≠ delim) = false := fun b hb ↦
    decide_eq_false (not_not.2 (hds b hb))
  have hstop : ∀ b ∈ a :: u, (decide (b = delim) || decide (b = 0)) = false := fun b hb ↦ by
    simp [(hu b hb).1, (hu b hb).2]
  have hmem : A ++ (ds ++ (a :: u ++ 0 :: w)) = A ++ ds ++ (a :: u ++ 0 :: w) := by
    rw [List.append_assoc]
  rw [strtok, drop_length_append, List.cons_append,
    findByte_append hskip (decide_eq_true ha.1), Option.bind_some, ← List.length_append,
    ← List.cons_append, hmem, List.cons_append, getD_length_append, if_neg ha.2,
    drop_length_append, ← List.cons_append, findByte_append hstop (by simp), Option.map_some,
    ← List.append_assoc, ← List.length_append, getD_length_append, if_pos rfl]

/-- No token is left. -/
theorem strtok_end {ds : List UInt8} {delim : UInt8} (hd : delim ≠ 0)
    (hds : ∀ b ∈ ds, b = delim) :
    strtok (A ++ (ds ++ 0 :: w)) A.length delim =
      some (none, A ++ (ds ++ 0 :: w), (A ++ ds).length) := by
  have hskip : ∀ b ∈ ds, decide (b ≠ delim) = false := fun b hb ↦
    decide_eq_false (not_not.2 (hds b hb))
  rw [strtok, drop_length_append, findByte_append hskip (decide_eq_true (Ne.symm hd)),
    Option.bind_some, ← List.length_append, ← List.append_assoc, getD_length_append, if_pos rfl]

end

/-- Splits at the first place a byte stands. -/
theorem exists_split (c : UInt8) (t : List UInt8) :
    c ∉ t ∨ ∃ u t', t = u ++ c :: t' ∧ c ∉ u := by
  by_cases h : c ∈ t
  · obtain ⟨u, t', rfl, hu⟩ := List.eq_append_cons_of_mem h
    exact Or.inr ⟨u, t', rfl, hu⟩
  · exact Or.inl h

/-- There is only one first place. -/
theorem split_unique {c : UInt8} {u v t w : List UInt8} (hu : c ∉ u) (hv : c ∉ v)
    (h : u ++ c :: t = v ++ c :: w) : u = v ∧ t = w := by
  induction u generalizing v with
  | nil =>
    cases v with
    | nil => exact ⟨rfl, (List.cons.inj h).2⟩
    | cons b v => exact absurd (List.cons.inj h).1 fun heq ↦ hv (heq ▸ List.mem_cons_self)
  | cons a u ih =>
    cases v with
    | nil => exact absurd (List.cons.inj h).1 fun heq ↦ hu (heq ▸ List.mem_cons_self)
    | cons b v =>
      obtain ⟨rfl, htail⟩ := List.cons.inj h
      obtain ⟨rfl, rfl⟩ :=
        ih (List.not_mem_of_not_mem_cons hu) (List.not_mem_of_not_mem_cons hv) htail
      exact ⟨rfl, rfl⟩

/-- Splits behind the delimiters a string starts with. -/
theorem exists_skip (c : UInt8) (t : List UInt8) :
    ∃ ds t', t = ds ++ t' ∧ (∀ b ∈ ds, b = c) ∧ t'.head? ≠ some c := by
  induction t with
  | nil => exact ⟨[], [], rfl, by simp, by simp⟩
  | cons b t ih =>
    by_cases hb : b = c
    · obtain ⟨ds, t', rfl, hds, hh⟩ := ih
      refine ⟨b :: ds, t', rfl, ?_, hh⟩
      rintro x (_ | ⟨_, hx⟩)
      · exact hb
      · exact hds x hx
    · exact ⟨[], b :: t, rfl, by simp, by simpa using hb⟩

end Lib
