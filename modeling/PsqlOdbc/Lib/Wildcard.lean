import Mathlib.Data.List.Forall2

/-!
# Patterns with wildcards

A pattern over any characters has wildcards for one character and for any number of them.  The
shortest texts that it matches show its other items: two patterns that match the same texts differ
in nothing but the places of the wildcards for any number (`core_eq_of_matches`).
-/

namespace Lib

/-- An item of a pattern. -/
inductive Wildcard (α : Type*)
  /-- Any number of characters. -/
  | any
  | one
  | lit (c : α)
  deriving DecidableEq

namespace Wildcard

variable {α : Type*}

/-- The texts that a pattern matches. -/
def Matches : List (Wildcard α) → List α → Prop
  | [], name => name = []
  | any :: items, name => ∃ pre rest, name = pre ++ rest ∧ Matches items rest
  | one :: items, name => ∃ c rest, name = c :: rest ∧ Matches items rest
  | lit c :: items, name => ∃ rest, name = c :: rest ∧ Matches items rest

/-- What has to stand in a text for one character each: any one, or a certain one. -/
def core : List (Wildcard α) → List (Option α)
  | [] => []
  | any :: items => core items
  | one :: items => none :: core items
  | lit c :: items => some c :: core items

section

variable {items items' : List (Wildcard α)} {name : List α} {valid : α → Prop} {x y : α}

theorem core_append (items items' : List (Wildcard α)) :
    core (items ++ items') = core items ++ core items' := by
  induction items with
  | nil => rfl
  | cons item items ih =>
    cases item with
    | any => exact ih
    | one => exact congrArg (none :: ·) ih
    | lit c => exact congrArg (some c :: ·) ih

theorem mem_core {c : α} (h : some c ∈ core items) : lit c ∈ items := by
  induction items with
  | nil => cases h
  | cons item items ih =>
    cases item with
    | any => exact List.mem_cons_of_mem _ (ih h)
    | one =>
      rcases List.mem_cons.1 h with h | h
      · cases h
      · exact List.mem_cons_of_mem _ (ih h)
    | lit d =>
      rcases List.mem_cons.1 h with h | h
      · cases h
        exact List.mem_cons_self
      · exact List.mem_cons_of_mem _ (ih h)

/-- The shortest texts: nothing for the wildcards for any number. -/
theorem matches_core (items : List (Wildcard α)) (x : α) :
    Matches items ((core items).map (·.getD x)) := by
  induction items with
  | nil => rfl
  | cons item items ih =>
    cases item with
    | any => exact ⟨[], _, rfl, ih⟩
    | one => exact ⟨x, _, rfl, ih⟩
    | lit c => exact ⟨_, rfl, ih⟩

/-- A text is not shorter; if it is as long, it has the characters of the pattern. -/
theorem Matches.core_fits (h : Matches items name) :
    (core items).length ≤ name.length ∧ (name.length = (core items).length →
      List.Forall₂ (fun o c ↦ o = none ∨ o = some c) (core items) name) := by
  induction items generalizing name with
  | nil =>
    obtain rfl : name = [] := h
    exact ⟨Nat.le_refl _, fun _ ↦ .nil⟩
  | cons item items ih =>
    cases item with
    | any =>
      obtain ⟨pre, rest, rfl, h⟩ := h
      obtain ⟨hle, hfits⟩ := ih h
      rw [List.length_append, core]
      refine ⟨by omega, fun hlength ↦ ?_⟩
      have hpre : pre = [] := List.eq_nil_of_length_eq_zero (by omega)
      rw [hpre, List.nil_append]
      exact hfits (by omega)
    | one =>
      obtain ⟨c, rest, rfl, h⟩ := h
      obtain ⟨hle, hfits⟩ := ih h
      exact ⟨Nat.succ_le_succ hle, fun hlength ↦
        .cons (.inl rfl) (hfits (Nat.succ.inj hlength))⟩
    | lit c =>
      obtain ⟨rest, rfl, h⟩ := h
      obtain ⟨hle, hfits⟩ := ih h
      exact ⟨Nat.succ_le_succ hle, fun hlength ↦
        .cons (.inr rfl) (hfits (Nat.succ.inj hlength))⟩

/-- Two different texts for a character tell a wildcard from a character. -/
theorem eq_of_fits {o p : Option α} (hxy : x ≠ y) (hx : p = none ∨ p = some (o.getD x))
    (hy : p = none ∨ p = some (o.getD y)) (hx' : o = none ∨ o = some (p.getD x))
    (hy' : o = none ∨ o = some (p.getD y)) : o = p := by
  cases o with
  | none =>
    rcases hx with rfl | rfl
    · rfl
    · rcases hy with h | h
      · cases h
      · exact absurd (Option.some.inj h) hxy
  | some c =>
    rcases hx with rfl | rfl
    · rcases hx' with h | h
      · cases h
      · rcases hy' with h' | h'
        · cases h'
        · exact absurd (Option.some.inj (h.symm.trans h')) hxy
    · rfl

theorem Matches.core_at (h : Matches items' ((core items).map (·.getD x)))
    (hlength : (core items).length = (core items').length) {i : Nat}
    (hi : i < (core items).length) (hi' : i < (core items').length) :
    (core items')[i] = none ∨ (core items')[i] = some ((core items)[i].getD x) := by
  have hall := h.core_fits.2 (by rw [List.length_map, hlength])
  have hget := (List.forall₂_iff_get.1 hall).2 i hi' (by rw [List.length_map]; exact hi)
  simpa only [List.get_eq_getElem, List.getElem_map] using hget

/-- Patterns that match the same texts ask for the same characters. -/
theorem core_eq_of_matches (hxy : x ≠ y) (hx : valid x) (hy : valid y)
    (hitems : ∀ c, lit c ∈ items → valid c) (hitems' : ∀ c, lit c ∈ items' → valid c)
    (h : ∀ name, (∀ c ∈ name, valid c) → (Matches items name ↔ Matches items' name)) :
    core items = core items' := by
  have hvalid : ∀ (items : List (Wildcard α)) (z : α), valid z →
      (∀ c, lit c ∈ items → valid c) → ∀ c ∈ (core items).map (·.getD z), valid c := by
    intro items z hz hlit c hc
    obtain ⟨o, ho, rfl⟩ := List.mem_map.1 hc
    cases o with
    | none => exact hz
    | some d => exact hlit d (mem_core ho)
  have hto : ∀ z, valid z → Matches items' ((core items).map (·.getD z)) := fun z hz ↦
    (h _ (hvalid items z hz hitems)).1 (matches_core items z)
  have hfrom : ∀ z, valid z → Matches items ((core items').map (·.getD z)) := fun z hz ↦
    (h _ (hvalid items' z hz hitems')).2 (matches_core items' z)
  have hlength : (core items).length = (core items').length := by
    have hle := (hto x hx).core_fits.1
    have hge := (hfrom x hx).core_fits.1
    rw [List.length_map] at hle hge
    omega
  refine List.ext_getElem hlength fun i hi hi' ↦ ?_
  exact eq_of_fits hxy ((hto x hx).core_at hlength hi hi') ((hto y hy).core_at hlength hi hi')
    ((hfrom x hx).core_at hlength.symm hi' hi) ((hfrom y hy).core_at hlength.symm hi' hi)

end

end Wildcard

end Lib
