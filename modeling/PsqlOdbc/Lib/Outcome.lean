import Mathlib.Data.List.Basic

/-!
# Computations that may fail

What it says of the steps of a computation in `Except` that the whole comes to a value, and the rule
for a loop: something each round keeps, and something each round brings about for good.
-/

namespace Lib

universe u

variable {ε : Type*} {α β : Type u}

theorem bind_eq_ok {x : Except ε α} {f : α → Except ε β} {b : β} :
    x >>= f = .ok b ↔ ∃ a, x = .ok a ∧ f a = .ok b := by
  cases x with
  | error e =>
    constructor
    · intro h
      cases h
    · rintro ⟨a, h, -⟩
      cases h
  | ok a =>
    constructor
    · intro h
      exact ⟨a, rfl, h⟩
    · rintro ⟨a', h, h'⟩
      cases h
      exact h'

theorem map_eq_ok {x : Except ε α} {f : α → β} {b : β} :
    x.map f = .ok b ↔ ∃ a, x = .ok a ∧ f a = b := by
  cases x with
  | error e =>
    constructor
    · intro h
      cases h
    · rintro ⟨a, h, -⟩
      cases h
  | ok a =>
    constructor
    · intro h
      exact ⟨a, rfl, Except.ok.inj h⟩
    · rintro ⟨a', h, h'⟩
      cases h
      exact congrArg Except.ok h'

theorem foldlM_ok {f : β → α → Except ε β} {Inv : β → Prop} {Done : α → β → Prop} {as : List α}
    (hstep : ∀ a ∈ as, ∀ b b', Inv b → f b a = .ok b' →
      Inv b' ∧ Done a b' ∧ ∀ x, Done x b → Done x b')
    {b b' : β} (hb : Inv b) (h : as.foldlM f b = .ok b') :
    Inv b' ∧ (∀ a ∈ as, Done a b') ∧ ∀ x, Done x b → Done x b' := by
  induction as generalizing b with
  | nil =>
    cases h
    exact ⟨hb, List.forall_mem_nil _, fun x hx ↦ hx⟩
  | cons a as ih =>
    rw [List.foldlM_cons] at h
    obtain ⟨c, hc, hrest⟩ := bind_eq_ok.1 h
    obtain ⟨hinv, hdone, hkeep⟩ := hstep a List.mem_cons_self b c hb hc
    obtain ⟨hinv', hdone', hkeep'⟩ := ih (fun a ha ↦ hstep a (List.mem_cons_of_mem _ ha)) hinv hrest
    refine ⟨hinv', ?_, fun x hx ↦ hkeep' x (hkeep x hx)⟩
    rw [List.forall_mem_cons]
    exact ⟨hkeep' a hdone, hdone'⟩

end Lib
