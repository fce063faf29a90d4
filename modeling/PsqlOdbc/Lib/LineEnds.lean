import Mathlib.Data.List.Basic

/-!
# Line ends

A text in which each line feed without a carriage return in front of it has got one.  The text is
a list over any type of characters; what stands in front of it is a parameter, so that a text can
be taken piece by piece.
-/

namespace Lib

variable {α β : Type*}

/-- The last character of a text, or what is in front of it. -/
def lastOr (prev : Option α) (s : List α) : Option α := s.getLast?.or prev

theorem lastOr_cons (prev : Option α) (c : α) (s : List α) :
    lastOr prev (c :: s) = lastOr (some c) s := by
  rw [lastOr, lastOr, List.getLast?_cons]
  cases s.getLast? <;> rfl

variable [DecidableEq α] [DecidableEq β]

/-- Put a `cr` in front of each `lf` that has none; `prev` is the character in front. -/
def crlf (cr lf : α) : Option α → List α → List α
  | _, [] => []
  | prev, c :: s =>
    if c = lf ∧ prev ≠ some cr then cr :: c :: crlf cr lf (some c) s else c :: crlf cr lf (some c) s

/-- The places where a `cr` is put in, in the text that is made, from place `out` on. -/
def crPlaces (cr lf : α) : Option α → Nat → List α → List Nat
  | _, _, [] => []
  | prev, out, c :: s =>
    if c = lf ∧ prev ≠ some cr then out :: crPlaces cr lf (some c) (out + 2) s
    else crPlaces cr lf (some c) (out + 1) s

section

variable {cr lf : α} {prev : Option α}

theorem crlf_append (prev : Option α) (s t : List α) :
    crlf cr lf prev (s ++ t) = crlf cr lf prev s ++ crlf cr lf (lastOr prev s) t := by
  induction s generalizing prev with
  | nil => rfl
  | cons c s ih =>
    rw [List.cons_append, crlf, crlf, lastOr_cons, ih]
    split
    · rfl
    · rfl

/-- A text without line feeds. -/
theorem crlf_of_notMem {s : List α} (h : lf ∉ s) : crlf cr lf prev s = s := by
  induction s generalizing prev with
  | nil => rfl
  | cons c s ih =>
    rw [List.mem_cons, not_or] at h
    rw [crlf, if_neg fun hc ↦ h.1 hc.1.symm, ih h.2]

/-- What has been put in stays, and no more is put in. -/
theorem crlf_crlf (hne : cr ≠ lf) (prev : Option α) (s : List α) :
    crlf cr lf prev (crlf cr lf prev s) = crlf cr lf prev s := by
  induction s generalizing prev with
  | nil => rfl
  | cons c s ih =>
    rw [crlf]
    split
    · next h =>
      obtain ⟨rfl, -⟩ := h
      rw [crlf, if_neg fun h ↦ hne h.1, crlf, if_neg fun h ↦ h.2 rfl, ih]
    · next h => rw [crlf, if_neg h, ih]

theorem mem_crlf {c : α} {s : List α} (h : c ∈ crlf cr lf prev s) : c = cr ∨ c ∈ s := by
  induction s generalizing prev with
  | nil => cases h
  | cons d s ih =>
    rw [crlf] at h
    split at h
    · rcases List.mem_cons.1 h with rfl | h
      · exact Or.inl rfl
      · rcases List.mem_cons.1 h with rfl | h
        · exact Or.inr List.mem_cons_self
        · exact (ih h).imp id (List.mem_cons_of_mem d)
    · rcases List.mem_cons.1 h with rfl | h
      · exact Or.inr List.mem_cons_self
      · exact (ih h).imp id (List.mem_cons_of_mem d)

theorem length_crlf (prev : Option α) (out : Nat) (s : List α) :
    (crlf cr lf prev s).length = s.length + (crPlaces cr lf prev out s).length := by
  induction s generalizing prev out with
  | nil => rfl
  | cons c s ih =>
    rw [crlf, crPlaces]
    split
    · rw [List.length_cons, List.length_cons, List.length_cons, List.length_cons, ih _ (out + 2)]
      omega
    · rw [List.length_cons, List.length_cons, ih _ (out + 1)]
      omega

theorem le_of_mem_crPlaces {out p : Nat} {s : List α} (h : p ∈ crPlaces cr lf prev out s) :
    out ≤ p := by
  induction s generalizing prev out with
  | nil => cases h
  | cons c s ih =>
    rw [crPlaces] at h
    split at h
    · rcases List.mem_cons.1 h with rfl | h
      · exact Nat.le_refl _
      · exact Nat.le_trans (Nat.le_add_right _ 2) (ih h)
    · exact Nat.le_trans (Nat.le_add_right _ 1) (ih h)

/-- The text changes where something is put in. -/
theorem crlf_eq_self_iff (prev : Option α) (out : Nat) (s : List α) :
    crlf cr lf prev s = s ↔ crPlaces cr lf prev out s = [] := by
  constructor
  · intro h
    have hlength := @length_crlf _ _ cr lf prev out s
    rw [h] at hlength
    exact List.length_eq_zero_iff.1 (by omega)
  · intro h
    induction s generalizing prev out with
    | nil => rfl
    | cons c s ih =>
      rw [crPlaces] at h
      rw [crlf]
      split at h
      · cases h
      · next hc => rw [if_neg hc, ih _ _ h]

/-- A text and its encoding: line feeds and carriage returns have codes of their own, which no
other code has in it. -/
theorem crlf_flatMap {cr' lf' : β} {enc : α → List β} (hcr : enc cr = [cr']) (hlf : enc lf = [lf'])
    (hne : cr ≠ lf) (henc : ∀ c, c ≠ lf → lf' ∉ enc c)
    (hlast : ∀ c, c ≠ cr → (enc c).getLast? ≠ some cr' ∧ enc c ≠ []) (prev : Option α)
    (s : List α) :
    crlf cr' lf' (prev.bind fun c ↦ (enc c).getLast?) (s.flatMap enc) =
      (crlf cr lf prev s).flatMap enc := by
  have hprev : ∀ prev : Option α,
      (prev.bind fun c ↦ (enc c).getLast?) = some cr' ↔ prev = some cr := by
    intro prev
    cases prev with
    | none => exact ⟨fun h ↦ (nomatch h), fun h ↦ (nomatch h)⟩
    | some c =>
      rw [Option.bind_some, Option.some.injEq]
      constructor
      · intro h
        by_contra hc
        exact (hlast c hc).1 h
      · rintro rfl
        rw [hcr]
        rfl
  have hlastOr : ∀ (prev : Option β) (c : α), lastOr prev (enc c) = (enc c).getLast? := by
    intro prev c
    rw [lastOr]
    by_cases hc : c = cr
    · rw [hc, hcr]
      rfl
    · rw [List.getLast?_eq_some_getLast (hlast c hc).2]
      rfl
  induction s generalizing prev with
  | nil => rfl
  | cons c s ih =>
    have ih := ih (some c)
    rw [Option.bind_some] at ih
    rw [List.flatMap_cons, crlf_append, hlastOr, ih, crlf]
    by_cases hc : c = lf
    · subst hc
      rw [hlf, crlf, crlf]
      by_cases hp : prev = some cr
      · rw [if_neg fun h ↦ h.2 ((hprev prev).2 hp), if_neg fun h ↦ h.2 hp, List.flatMap_cons, hlf]
      · rw [if_pos ⟨rfl, fun h ↦ hp ((hprev prev).1 h)⟩, if_pos ⟨rfl, hp⟩, List.flatMap_cons,
          List.flatMap_cons, hlf, hcr]
        rfl
    · rw [crlf_of_notMem (henc c hc), if_neg fun h ↦ hc h.1, List.flatMap_cons]

end

end Lib
