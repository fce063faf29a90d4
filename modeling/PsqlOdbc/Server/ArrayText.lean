import PsqlOdbc.Convert.Identifiers

/-!
# Arrays as PostgreSQL prints them

The elements stand between braces, with commas between them.  An element is quoted where it could be
misread, with backslashes before quotes and backslashes.
-/

namespace PsqlOdbc

/-- PostgreSQL quotes an element of an array. -/
def needsQuote (name : List UInt8) : Bool :=
  name = [] || stricmpEq name (ascii "null") ||
    name.any fun c ↦ isSpace c || c = 34 || c = 92 || c = 123 || c = 125 || c = 44

/-- With backslashes before quotes and backslashes. -/
def escapeElement (name : List UInt8) : List UInt8 :=
  name.flatMap fun c ↦ if c = 34 ∨ c = 92 then [92, c] else [c]

/-- An element of an array. -/
def elementText (name : List UInt8) : List UInt8 :=
  if needsQuote name then [34] ++ escapeElement name ++ [34] else name

/-- The text of an array. -/
def arrayText (elements : List (List UInt8)) : List UInt8 :=
  [123] ++ [44].intercalate elements ++ [125]

/-- The text behind an element, where `e` stands behind the last one. -/
def behindElement (sep : UInt8) (e : List UInt8) (elements : List (List UInt8)) : List UInt8 :=
  elements.flatMap (fun element ↦ sep :: element) ++ e

variable {sep : UInt8} {e : List UInt8} {elements : List (List UInt8)}

theorem intercalate_append (element : List UInt8) :
    [sep].intercalate (element :: elements) ++ e = element ++ behindElement sep e elements := by
  induction elements generalizing element with
  | nil => simp [behindElement]
  | cons next elements ih =>
    rw [List.intercalate_cons_cons, List.append_assoc, List.append_assoc, ih]
    simp [behindElement]

theorem arrayText_cons (element : List UInt8) (elements : List (List UInt8)) :
    arrayText (element :: elements) = 123 :: (element ++ behindElement 44 [125] elements) := by
  rw [arrayText, List.append_assoc, intercalate_append]
  rfl

/-- Characters that need no quotes. -/
theorem notMem_of_not_needsQuote {name : List UInt8} (h : needsQuote name = false) :
    name ≠ [] ∧ ∀ c ∈ name, isSpace c = false ∧ c ≠ 34 ∧ c ≠ 92 ∧ c ≠ 125 ∧ c ≠ 44 := by
  simp only [needsQuote, Bool.or_eq_false_iff, decide_eq_false_iff_not, List.any_eq_false] at h
  refine ⟨h.1.1, fun c hc ↦ ?_⟩
  have hchars := h.2 c hc
  simp only [Bool.or_eq_true, decide_eq_true_eq, not_or, Bool.not_eq_true] at hchars
  obtain ⟨⟨⟨⟨⟨hspace, hquote⟩, hslash⟩, -⟩, hbrace⟩, hcomma⟩ := hchars
  exact ⟨hspace, hquote, hslash, hbrace, hcomma⟩

end PsqlOdbc
