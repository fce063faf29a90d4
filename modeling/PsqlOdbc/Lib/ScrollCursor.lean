import Mathlib.Data.List.Basic
import Mathlib.Order.Basic

/-!
# Cursors that scroll

A cursor goes over rows in blocks.  It is in front of the first row, at -1, or its block starts at
one of them, or it is behind the last one, at the number of the rows.  `ScrollCursor.move` is the
table of a cursor that scrolls, where the number of the rows is `n` and a block has `r` of them.
A cursor that does not get in front of the rows from everywhere goes astray (`Astray`): it finds
itself at the first of them.
-/

namespace Lib

/-- Which block is asked for. -/
inductive Scroll
  | next
  | prior
  | first
  | last
  | absolute (k : Int)
  | relative (k : Int)
  /-- The row `k` behind a marked one. -/
  | bookmark (mark k : Int)
  deriving DecidableEq, Repr

/-- Where the last block starts, and how many rows it has been asked for. -/
structure ScrollCursor where
  start : Int
  size : Int
  deriving DecidableEq, Repr

namespace ScrollCursor

variable (n r : Int)

/-- The place of a row, if it is not in front of the rows. -/
def clip (q : Int) : Int := if n ≤ q then n else q

/-- Back by a block from `p`. -/
def blockBack (p : Int) : Int := if p ≤ 0 then -1 else if p < r then 0 else p - r

/-- Back by `k` rows from `p`: a block that would overlap the first row starts there. -/
def rowsBack (p k : Int) : Int :=
  if k ≤ p then p - k else if p = 0 ∨ r < k then -1 else 0

variable (c : ScrollCursor)

/-- Where the block starts that is asked for. -/
def move : Scroll → Int
  | .next => clip n (if c.start < 0 then 0 else c.start + c.size)
  | .prior => blockBack r c.start
  | .first => clip n 0
  | .last => blockBack r n
  | .absolute k => if k = 0 then -1 else if 0 < k then clip n (k - 1) else rowsBack r n (-k)
  | .relative k =>
    if c.start < 0 then if k ≤ 0 then -1 else clip n (k - 1)
    else if 0 ≤ k then clip n (c.start + k)
    else rowsBack r c.start (-k)
  | .bookmark mark k => if mark + k < 0 then -1 else clip n (mark + k)

/-- The block would have to start in front of the first row, but it is not left out. -/
def short : Scroll → Bool
  | .prior => 0 < c.start ∧ c.start < r
  | .last => 0 < n ∧ n < r
  | .absolute k => k < 0 ∧ 0 < n ∧ n < -k
  | .relative k => k < 0 ∧ 0 < c.start ∧ c.start < -k
  | _ => false

/-- More than a block in front of the first row, or from in front of the rows with more than one. -/
def Astray : Scroll → Prop
  | .absolute k => 0 < n ∧ n < -k ∧ r < -k
  | .relative k => (c.start < 0 ∧ k ≤ 0 ∧ 1 < r) ∨ (0 < c.start ∧ c.start < -k ∧ r < -k)
  | _ => False

instance (scroll : Scroll) : Decidable (c.Astray n r scroll) := by
  cases scroll <;> unfold Astray <;> infer_instance

/-- Where a cursor that goes astray places the block. -/
def place (scroll : Scroll) : Int := if c.Astray n r scroll then 0 else c.move n r scroll

variable {n r c}

theorem clip_mem {q : Int} (hn : 0 ≤ n) (hq : -1 ≤ q) : -1 ≤ clip n q ∧ clip n q ≤ n := by
  unfold clip
  split_ifs <;> omega

theorem blockBack_mem {p : Int} (hr : 1 ≤ r) (hp : p ≤ n) (hn : 0 ≤ n) :
    -1 ≤ blockBack r p ∧ blockBack r p ≤ n := by
  unfold blockBack
  split_ifs <;> omega

theorem rowsBack_mem {p k : Int} (hk : 0 < k) (hp : p ≤ n) (hn : 0 ≤ n) :
    -1 ≤ rowsBack r p k ∧ rowsBack r p k ≤ n := by
  unfold rowsBack
  split_ifs <;> omega

/-- The cursor does not leave the rows by more than one. -/
theorem move_mem {scroll : Scroll} (hn : 0 ≤ n) (hr : 1 ≤ r)
    (hhi : c.start ≤ n) (hsize : 0 ≤ c.size ∨ c.start < 0) :
    -1 ≤ c.move n r scroll ∧ c.move n r scroll ≤ n := by
  cases scroll with
  | next => exact clip_mem hn (by split_ifs <;> omega)
  | prior => exact blockBack_mem hr hhi hn
  | first => exact clip_mem hn (by omega)
  | last => exact blockBack_mem hr (Int.le_refl n) hn
  | absolute k =>
    rw [move]
    split_ifs
    · omega
    · exact clip_mem hn (by omega)
    · exact rowsBack_mem (by omega) (Int.le_refl n) hn
  | relative k =>
    rw [move]
    split_ifs
    · omega
    · exact clip_mem hn (by omega)
    · exact clip_mem hn (by omega)
    · exact rowsBack_mem (by omega) hhi hn
  | bookmark mark k =>
    rw [move]
    split_ifs
    · omega
    · exact clip_mem hn (by omega)

theorem place_of_false {scroll : Scroll} (h : ¬c.Astray n r scroll) :
    c.place n r scroll = c.move n r scroll :=
  if_neg h

theorem place_mem {scroll : Scroll} (hn : 0 ≤ n) (hr : 1 ≤ r) (hhi : c.start ≤ n)
    (hsize : 0 ≤ c.size ∨ c.start < 0) :
    -1 ≤ c.place n r scroll ∧ c.place n r scroll ≤ n := by
  unfold place
  split_ifs
  · exact ⟨by omega, hn⟩
  · exact move_mem hn hr hhi hsize

/-- A cursor that is astray should be in front of the rows. -/
theorem Astray.move {scroll : Scroll} (h : c.Astray n r scroll) : c.move n r scroll = -1 := by
  cases scroll with
  | absolute k =>
    obtain ⟨hn, hk, hr⟩ := h
    rw [ScrollCursor.move]
    rw [if_neg (by omega), if_neg (by omega), rowsBack, if_neg (by omega), if_pos (Or.inr hr)]
  | relative k =>
    rw [ScrollCursor.move]
    obtain ⟨hstart, hk, -⟩ | ⟨hstart, hk, hr⟩ := h
    · rw [if_pos hstart, if_pos hk]
    · rw [if_neg (by omega), if_neg (by omega), rowsBack, if_neg (by omega),
        if_pos (Or.inr hr)]
  | next | prior | first | last | bookmark => exact h.elim

/-- The block is where it should be if and only if the cursor is not astray. -/
theorem place_eq_move_iff {scroll : Scroll} :
    c.place n r scroll = c.move n r scroll ↔ ¬c.Astray n r scroll := by
  refine ⟨fun h hastray ↦ ?_, place_of_false⟩
  rw [place, if_pos hastray, hastray.move] at h
  omega

end ScrollCursor

end Lib
