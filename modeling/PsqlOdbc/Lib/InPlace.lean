import Mathlib.Data.List.Basic
import Mathlib.Data.List.Chain
import Mathlib.Data.List.TakeWhile
import Mathlib.Order.Lattice

/-!
# Arrays that are edited in place

Entries that are put between others and taken out with `memmove`, and the loop that goes over an array
and takes out the entries it finds.  The loop counts on after it has taken one out, and so does not
look at the one that has come to its place: `removeLoop_eq_iff` says when nothing is missed.
-/

namespace Lib

variable {α : Type*}

/-! ## Moving entries -/

/-- `n` entries are moved down to place `i`. -/
def closeGap (i n : Nat) (cells : List α) : List α :=
  cells.take i ++ ((cells.drop (i + 1)).take n ++ cells.drop (i + n))

/-- `n` entries are moved up from place `i`, and `x` is stored there. -/
def openGap (i n : Nat) (x : α) (cells : List α) : List α :=
  cells.take i ++ (x :: (cells.drop i).take n ++ cells.drop (i + n + 1))

section

variable {i count : Nat} {cells : List α}

theorem length_closeGap (hi : i < count) (h : count ≤ cells.length) :
    (closeGap i (count - i - 1) cells).length = cells.length := by
  rw [closeGap, List.length_append, List.length_append, List.length_take, List.length_take,
    List.length_drop, List.length_drop]
  omega

/-- Of `count` entries the one at place `i` is gone. -/
theorem take_closeGap (hi : i < count) (h : count ≤ cells.length) :
    (closeGap i (count - i - 1) cells).take (count - 1) = (cells.take count).eraseIdx i := by
  have hmoved : (cells.take i ++ (cells.drop (i + 1)).take (count - i - 1)).length = count - 1 := by
    rw [List.length_append, List.length_take, List.length_take, List.length_drop]
    omega
  rw [closeGap, ← List.append_assoc, List.take_left' hmoved, List.eraseIdx_eq_take_drop_succ,
    List.take_take, Nat.min_eq_left (by omega), List.drop_take]
  congr 2

/-- Before `count` entries there is one more at place `i`. -/
theorem take_openGap (hi : i ≤ count) (h : count ≤ cells.length) (x : α) :
    (openGap i (count - i) x cells).take (count + 1) =
      (cells.take count).take i ++ x :: (cells.take count).drop i := by
  have hmoved : (cells.take i ++ x :: (cells.drop i).take (count - i)).length = count + 1 := by
    rw [List.length_append, List.length_take, List.length_cons, List.length_take, List.length_drop]
    omega
  rw [openGap, ← List.append_assoc, List.take_left' hmoved, List.take_take, Nat.min_eq_left hi,
    List.drop_take]

theorem le_length_openGap (hi : i ≤ count) (h : count ≤ cells.length) (x : α) :
    count + 1 ≤ (openGap i (count - i) x cells).length := by
  rw [openGap, List.length_append, List.length_append, List.length_take, List.length_cons,
    List.length_take, List.length_drop]
  omega

end

/-! ## Taking out entries in a loop -/

/-- The loop: `p` is what is taken out, and at an entry of these for which `q` holds it ends. -/
def removeLoop (p q : α → Bool) : List α → List α
  | [] => []
  | [x] => if p x && !q x then [] else [x]
  | x :: y :: xs =>
    if p x then
      if q x then x :: y :: xs else y :: removeLoop p q xs
    else x :: removeLoop p q (y :: xs)

/-- What is in front of the entry the loop ends at. -/
def beforeKey (p q : α → Bool) (xs : List α) : List α := xs.takeWhile fun x ↦ !(p x && q x)

/-- That entry, and what is behind it. -/
def fromKey (p q : α → Bool) (xs : List α) : List α := xs.dropWhile fun x ↦ !(p x && q x)

/-- All of the entries in front of that are taken out for which `p` holds. -/
def removeMatches (p q : α → Bool) (xs : List α) : List α :=
  (beforeKey p q xs).filter (fun x ↦ !p x) ++ fromKey p q xs

/-- Beside an entry that is taken out there is no other one, and if the entry the loop ends at stands
behind one, there are none from there up to the next where it ends. -/
def NoNeighbours (p q : α → Bool) (xs : List α) : Prop :=
  (beforeKey p q xs).IsChain (fun x y ↦ ¬(p x = true ∧ p y = true)) ∧
    ∀ x ∈ (beforeKey p q xs).getLast?, p x = true →
      ∀ y ∈ beforeKey p q (fromKey p q xs).tail, p y = false

section

variable {p q : α → Bool} {x y : α} {xs : List α}

theorem removeLoop_nil : removeLoop p q ([] : List α) = [] := rfl

theorem removeLoop_keep (hx : p x = false) : removeLoop p q (x :: xs) = x :: removeLoop p q xs := by
  cases xs with
  | nil => rw [removeLoop_nil, removeLoop, hx]; rfl
  | cons y xs => rw [removeLoop, hx]; rfl

theorem removeLoop_key (hx : p x = true) (hx' : q x = true) : removeLoop p q (x :: xs) = x :: xs := by
  cases xs with
  | nil => rw [removeLoop, hx, hx']; rfl
  | cons y xs => rw [removeLoop, hx, hx']; rfl

/-- The entry behind one that is taken out stays. -/
theorem removeLoop_remove (hx : p x = true) (hx' : q x = false) :
    removeLoop p q (x :: y :: xs) = y :: removeLoop p q xs := by
  rw [removeLoop, hx, hx']
  rfl

theorem removeMatches_keep (hx : p x = false) :
    removeMatches p q (x :: xs) = x :: removeMatches p q xs := by
  simp [removeMatches, beforeKey, fromKey, hx]

theorem removeMatches_key (hx : p x = true) (hx' : q x = true) :
    removeMatches p q (x :: xs) = x :: xs := by
  simp [removeMatches, beforeKey, fromKey, hx, hx']

theorem removeMatches_remove (hx : p x = true) (hx' : q x = false) :
    removeMatches p q (x :: xs) = removeMatches p q xs := by
  simp [removeMatches, beforeKey, fromKey, hx, hx']

theorem beforeKey_cons (h : (p x && q x) = false) :
    beforeKey p q (x :: xs) = x :: beforeKey p q xs :=
  List.takeWhile_cons_of_pos (by rw [h]; rfl)

theorem fromKey_cons (h : (p x && q x) = false) : fromKey p q (x :: xs) = fromKey p q xs :=
  List.dropWhile_cons_of_pos (by rw [h]; rfl)

theorem beforeKey_key (h : (p x && q x) = true) : beforeKey p q (x :: xs) = [] :=
  List.takeWhile_cons_of_neg (by rw [h]; decide)

theorem fromKey_key (h : (p x && q x) = true) : fromKey p q (x :: xs) = x :: xs :=
  List.dropWhile_cons_of_neg (by rw [h]; decide)

theorem length_removeLoop_le (p q : α → Bool) (xs : List α) :
    (removeLoop p q xs).length ≤ xs.length := by
  fun_induction removeLoop p q xs with
  | case1 => exact Nat.le_refl 0
  | case2 x h => exact Nat.zero_le _
  | case3 => exact Nat.le_refl _
  | case4 => exact Nat.le_refl _
  | case5 x y xs hx hx' ih =>
    rw [List.length_cons, List.length_cons, List.length_cons]
    omega
  | case6 x y xs hx ih => exact Nat.succ_le_succ ih

/-- The loop takes nothing out. -/
theorem removeLoop_eq_self : removeLoop p q xs = xs ↔ ∀ y ∈ beforeKey p q xs, p y = false := by
  induction xs with
  | nil => exact iff_of_true rfl (List.forall_mem_nil _)
  | cons x xs ih =>
    cases hx : p x with
    | false =>
      have hkey : (p x && q x) = false := by rw [hx]; rfl
      rw [removeLoop_keep hx, beforeKey_cons hkey, List.forall_mem_cons, List.cons.injEq, ih]
      exact ⟨fun h ↦ ⟨hx, h.2⟩, fun h ↦ ⟨rfl, h.2⟩⟩
    | true =>
      cases hx' : q x with
      | true =>
        have hkey : (p x && q x) = true := by rw [hx, hx']; rfl
        rw [removeLoop_key hx hx', beforeKey_key hkey]
        exact iff_of_true rfl (List.forall_mem_nil _)
      | false =>
        have hkey : (p x && q x) = false := by rw [hx, hx']; rfl
        rw [beforeKey_cons hkey, List.forall_mem_cons, hx]
        refine iff_of_false (fun h ↦ ?_) fun h ↦ Bool.false_ne_true h.1.symm
        have hlen := congrArg List.length h
        cases xs with
        | nil =>
          rw [removeLoop, hx, hx'] at hlen
          exact absurd hlen Nat.zero_ne_one
        | cons y xs =>
          have hle := length_removeLoop_le p q xs
          rw [removeLoop_remove hx hx', List.length_cons, List.length_cons, List.length_cons] at hlen
          omega

theorem removeMatches_head {z : α} (hz : z ∈ (removeMatches p q xs).head?) (h : p z = true) :
    q z = true := by
  induction xs with
  | nil => cases hz
  | cons x xs ih =>
    cases hx : p x with
    | false =>
      rw [removeMatches_keep hx, List.head?_cons, Option.mem_some_iff] at hz
      rw [← hz, hx] at h
      exact absurd h Bool.false_ne_true
    | true =>
      cases hx' : q x with
      | true =>
        rw [removeMatches_key hx hx', List.head?_cons, Option.mem_some_iff] at hz
        exact hz ▸ hx'
      | false =>
        rw [removeMatches_remove hx hx'] at hz
        exact ih hz

theorem noNeighbours_keep (hx : p x = false) : NoNeighbours p q (x :: xs) ↔ NoNeighbours p q xs := by
  have hkey : (p x && q x) = false := by rw [hx]; rfl
  rw [NoNeighbours, NoNeighbours, beforeKey_cons hkey, fromKey_cons hkey, List.isChain_cons]
  cases hbefore : beforeKey p q xs with
  | nil => simp [hx]
  | cons z zs => simp [hx]

theorem noNeighbours_remove (hx : p x = true) (hx' : q x = false) (hy : p y = false) :
    NoNeighbours p q (x :: y :: xs) ↔ NoNeighbours p q xs := by
  have hkey : (p x && q x) = false := by rw [hx, hx']; rfl
  have hkey' : (p y && q y) = false := by rw [hy]; rfl
  have hchain := @noNeighbours_keep _ p q y xs hy
  rw [← hchain, NoNeighbours, NoNeighbours, @beforeKey_cons _ p q x (y :: xs) hkey,
    @fromKey_cons _ p q x (y :: xs) hkey, beforeKey_cons hkey', List.isChain_cons_cons]
  simp [hy]

/-- The loop takes out all of the entries if and only if it does not step over one. -/
theorem removeLoop_eq_iff : removeLoop p q xs = removeMatches p q xs ↔ NoNeighbours p q xs := by
  fun_induction removeLoop p q xs with
  | case1 => exact iff_of_true rfl ⟨List.isChain_nil, fun x hx ↦ nomatch hx⟩
  | case2 x h =>
    rw [Bool.and_eq_true, Bool.not_eq_true'] at h
    have hkey : (p x && q x) = false := by rw [h.2]; exact Bool.and_false _
    rw [removeMatches_remove h.1 h.2, NoNeighbours, beforeKey_cons hkey, fromKey_cons hkey]
    exact iff_of_true rfl ⟨List.isChain_singleton x, fun _ _ _ ↦ List.forall_mem_nil _⟩
  | case3 x h =>
    cases hx : p x with
    | false =>
      rw [removeMatches_keep hx, noNeighbours_keep hx]
      exact iff_of_true rfl ⟨List.isChain_nil, fun _ h ↦ nomatch h⟩
    | true =>
      have hx' : q x = true := by simpa [hx] using h
      have hkey : (p x && q x) = true := by rw [hx, hx']; rfl
      rw [removeMatches_key hx hx', NoNeighbours, beforeKey_key hkey]
      exact iff_of_true rfl ⟨List.isChain_nil, fun _ h ↦ nomatch h⟩
  | case4 x y xs hx hx' =>
    have hkey : (p x && q x) = true := by rw [hx, hx']; rfl
    rw [removeMatches_key hx hx', NoNeighbours, beforeKey_key hkey]
    exact iff_of_true rfl ⟨List.isChain_nil, fun _ h ↦ nomatch h⟩
  | case5 x y xs hx hx' ih =>
    rw [Bool.not_eq_true] at hx'
    rw [removeMatches_remove hx hx']
    have hkey : (p x && q x) = false := by rw [hx, hx']; rfl
    cases hy : p y with
    | false =>
      rw [removeMatches_keep hy, noNeighbours_remove hx hx' hy, List.cons.injEq, ← ih, eq_self,
        true_and]
    | true =>
      cases hy' : q y with
      | true =>
        have hkey' : (p y && q y) = true := by rw [hy, hy']; rfl
        rw [removeMatches_key hy hy', NoNeighbours, beforeKey_cons hkey, fromKey_cons hkey,
          beforeKey_key hkey', fromKey_key hkey', List.cons.injEq, removeLoop_eq_self]
        simp [hx]
      | false =>
        have hkey' : (p y && q y) = false := by rw [hy, hy']; rfl
        rw [removeMatches_remove hy hy']
        refine iff_of_false (fun h ↦ ?_) fun h ↦ ?_
        · have hhead := removeMatches_head (h ▸ rfl : y ∈ (removeMatches p q xs).head?) hy
          rw [hy'] at hhead
          cases hhead
        · rw [NoNeighbours, beforeKey_cons hkey, beforeKey_cons hkey', List.isChain_cons_cons] at h
          exact h.1.1 ⟨hx, hy⟩
  | case6 x y xs hx ih =>
    rw [Bool.not_eq_true] at hx
    rw [removeMatches_keep hx, noNeighbours_keep hx, List.cons.injEq, ← ih, eq_self, true_and]

/-! ### Without an end -/

theorem beforeKey_none (p : α → Bool) (xs : List α) : beforeKey p (fun _ ↦ false) xs = xs :=
  List.takeWhile_eq_self_iff.2 fun x _ ↦ by rw [Bool.and_false]; rfl

theorem fromKey_none (p : α → Bool) (xs : List α) : fromKey p (fun _ ↦ false) xs = [] :=
  List.dropWhile_eq_nil_iff.2 fun x _ ↦ by rw [Bool.and_false]; rfl

theorem removeMatches_none (p : α → Bool) (xs : List α) :
    removeMatches p (fun _ ↦ false) xs = xs.filter fun x ↦ !p x := by
  rw [removeMatches, beforeKey_none, fromKey_none, List.append_nil]

theorem noNeighbours_none (p : α → Bool) (xs : List α) :
    NoNeighbours p (fun _ ↦ false) xs ↔ xs.IsChain fun x y ↦ ¬(p x = true ∧ p y = true) := by
  rw [NoNeighbours, beforeKey_none, fromKey_none]
  exact and_iff_left fun _ _ _ ↦ List.forall_mem_nil _

end

/-! ## Sorted arrays -/

/-- What is put between others is added to them. -/
theorem mem_insert {x z : α} {xs : List α} {i : Nat} :
    z ∈ xs.take i ++ x :: xs.drop i ↔ z = x ∨ z ∈ xs := by
  rw [List.mem_append, List.mem_cons, or_left_comm, ← List.mem_append, List.take_append_drop]

section

variable [LinearOrder α] {p : α → Bool} {x : α} {ds : List α}

/-- An entry is put in front of the first one that is larger. -/
theorem pairwise_insert (hsorted : ds.Pairwise (· < ·)) (hx : x ∉ ds)
    (hp : ∀ d ∈ ds, p d = true ↔ x < d) :
    (ds.take (ds.findIdx p) ++ x :: ds.drop (ds.findIdx p)).Pairwise (· < ·) := by
  induction ds with
  | nil => exact List.pairwise_singleton _ x
  | cons d ds ih =>
    obtain ⟨hd, hsorted'⟩ := List.pairwise_cons.1 hsorted
    rw [List.mem_cons, not_or] at hx
    rw [List.findIdx_cons]
    cases hpd : p d with
    | true =>
      have hlt := (hp d List.mem_cons_self).1 hpd
      refine List.pairwise_cons.2 ⟨?_, hsorted⟩
      intro z hz
      rcases List.mem_cons.1 hz with rfl | hz
      · exact hlt
      · exact hlt.trans (hd z hz)
    | false =>
      have hle : ¬x < d := fun h ↦ by
        rw [(hp d List.mem_cons_self).2 h] at hpd
        cases hpd
      refine List.pairwise_cons.2 ⟨?_, ih hsorted' hx.2 fun z hz ↦ hp z (List.mem_cons_of_mem _ hz)⟩
      intro z hz
      rcases mem_insert.1 hz with rfl | hz
      · exact lt_of_le_of_ne (not_lt.1 hle) (Ne.symm hx.1)
      · exact hd z hz

end

/-! ## Parallel arrays -/

theorem eraseIdx_zipWith {β γ : Type*} (f : α → β → γ) {as : List α} {bs : List β}
    (h : as.length = bs.length) (i : Nat) :
    (List.zipWith f as bs).eraseIdx i = List.zipWith f (as.eraseIdx i) (bs.eraseIdx i) := by
  rw [List.eraseIdx_eq_take_drop_succ, List.eraseIdx_eq_take_drop_succ,
    List.eraseIdx_eq_take_drop_succ, List.take_zipWith, List.drop_zipWith, List.zipWith_append]
  rw [List.length_take, List.length_take, h]

/-! ## The last entry -/

/-- The last entry for which `q` holds is the one a loop over the places from the last on finds. -/
theorem find?_reverse_take {xs : List α} {q : α → Bool} {p : Nat → Bool}
    (h : ∀ i x, xs[i]? = some x → p i = q x) {n : Nat} (hn : n ≤ xs.length) :
    (xs.take n).reverse.find? q =
      ((List.range n).reverse.find? p).bind fun i ↦ xs[i]? := by
  induction n with
  | zero => rfl
  | succ n ih =>
    have hget : xs[n]? = some xs[n] := List.getElem?_eq_getElem hn
    rw [← List.take_append_getElem hn, List.reverse_concat, List.range_succ, List.reverse_concat,
      List.find?_cons, List.find?_cons, ← h n xs[n] hget, ih (Nat.le_of_succ_le hn)]
    cases p n with
    | true => exact hget.symm
    | false => rfl

end Lib
