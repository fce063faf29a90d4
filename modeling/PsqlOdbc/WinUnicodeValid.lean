import PsqlOdbc.WinUnicodeBuffer
import PsqlOdbc.WinUnicodeRoundTrip

/-!
# What `utf8_to_ucs2_lf` checks

With `errcheck` the conversion looks at the length of each form and at the highest bit of its bytes,
but not at the bit below that, nor at the number the form stands for.  Without it nothing is
checked, and the last form may go on behind the text: its units are then made of bytes there, if
there is room for them.
-/

namespace PsqlOdbc

open Lib

/-! ## Rounds and forms -/

/-- For each unit that is made of a form, the bytes up to the last one it is made of. -/
def unitEnds (lfconv : Bool) (prev : Option UInt8) (b : UInt8) (k : Nat) : List Nat :=
  if k = 1 then if lfconv ∧ b = 0x0a ∧ prev ≠ some 0x0d then [1, 1] else [1]
  else if k = 4 then [3, 4]
  else [k]

section

variable {lfconv errcheck : Bool} {prev : Option UInt8} {b : UInt8} {bs : List UInt8} {n k : Nat}

theorem utf8Round_stop :
    (∃ seen, utf8Round ucs2Target lfconv errcheck prev b bs n = .stop seen) ↔ n = 0 ∨ b = 0 := by
  constructor
  · rintro ⟨seen, h⟩
    by_contra hnot
    rw [not_or] at hnot
    rw [utf8Round, if_neg hnot.1, if_neg hnot.2] at h
    simp only [formRound] at h
    split_ifs at h
  · rintro h
    by_cases hn : n = 0
    · exact ⟨0, by rw [utf8Round, if_pos hn]⟩
    · exact ⟨1, by rw [utf8Round, if_neg hn, if_pos (h.resolve_left hn)]⟩

theorem utf8Round_none (hn : n ≠ 0) (hb : b ≠ 0) (hk : formLength b = none) :
    utf8Round ucs2Target lfconv errcheck prev b bs n = .giveUp 1 := by
  have hlt := UInt8.toNat_lt b
  have hrange : 0x80 ≤ b.toNat ∧ b.toNat < 0xc0 ∨ 0xf8 ≤ b.toNat := by
    rw [formLength] at hk
    grind
  rw [utf8Round, if_neg hn, if_neg hb]
  simp only [and_80, and_f8, and_f0, and_e0]
  rw [if_neg (by omega)]
  split_ifs with h1 h2 h3 h4
  · rfl
  · omega
  · omega
  · omega
  · rfl

theorem utf8Round_form (hn : n ≠ 0) (hb : b ≠ 0) (hk : formLength b = some k) :
    ∃ puts, utf8Round ucs2Target lfconv errcheck prev b bs n = formRound errcheck n k bs puts ∧
      puts.map (·.2) = unitEnds lfconv prev b k := by
  have hlt := UInt8.toNat_lt b
  have hle := formLength_le hk
  rw [utf8Round, if_neg hn, if_neg hb]
  simp only [and_80, and_f8, and_f0, and_e0]
  obtain rfl | rfl | rfl | rfl : k = 1 ∨ k = 2 ∨ k = 3 ∨ k = 4 := by omega
  · have hr := formLength_eq_one.1 hk
    have hcheck : checkForm errcheck 1 n bs = (true, 1) := by
      rw [checkForm]
      cases errcheck with
      | false => rfl
      | true =>
        rw [if_neg (by simp), if_neg (by omega)]
        rfl
    have hform : ∀ puts : List (UInt16 × Nat),
        formRound errcheck n 1 bs puts = .units puts 1 1 := by
      intro puts
      rw [formRound, hcheck]
      rfl
    rw [if_pos (by omega)]
    refine ⟨_, (hform _).symm, ?_⟩
    rw [unitEnds, if_pos rfl, List.map_append]
    split
    · rfl
    · rfl
  · have hr := formLength_eq_two.1 hk
    rw [if_neg (by omega), if_neg (by omega), if_neg (by omega), if_neg (by omega),
      if_pos (by omega)]
    exact ⟨_, rfl, rfl⟩
  · have hr := formLength_eq_three.1 hk
    rw [if_neg (by omega), if_neg (by omega), if_neg (by omega), if_pos (by omega)]
    exact ⟨_, rfl, rfl⟩
  · have hr := formLength_eq_four.1 hk
    rw [if_neg (by omega), if_neg (by omega), if_pos (by omega)]
    exact ⟨_, rfl, rfl⟩

theorem forms_take (hn : n ≠ 0) (hb : b ≠ 0) (hk : formLength b = some k) :
    forms ((b :: bs).take n) =
      (b :: (bs.take (n - 1)).take (k - 1)) :: forms ((bs.drop (k - 1)).take (n - k)) := by
  have hle := formLength_le hk
  obtain ⟨m, rfl⟩ := Nat.exists_eq_succ_of_ne_zero hn
  rw [List.take_succ_cons, forms, if_neg hb, hk]
  dsimp only
  rw [Nat.succ_sub_one, List.drop_take, show m - (k - 1) = m.succ - k by omega]

/-- What is checked is that the form is complete. -/
theorem checkForm_complete (hn : n ≠ 0) (hk : formLength b = some k) :
    (checkForm true k n bs).1 = true ↔ Lib.Complete (b :: (bs.take (n - 1)).take (k - 1)) := by
  have hle := formLength_le hk
  rw [checkForm_eq, complete_cons, hk, Option.some_inj]
  simp only [true_and, not_or, not_exists, not_and, Nat.not_lt, and_80, List.take_take,
    List.length_take]
  constructor
  · rintro ⟨hnk, htails⟩
    have hmem : ∀ i < k - 1, ∃ h : i < bs.length, 0x80 ≤ bs[i].toNat := by
      intro i hi
      have ht := htails i hi
      by_cases hlen : i < bs.length
      · rw [List.getD_eq_getElem _ _ hlen] at ht
        exact ⟨hlen, by omega⟩
      · rw [List.getD_eq_default _ _ (Nat.not_lt.1 hlen)] at ht
        exact absurd rfl ht
    have hlen : k - 1 ≤ bs.length := by
      by_contra hlt
      obtain ⟨h, -⟩ := hmem bs.length (Nat.not_le.1 hlt)
      exact Nat.lt_irrefl _ h
    refine ⟨by omega, ?_⟩
    intro x hx
    obtain ⟨i, hi, rfl⟩ := List.mem_iff_getElem.1 hx
    rw [List.length_take] at hi
    rw [List.getElem_take]
    exact (hmem i (by omega)).2
  · rintro ⟨hlen, htails⟩
    refine ⟨by omega, ?_⟩
    intro i hi
    have hi' : i < bs.length := by omega
    have htail := htails bs[i] (List.mem_iff_getElem.2
      ⟨i, by rw [List.length_take]; omega, List.getElem_take⟩)
    have hlt := UInt8.toNat_lt bs[i]
    rw [List.getD_eq_getElem _ _ hi']
    omega

end

/-- With the checks, a text is accepted if its forms are complete. -/
theorem utf8Units_complete (lfconv : Bool) (prev : Option UInt8) (str : List UInt8) (n : Nat) :
    (utf8Units ucs2Target lfconv true prev str n).2 = true ↔
      ∀ p ∈ forms (str.take n), Lib.Complete p := by
  fun_induction utf8Units ucs2Target lfconv true prev str n with
  | case1 prev n =>
    rw [List.take_nil, forms_nil]
    exact iff_of_true rfl (List.forall_mem_nil _)
  | case2 prev n b bs seen hround =>
    refine iff_of_true rfl ?_
    rcases utf8Round_stop.1 ⟨seen, hround⟩ with rfl | rfl
    · rw [List.take_zero, forms_nil]
      exact List.forall_mem_nil _
    · cases n with
      | zero =>
        rw [List.take_zero, forms_nil]
        exact List.forall_mem_nil _
      | succ n =>
        rw [List.take_succ_cons, forms, if_pos rfl]
        exact List.forall_mem_nil _
  | case3 prev n b bs seen hround =>
    obtain ⟨hn, hb⟩ := not_or.1 (mt utf8Round_stop.2 (by
      rintro ⟨s, h⟩
      rw [hround] at h
      cases h))
    refine iff_of_false Bool.false_ne_true ?_
    intro hall
    cases hk : formLength b with
    | none =>
      obtain ⟨m, rfl⟩ := Nat.exists_eq_succ_of_ne_zero hn
      rw [List.take_succ_cons, forms, if_neg hb, hk] at hall
      have hp := (complete_cons.1 (hall [b] (List.mem_singleton_self _))).1
      rw [hk] at hp
      exact absurd hp (Option.some_ne_none _).symm
    | some k =>
      obtain ⟨puts, hform, -⟩ := @utf8Round_form lfconv true prev b bs n k hn hb hk
      rw [forms_take hn hb hk] at hall
      rw [hform, formRound, if_pos ((checkForm_complete hn hk).2 (List.forall_mem_cons.1 hall).1)]
        at hround
      cases hround
  | case4 prev n b bs puts len seen hround ih =>
    obtain ⟨hn, hb⟩ := not_or.1 (mt utf8Round_stop.2 (by
      rintro ⟨s, h⟩
      rw [hround] at h
      cases h))
    cases hk : formLength b with
    | none =>
      rw [utf8Round_none hn hb hk] at hround
      cases hround
    | some k =>
      obtain ⟨puts', hform, -⟩ := @utf8Round_form lfconv true prev b bs n k hn hb hk
      rw [hform, formRound] at hround
      split at hround
      · next hcheck =>
        cases hround
        rw [forms_take hn hb hk, List.forall_mem_cons, ← ih]
        exact (and_iff_right ((checkForm_complete hn hk).1 hcheck)).symm
      · cases hround

/-! ## What is read without the checks -/

/-- The last form goes on behind the `n` bytes of the text, and a unit there is room for is made of
bytes more than `slack` behind it.  `count` units are in the buffer. -/
def ReadsBehind (lfconv : Bool) (bufcount slack : Nat) (prev : Option UInt8) (str : List UInt8)
    (n count : Nat) : Prop :=
  match str with
  | [] => False
  | b :: bs =>
    if n = 0 ∨ b = 0 then False
    else
      match formLength b with
      | none => False
      | some k =>
        if n < k then ∃ r ∈ (unitEnds lfconv prev b k).take (bufcount - count), n + slack < r
        else
          ReadsBehind lfconv bufcount slack ((b :: bs)[k - 1]?) (bs.drop (k - 1)) (n - k)
            (count + (unitEnds lfconv prev b k).length)
termination_by str.length
decreasing_by simp only [List.length_cons, List.length_drop]; omega

/-- What is looked at when units are put out. -/
theorem putUnits_seen {bufcount : Nat} {mem xs : List UInt16} (h : bufcount ≤ mem.length)
    (seen : Nat) (puts : List (UInt16 × Nat)) : ∃ seen',
      putUnits bufcount (.holding bufcount mem xs) seen puts =
          some (.holding bufcount mem (xs ++ puts.map (·.1)), seen') ∧
        ∀ m, seen' ≤ m ↔
          seen ≤ m ∧ ∀ r ∈ (puts.map (·.2)).take (bufcount - xs.length), r ≤ m := by
  induction puts generalizing xs seen with
  | nil =>
    refine ⟨seen, by rw [putUnits, List.map_nil, List.append_nil], ?_⟩
    intro m
    rw [List.map_nil, List.take_nil]
    exact (and_iff_left (List.forall_mem_nil _)).symm
  | cons p puts ih =>
    obtain ⟨x, k⟩ := p
    obtain ⟨seen', hput, hseen⟩ := @ih (xs ++ [x])
      (if (CountingBuffer.holding bufcount mem xs).ocount < bufcount then max seen k else seen)
    refine ⟨seen', ?_, ?_⟩
    · rw [putUnits, CountingBuffer.put_holding h, Option.bind_some, hput, List.map_cons,
        ← List.append_cons]
    · intro m
      rw [hseen, List.length_append, List.length_singleton, List.map_cons,
        show (CountingBuffer.holding bufcount mem xs).ocount = xs.length from rfl]
      by_cases hroom : xs.length < bufcount
      · obtain ⟨d, hd⟩ := Nat.exists_eq_add_of_lt hroom
        rw [if_pos hroom, Nat.max_le, show bufcount - xs.length = d + 1 by omega,
          show bufcount - (xs.length + 1) = d by omega, List.take_succ_cons, List.forall_mem_cons,
          and_assoc]
      · rw [if_neg hroom, show bufcount - xs.length = 0 by omega,
          show bufcount - (xs.length + 1) = 0 by omega, List.take_zero, List.take_zero]

theorem unitEnds_le {lfconv : Bool} {prev : Option UInt8} {b : UInt8} {k r : Nat}
    (h : r ∈ unitEnds lfconv prev b k) : r ≤ k := by
  rw [unitEnds] at h
  split_ifs at h with h1 h2 h4
  · rw [List.mem_pair] at h
    omega
  · rw [List.mem_singleton] at h
    omega
  · rw [List.mem_pair] at h
    omega
  · rw [List.mem_singleton] at h
    omega

theorem utf8BufferLoop_zero {α : Type} (target : WideTarget α) (lfconv errcheck : Bool)
    (bufcount : Nat) (prev : Option UInt8) (str : List UInt8) (b : CountingBuffer α) :
    utf8BufferLoop target lfconv errcheck bufcount prev str 0 b = some ⟨true, b, 0⟩ := by
  cases str with
  | nil => rw [utf8BufferLoop, if_pos rfl]
  | cons c bs => rw [utf8BufferLoop, utf8Round, if_pos rfl]

/-- The bytes that are looked at are those of the text, if no unit is made of others. -/
theorem utf8BufferLoop_seen {lfconv : Bool} {bufcount slack : Nat} {mem xs : List UInt16}
    (h : bufcount ≤ mem.length) (prev : Option UInt8) (str : List UInt8) (n : Nat) : ∃ run,
      utf8BufferLoop ucs2Target lfconv false bufcount prev str n (.holding bufcount mem xs) =
          some run ∧
        (run.seen ≤ n + slack ↔ ¬ReadsBehind lfconv bufcount slack prev str n xs.length) := by
  fun_induction utf8Units ucs2Target lfconv false prev str n generalizing xs with
  | case1 prev n =>
    refine ⟨_, by rw [utf8BufferLoop], iff_of_true ?_ (by rw [ReadsBehind]; exact not_false)⟩
    dsimp only
    split
    · exact Nat.zero_le _
    · omega
  | case2 prev n b bs seen hround =>
    have hend := utf8Round_stop.1 ⟨seen, hround⟩
    refine ⟨_, by rw [utf8BufferLoop, hround], iff_of_true ?_ ?_⟩
    · dsimp only
      by_cases hn : n = 0
      · rw [utf8Round, if_pos hn] at hround
        cases hround
        exact Nat.zero_le _
      · rw [utf8Round, if_neg hn, if_pos (hend.resolve_left hn)] at hround
        cases hround
        omega
    · rw [ReadsBehind, if_pos hend]
      exact not_false
  | case3 prev n b bs seen hround =>
    have hnot := mt utf8Round_stop.2 (by
      rintro ⟨s, hstop⟩
      rw [hround] at hstop
      cases hstop)
    obtain ⟨hn, hb⟩ := not_or.1 hnot
    cases hk : formLength b with
    | none =>
      refine ⟨_, by rw [utf8BufferLoop, hround], iff_of_true ?_ ?_⟩
      · rw [utf8Round_none hn hb hk] at hround
        cases hround
        dsimp only
        omega
      · rw [ReadsBehind, if_neg hnot, hk]
        exact not_false
    | some k =>
      obtain ⟨puts, hform, -⟩ := @utf8Round_form lfconv false prev b bs n k hn hb hk
      rw [hform] at hround
      cases hround
  | case4 prev n b bs puts len seen hround ih =>
    have hnot := mt utf8Round_stop.2 (by
      rintro ⟨s, hstop⟩
      rw [hround] at hstop
      cases hstop)
    obtain ⟨hn, hb⟩ := not_or.1 hnot
    cases hk : formLength b with
    | none =>
      rw [utf8Round_none hn hb hk] at hround
      cases hround
    | some k =>
      have hle := formLength_le hk
      obtain ⟨puts', hform, hends⟩ := @utf8Round_form lfconv false prev b bs n k hn hb hk
      obtain ⟨rfl, rfl, rfl⟩ : puts' = puts ∧ k = len ∧ 1 = seen := by
        rw [hform] at hround
        cases hround
        exact ⟨rfl, rfl, rfl⟩
      obtain ⟨seen', hput, hseen⟩ := @putUnits_seen bufcount mem xs h 1 puts'
      rw [hends] at hseen
      rw [utf8BufferLoop, hround, ReadsBehind, if_neg hnot, hk]
      dsimp only
      rw [hput, Option.bind_some]
      dsimp only
      by_cases hcut : n < k
      · -- The form is the last one.
        rw [if_pos hcut, show n - k = 0 by omega, utf8BufferLoop_zero, Option.map_some]
        refine ⟨_, rfl, ?_⟩
        dsimp only
        rw [if_pos rfl, hseen]
        constructor
        · rintro ⟨-, hall⟩ ⟨r, hr, hlt⟩
          exact absurd (hall r hr) (by omega)
        · intro hno
          refine ⟨by omega, ?_⟩
          intro r hr
          by_contra hlt
          exact hno ⟨r, hr, by omega⟩
      · obtain ⟨run, hrun, hiff⟩ := @ih (xs ++ puts'.map (·.1))
        have hin : seen' ≤ k :=
          (hseen k).2 ⟨hle.1, fun r hr ↦ unitEnds_le (List.mem_of_mem_take hr)⟩
        rw [if_neg hcut, hrun, Option.map_some]
        refine ⟨_, rfl, ?_⟩
        have hlen : puts'.length = (unitEnds lfconv prev b k).length := by
          rw [← hends, List.length_map]
        rw [List.length_append, List.length_map, hlen] at hiff
        rw [← hiff]
        dsimp only
        split
        · omega
        · omega

/-! ## What is checked, and what would have to be -/

/-- The text: the bytes up to the length or the terminator. -/
def utf8Text (str : List UInt8) (ilen : Int) : List UInt8 :=
  (str.take (utf8Length str ilen)).takeWhile (· ≠ 0)

/-- The loop of `utf8_to_ucs2_lf` with a buffer. -/
def utf8ToUcs2LfRun (str : List UInt8) (ilen : Int) (lfconv : Bool) (buf : List UInt16)
    (errcheck : Bool) : Option (Utf8Run UInt16) :=
  utf8BufferLoop ucs2Target lfconv errcheck buf.length none str (utf8Length str ilen) ⟨0, buf⟩

/-- How far behind the text the loop may look: at the terminator, if there is one. -/
def readSlack (ilen : Int) : Nat := if ilen < 0 then 1 else 0

/-- With the checks the end of a text is reached if the text is UTF-8, and of no other.  Without
them the loop ends, and has not looked behind the text. -/
structure Validates (str : List UInt8) (ilen : Int) (lfconv : Bool) (buf : List UInt16) : Prop where
  accepts : (∃ run, utf8ToUcs2LfRun str ilen lfconv buf true = some run ∧ run.ok = true) ↔
    ∃ chars, utf8Text str ilen = utf8Encode chars
  reads : ∃ run, utf8ToUcs2LfRun str ilen lfconv buf false = some run ∧
    run.seen ≤ utf8Length str ilen + readSlack ilen

theorem utf8ToUcs2LfRun_ok {str : List UInt8} {ilen : Int} {lfconv : Bool} {buf : List UInt16} :
    (∃ run, utf8ToUcs2LfRun str ilen lfconv buf true = some run ∧ run.ok = true) ↔
      ∀ p ∈ forms (str.take (utf8Length str ilen)), Lib.Complete p := by
  obtain ⟨seen, hloop⟩ := @utf8BufferLoop_holding _ ucs2Target lfconv true buf.length buf [] none
    str (utf8Length str ilen) (Nat.le_refl _)
  rw [CountingBuffer.holding_nil] at hloop
  rw [← utf8Units_complete lfconv none, utf8ToUcs2LfRun, hloop]
  constructor
  · rintro ⟨run, hrun, hok⟩
    cases hrun
    exact hok
  · intro hok
    exact ⟨_, rfl, hok⟩

theorem utf8Text_valid {str : List UInt8} {ilen : Int} :
    (∃ chars, utf8Text str ilen = utf8Encode chars) ↔
      ∀ p ∈ forms (str.take (utf8Length str ilen)), Lib.Complete p ∧ ¬Misformed p := utf8_iff

/-- A text is checked rightly if it has a form that is not complete, or none that is misformed.
Without the checks nothing is read behind a text unless there is room for a unit that is made of
it. -/
theorem utf8ToUcs2Lf_validates_iff (str : List UInt8) (ilen : Int) (lfconv : Bool)
    (buf : List UInt16) : Validates str ilen lfconv buf ↔
      ((∃ p ∈ forms (str.take (utf8Length str ilen)), ¬Lib.Complete p) ∨
        ∀ p ∈ forms (str.take (utf8Length str ilen)), ¬Misformed p) ∧
      ¬ReadsBehind lfconv buf.length (readSlack ilen) none str (utf8Length str ilen) 0 := by
  obtain ⟨run, hrun, hseen⟩ := @utf8BufferLoop_seen lfconv buf.length (readSlack ilen) buf []
    (Nat.le_refl _) none str (utf8Length str ilen)
  rw [CountingBuffer.holding_nil, ← utf8ToUcs2LfRun] at hrun
  constructor
  · rintro ⟨haccepts, run', hrun', hreads⟩
    rw [hrun] at hrun'
    cases hrun'
    refine ⟨?_, hseen.1 hreads⟩
    by_cases hall : ∀ p ∈ forms (str.take (utf8Length str ilen)), Lib.Complete p
    · have hvalid := utf8Text_valid.1 (haccepts.1 (utf8ToUcs2LfRun_ok.2 hall))
      exact Or.inr fun p hp ↦ (hvalid p hp).2
    · rw [not_forall] at hall
      obtain ⟨p, hp⟩ := hall
      rw [Classical.not_imp] at hp
      exact Or.inl ⟨p, hp⟩
  · rintro ⟨hforms, hreads⟩
    refine ⟨?_, run, hrun, hseen.2 hreads⟩
    rw [utf8ToUcs2LfRun_ok, utf8Text_valid]
    constructor
    · intro hall p hp
      refine ⟨hall p hp, ?_⟩
      rcases hforms with ⟨q, hq, hnot⟩ | hnone
      · exact absurd (hall q hq) hnot
      · exact hnone p hp
    · intro hall p hp
      exact (hall p hp).1

/-- The form `0xc0 0x80` is accepted and is that of no character; a single `0xf0` is taken with the
three bytes behind it if there is room for two units. -/
theorem utf8ToUcs2Lf_not_validates :
    ¬Validates [0xc0, 0x80] 2 false [] ∧ ¬Validates [0xf0] 1 false [0, 0] := by
  constructor
  · rintro ⟨haccepts, -⟩
    have hforms : forms ([0xc0, 0x80].take (utf8Length [0xc0, 0x80] 2)) = [[0xc0, 0x80]] := by
      simp [utf8Length, forms, formLength]
    have hok : ∀ p ∈ forms ([0xc0, 0x80].take (utf8Length [0xc0, 0x80] 2)), Lib.Complete p := by
      rw [hforms, List.forall_mem_singleton, complete_cons]
      exact ⟨rfl, List.forall_mem_singleton.2 (by decide)⟩
    have hvalid := utf8Text_valid.1 (haccepts.1 (utf8ToUcs2LfRun_ok.2 hok))
    rw [hforms, List.forall_mem_singleton] at hvalid
    exact hvalid.2 (Or.inl (Or.inl rfl))
  · rintro ⟨-, run, hrun, hreads⟩
    obtain ⟨run', hrun', hseen⟩ := @utf8BufferLoop_seen false 2 (readSlack 1) [0, 0] []
      (Nat.le_refl _) none [0xf0] 1
    rw [CountingBuffer.holding_nil] at hrun'
    rw [utf8ToUcs2LfRun] at hrun
    obtain rfl : run' = run := Option.some_inj.1 (hrun'.symm.trans hrun)
    refine hseen.1 hreads ?_
    rw [ReadsBehind, if_neg (by decide)]
    exact ⟨3, by decide, by decide⟩

end PsqlOdbc
