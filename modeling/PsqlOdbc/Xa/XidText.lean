import PsqlOdbc.Convert.Pgbinary
import PsqlOdbc.Lib.Stores

/-!
# Transaction identifiers (`pgxalib.cpp`, `msdtc_enlist.cpp`)

A global transaction has an identifier of two parts, and the server knows it by a text: the digits
of the first part in base 16, a `-`, and the digits of the second.  `XidToText` writes the text and
`TextToXid` reads one.  The texts that the server lists need not be of this kind.
-/

namespace PsqlOdbc.Xa

open Lib CountingBuffer

/-! ## Definitions -/

/-- `XIDDATASIZE`. -/
def xidDataSize : Nat := 128

/-- An `XID`. -/
structure Xid where
  formatId : Int
  gtridLength : Nat
  bqualLength : Nat
  data : List UInt8
  deriving DecidableEq, Repr

/-- The identifiers whose parts are in their data. -/
structure Xid.Valid (xid : Xid) : Prop where
  size : xid.data.length = xidDataSize
  gtrid_le : xid.gtridLength ≤ 64
  bqual_le : xid.bqualLength ≤ 64

/-- The digits of `printf`. -/
def lowerDigits : List UInt8 :=
  [0x30, 0x31, 0x32, 0x33, 0x34, 0x35, 0x36, 0x37, 0x38, 0x39, 0x61, 0x62, 0x63, 0x64, 0x65, 0x66]

/-- `%02x`. -/
def lowerHex (b : UInt8) : List UInt8 :=
  [lowerDigits.getD (b >>> 4).toNat 0, lowerDigits.getD (b % 16).toNat 0]

/-- A loop of `XidToText`, of `n` rounds: `i`, `j` and the memory at its end. -/
def digitsLoop (data : List UInt8) :
    Nat → Nat → Nat → List UInt8 → Option (Nat × Nat × List UInt8)
  | 0, i, j, rtext => some (i, j, rtext)
  | n + 1, i, j, rtext =>
    data[i]?.bind fun b ↦ (storeAll rtext j (lowerHex b ++ [0])).bind fun rtext ↦
      digitsLoop data n (i + 1) (j + 2) rtext

/-- `strcat`: at the end of the text that the memory begins with. -/
def strcat (rtext text : List UInt8) : Option (List UInt8) :=
  (findByte (fun b ↦ b = 0) rtext 0).bind fun k ↦ storeAll rtext k (text ++ [0])

/-- `XidToText` (`pgxalib.cpp`): the memory from `rtext` on; no result if there is an access behind
it. -/
def xidToText (xid : Xid) (rtext : List UInt8) : Option (List UInt8) :=
  let glen := xid.gtridLength
  let blen := xid.bqualLength
  (digitsLoop xid.data glen 0 0 rtext).bind fun (i, j, rtext) ↦
    (strcat rtext [0x2d]).bind fun rtext ↦
      let j := j + 1
      (digitsLoop xid.data (glen + blen - i) i j rtext).map fun (_, _, rtext) ↦ rtext

/-- `XidToText` (`msdtc_enlist.cpp`). -/
def enlistXidToText (xid : Xid) (rtext : List UInt8) : Option (List UInt8) :=
  let glen := xid.gtridLength
  let blen := xid.bqualLength
  (digitsLoop xid.data glen 0 0 rtext).bind fun (i, j, rtext) ↦
    (strcat rtext [0x2d]).bind fun rtext ↦
      let j := j + 1
      (digitsLoop xid.data (glen + blen - i) i j rtext).map fun (_, _, rtext) ↦ rtext

/-- `TextToXid`: the identifier and what is returned; no result if there is an access outside the
text or the data. -/
def textToXid (xid : Xid) (rtext : List UInt8) : Option (Xid × Nat) :=
  let mem := rtext ++ [0]
  let slen := rtext.length
  (strchr mem 0 0x2d).bind fun sptr ↦
    let glen := sptr.getD slen
    let blen := if sptr.isSome then slen - glen - 1 else 0
    (pgHex2binLoop glen true mem xid.data 0).bind fun (data, _) ↦
      -- Without a `-` the second text is not looked at.
      (pgHex2binLoop blen true (mem.drop (glen + 1)) data (glen / 2)).map fun (data, _) ↦
        ({ xid with gtridLength := glen / 2, bqualLength := blen / 2, data }, (glen + blen) / 2)

/-! ## What is meant -/

namespace Xid

/-- The first part. -/
def gtrid (xid : Xid) : List UInt8 := xid.data.take xid.gtridLength

/-- The second part. -/
def bqual (xid : Xid) : List UInt8 := (xid.data.drop xid.gtridLength).take xid.bqualLength

/-- The text of an identifier. -/
def text (xid : Xid) : List UInt8 :=
  xid.gtrid.flatMap lowerHex ++ 0x2d :: xid.bqual.flatMap lowerHex

/-- An identifier with the lengths and the parts of another. -/
def withParts (target xid : Xid) : Xid where
  formatId := target.formatId
  gtridLength := xid.gtridLength
  bqualLength := xid.bqualLength
  data := overwrite target.data (xid.gtrid ++ xid.bqual)

variable {xid : Xid}

theorem length_gtrid (h : xid.Valid) : xid.gtrid.length = xid.gtridLength := by
  have hsize := h.size
  have hgtrid := h.gtrid_le
  rw [gtrid, List.length_take, hsize, xidDataSize]
  omega

theorem length_bqual (h : xid.Valid) : xid.bqual.length = xid.bqualLength := by
  have hsize := h.size
  have hgtrid := h.gtrid_le
  have hbqual := h.bqual_le
  rw [bqual, List.length_take, List.length_drop, hsize, xidDataSize]
  omega

end Xid

/-! ## Digits -/

theorem length_lowerHex (b : UInt8) : (lowerHex b).length = 2 := rfl

theorem length_flatMap_lowerHex (bytes : List UInt8) :
    (bytes.flatMap lowerHex).length = 2 * bytes.length := by
  induction bytes with
  | nil => rfl
  | cons b bytes ih =>
    rw [List.flatMap_cons, List.length_append, ih, length_lowerHex, List.length_cons]
    omega

/-- A digit is neither the terminator nor the `-`. -/
theorem lowerHex_ne (b : UInt8) : (lowerHex b).all (fun c ↦ c ≠ 0 ∧ c ≠ 0x2d) = true :=
  @uint8_forall (fun b ↦ (lowerHex b).all (fun c ↦ c ≠ 0 ∧ c ≠ 0x2d) = true)
    (by decide +kernel) b

theorem hexPair_lowerHex (b : UInt8) : HexPair b (lowerHex b) := by
  have hne := lowerHex_ne b
  have hval : (hex2binVal ((lowerHex b).headD 0) <<< 4) + hex2binVal ((lowerHex b).getD 1 0) = b :=
    @uint8_forall (fun b ↦
      (hex2binVal ((lowerHex b).headD 0) <<< 4) + hex2binVal ((lowerHex b).getD 1 0) = b)
      (by decide +kernel) b
  rw [lowerHex, List.all_cons, List.all_cons, Bool.and_eq_true, Bool.and_eq_true] at hne
  exact ⟨_, _, rfl, (of_decide_eq_true hne.1).1, (of_decide_eq_true hne.2.1).1, hval⟩

theorem ne_of_mem_digits {bytes : List UInt8} {c : UInt8} (h : c ∈ bytes.flatMap lowerHex) :
    c ≠ 0 ∧ c ≠ 0x2d := by
  obtain ⟨b, -, hc⟩ := List.mem_flatMap.1 h
  exact of_decide_eq_true (List.all_eq_true.1 (lowerHex_ne b) c hc)

/-! ## Writing -/

section Writing

variable {data : List UInt8} {xid : Xid}

/-- The digits of the bytes from `i` on, with a terminator: behind no byte it is the one that was
there. -/
theorem digitsLoop_append {n i : Nat} {done cells : List UInt8} (hdata : i + n ≤ data.length)
    (hroom : 2 * n + 1 ≤ cells.length) (hend : n = 0 → cells.head? = some 0) :
    ∃ rest, digitsLoop data n i done.length (done ++ cells) =
        some (i + n, done.length + 2 * n,
          done ++ (((data.drop i).take n).flatMap lowerHex ++ 0 :: rest)) ∧
      2 * n + 1 + rest.length = cells.length := by
  induction n generalizing i done cells with
  | zero =>
    obtain ⟨rest, rfl⟩ := List.head?_eq_some_iff.1 (hend rfl)
    exact ⟨rest, rfl, by rw [List.length_cons]; omega⟩
  | succ n ih =>
    obtain ⟨c, c', c'', cells, rfl⟩ : ∃ c c' c'' rest, cells = c :: c' :: c'' :: rest := by
      obtain ⟨c, cells, rfl⟩ := List.exists_cons_of_length_pos (show 0 < cells.length by omega)
      rw [List.length_cons] at hroom
      obtain ⟨c', cells, rfl⟩ := List.exists_cons_of_length_pos (show 0 < cells.length by omega)
      rw [List.length_cons] at hroom
      obtain ⟨c'', cells, rfl⟩ := List.exists_cons_of_length_pos (show 0 < cells.length by omega)
      exact ⟨c, c', c'', cells, rfl⟩
    have hi : i < data.length := by omega
    have hstore : storeAll (done ++ c :: c' :: c'' :: cells) done.length (lowerHex data[i] ++ [0]) =
        some (done ++ lowerHex data[i] ++ 0 :: cells) := by
      rw [storeAll_append (by simp [length_lowerHex]), List.append_assoc]
      rfl
    obtain ⟨rest, hloop, hrest⟩ := @ih (i + 1) (done ++ lowerHex data[i]) (0 :: cells) (by omega)
      (by simp only [List.length_cons] at hroom ⊢; omega) fun _ ↦ rfl
    refine ⟨rest, ?_, by simp only [List.length_cons] at hrest ⊢; omega⟩
    rw [List.length_append, length_lowerHex] at hloop
    rw [digitsLoop, List.getElem?_eq_getElem hi, Option.bind_some, hstore, Option.bind_some, hloop,
      List.drop_eq_getElem_cons hi, List.take_succ_cons, List.flatMap_cons]
    simp only [List.append_assoc]
    rw [show i + 1 + n = i + (n + 1) by omega,
      show done.length + 2 + 2 * n = done.length + 2 * (n + 1) by omega]

theorem strcat_append {text rest : List UInt8} {c : UInt8} (htext : 0 ∉ text) :
    strcat (text ++ 0 :: c :: rest) [0x2d] = some (text ++ 0x2d :: 0 :: rest) := by
  have hstop : ∀ b ∈ text, decide (b = 0) = false := fun b hb ↦
    decide_eq_false fun h ↦ htext (h ▸ hb)
  rw [strcat, findByte_append hstop (decide_eq_true rfl), Option.bind_some, Nat.zero_add,
    storeAll_append (by simp)]
  rfl

/-- Behind the digits of the first part, or at the beginning of memory that begins with a
terminator, the rest of the text follows. -/
theorem xidToText_of_first (h : xid.Valid) {rtext rest : List UInt8}
    (hfirst : digitsLoop xid.data xid.gtridLength 0 0 rtext =
      some (xid.gtridLength, 2 * xid.gtridLength, xid.gtrid.flatMap lowerHex ++ 0 :: rest))
    (hroom : 2 * xid.bqualLength + 1 ≤ rest.length) :
    ∃ rest, xidToText xid rtext = some (xid.text ++ 0 :: rest) := by
  have hgtrid := h.gtrid_le
  have hbqual := h.bqual_le
  have hsize := h.size
  rw [xidDataSize] at hsize
  obtain ⟨c, rest, rfl⟩ := List.exists_cons_of_length_pos (show 0 < rest.length by omega)
  have hcat := @strcat_append (xid.gtrid.flatMap lowerHex) rest c fun hmem ↦ (ne_of_mem_digits hmem).1 rfl
  have hlength : (xid.gtrid.flatMap lowerHex ++ [0x2d]).length = 2 * xid.gtridLength + 1 := by
    rw [List.length_append, length_flatMap_lowerHex, Xid.length_gtrid h]
    rfl
  obtain ⟨rest', hsecond, -⟩ := @digitsLoop_append xid.data xid.bqualLength xid.gtridLength
    (xid.gtrid.flatMap lowerHex ++ [0x2d]) (0 :: rest) (by omega) hroom fun _ ↦ rfl
  rw [hlength] at hsecond
  simp only [List.append_assoc, List.singleton_append] at hsecond
  refine ⟨rest', ?_⟩
  dsimp only [xidToText]
  rw [hfirst, Option.bind_some]
  dsimp only
  rw [hcat, Option.bind_some, Nat.add_sub_cancel_left, hsecond]
  simp [Xid.text, Xid.bqual]

/-- The text of an identifier with a first part. -/
theorem xidToText_pos (h : xid.Valid) {rtext : List UInt8} (hlength : rtext.length = 258)
    (hpos : 0 < xid.gtridLength) : ∃ rest, xidToText xid rtext = some (xid.text ++ 0 :: rest) := by
  have hgtrid := h.gtrid_le
  have hbqual := h.bqual_le
  have hsize := h.size
  rw [xidDataSize] at hsize
  obtain ⟨rest, hfirst, hrest⟩ := @digitsLoop_append xid.data xid.gtridLength 0 [] rtext
    (by omega) (by omega) fun hzero ↦ by omega
  refine @xidToText_of_first xid h rtext rest ?_ (by omega)
  simpa [Xid.gtrid] using hfirst

/-- Without a first part the buffer has to begin with a terminator. -/
theorem xidToText_empty (h : xid.Valid) {rtext : List UInt8} (hlength : rtext.length = 258)
    (hzero : xid.gtridLength = 0) (hstart : rtext.head? = some 0) :
    ∃ rest, xidToText xid rtext = some (xid.text ++ 0 :: rest) := by
  have hbqual := h.bqual_le
  obtain ⟨rest, rfl⟩ := List.head?_eq_some_iff.1 hstart
  rw [List.length_cons] at hlength
  refine @xidToText_of_first xid h _ rest ?_ (by omega)
  rw [hzero, Xid.gtrid, hzero]
  rfl

/-- A `-` that is there already does, if the second part is written behind it and the buffer has a
terminator with room for another behind it. -/
theorem xidToText_minus (h : xid.Valid) {rtext : List UInt8} (hlength : rtext.length = 258)
    (hzero : xid.gtridLength = 0) (hstart : rtext.head? = some 0x2d)
    (hpos : 0 < xid.bqualLength) (hend : 0 ∈ rtext.take 257) :
    ∃ rest, xidToText xid rtext = some (xid.text ++ 0 :: rest) := by
  have hbqual := h.bqual_le
  have hsize := h.size
  rw [xidDataSize] at hsize
  obtain ⟨c, rest, u, hsplit, hu⟩ : ∃ c rest u, rtext = 0x2d :: (u ++ 0 :: c :: rest) ∧ 0 ∉ u := by
    obtain ⟨cells, rfl⟩ := List.head?_eq_some_iff.1 hstart
    rw [List.length_cons] at hlength
    have hcells : 0 ∈ cells.take 256 := (List.mem_cons.1 hend).resolve_left (by decide)
    obtain ⟨u, t, hsplit, hu⟩ := (exists_split 0 _).resolve_left (not_not.2 hcells)
    obtain ⟨c, rest, htail⟩ : ∃ c rest, t ++ cells.drop 256 = c :: rest :=
      List.exists_cons_of_length_pos (by rw [List.length_append, List.length_drop]; omega)
    refine ⟨c, rest, u, ?_, hu⟩
    rw [← List.take_append_drop 256 cells, hsplit, List.append_assoc, List.cons_append, htail]
  have hcat : strcat rtext [0x2d] = some (0x2d :: u ++ 0x2d :: 0 :: rest) := by
    rw [hsplit]
    exact @strcat_append (0x2d :: u) _ _ fun hmem ↦
      (List.mem_cons.1 hmem).elim (fun h ↦ absurd h (by decide)) hu
  rw [hsplit, List.length_cons, List.length_append, List.length_cons, List.length_cons] at hlength
  obtain ⟨rest', hsecond, -⟩ := @digitsLoop_append xid.data xid.bqualLength 0 [0x2d]
    (u ++ 0x2d :: 0 :: rest) (by omega)
    (by rw [List.length_append, List.length_cons, List.length_cons]; omega) fun hb ↦ by omega
  rw [List.singleton_append, List.length_singleton] at hsecond
  refine ⟨rest', ?_⟩
  dsimp only [xidToText]
  rw [hzero]
  change ((strcat rtext [0x2d]).bind _) = _
  rw [hcat, Option.bind_some, Nat.zero_add, Nat.sub_zero, List.cons_append, hsecond]
  simp [Xid.text, Xid.bqual, Xid.gtrid, hzero]

/-- A store leaves the cells before its place. -/
theorem head?_storeAll {cells cells' xs : List UInt8} {j : Nat} (hj : 0 < j)
    (h : storeAll cells j xs = some cells') : cells'.head? = cells.head? := by
  rw [storeAll] at h
  split at h
  · next hroom =>
    cases h
    obtain ⟨c, cells, rfl⟩ := List.exists_cons_of_length_pos (show 0 < cells.length by omega)
    obtain ⟨j, rfl⟩ := Nat.exists_eq_add_of_lt hj
    rw [Nat.zero_add, List.take_succ_cons]
    rfl
  · cases h

theorem head?_digitsLoop {n i j i' j' : Nat} {rtext rtext' : List UInt8} (hj : 0 < j)
    (h : digitsLoop data n i j rtext = some (i', j', rtext')) : rtext'.head? = rtext.head? := by
  induction n generalizing i j rtext with
  | zero =>
    cases h
    rfl
  | succ n ih =>
    rw [digitsLoop] at h
    obtain ⟨b, -, h⟩ := Option.bind_eq_some_iff.1 h
    obtain ⟨stored, hstore, h⟩ := Option.bind_eq_some_iff.1 h
    exact (ih (by omega) h).trans (head?_storeAll hj hstore)

theorem findByte_none {stop : UInt8 → Bool} {mem : List UInt8} (h : ∀ b ∈ mem, stop b = false)
    (p : Nat) : findByte stop mem p = none := by
  induction mem generalizing p with
  | nil => rfl
  | cons b mem ih =>
    rw [findByte, h b List.mem_cons_self, if_neg Bool.false_ne_true]
    exact ih (fun b hb ↦ h b (List.mem_cons_of_mem _ hb)) (p + 1)

/-- `strcat` needs a terminator and room for another behind it. -/
theorem strcat_split {rtext rtext' : List UInt8} (h : strcat rtext [0x2d] = some rtext') :
    ∃ u c rest, rtext = u ++ 0 :: c :: rest ∧ 0 ∉ u ∧ rtext' = u ++ 0x2d :: 0 :: rest := by
  rcases exists_split 0 rtext with hnone | ⟨u, t, rfl, hu⟩
  · have hstop : ∀ b ∈ rtext, decide (b = 0) = false := fun b hb ↦
      decide_eq_false fun h ↦ hnone (h ▸ hb)
    rw [strcat, findByte_none hstop] at h
    cases h
  · cases t with
    | nil =>
      have hstop : ∀ b ∈ u, decide (b = 0) = false := fun b hb ↦
        decide_eq_false fun h ↦ hu (h ▸ hb)
      rw [strcat, findByte_append hstop (decide_eq_true rfl), Option.bind_some, Nat.zero_add,
        storeAll_full (by simp)] at h
      cases h
    | cons c rest =>
      rw [strcat_append hu] at h
      cases h
      exact ⟨u, c, rest, rfl, hu, rfl⟩

/-- The buffers that `XidToText` makes the text in. -/
def FirstPartThere (xid : Xid) (rtext : List UInt8) : Prop :=
  0 < xid.gtridLength ∨ rtext.head? = some 0 ∨
    rtext.head? = some 0x2d ∧ 0 < xid.bqualLength ∧ 0 ∈ rtext.take 257

instance (xid : Xid) (rtext : List UInt8) : Decidable (FirstPartThere xid rtext) :=
  inferInstanceAs (Decidable (_ ∨ _ ∨ _ ∧ _ ∧ _))

theorem firstPartThere_of_text {rtext rest : List UInt8} (hlength : rtext.length = 258)
    (htext : xidToText xid rtext = some (xid.text ++ 0 :: rest)) : FirstPartThere xid rtext := by
  rcases Nat.eq_zero_or_pos xid.gtridLength with hzero | hpos
  · refine .inr ?_
    dsimp only [xidToText] at htext
    rw [hzero] at htext
    change ((strcat rtext [0x2d]).bind _) = _ at htext
    obtain ⟨cat, hcat, hmap⟩ := Option.bind_eq_some_iff.1 htext
    obtain ⟨⟨i, j, mem⟩, hloop, hmem⟩ := Option.map_eq_some_iff.1 hmap
    dsimp only at hmem
    obtain ⟨u, c, rest', rfl, hu, rfl⟩ := strcat_split hcat
    have hhead := head?_digitsLoop (Nat.succ_pos 0) hloop
    have hstart : xid.text = 0x2d :: xid.bqual.flatMap lowerHex := by
      rw [Xid.text, Xid.gtrid, hzero]
      rfl
    rw [hmem, hstart] at hhead
    cases u with
    | nil => exact .inl rfl
    | cons b u =>
      obtain rfl : 0x2d = b := Option.some.inj hhead
      rw [List.length_append, List.length_cons, List.length_cons, List.length_cons] at hlength
      refine .inr ⟨rfl, ?_, ?_⟩
      · -- Without a second part what the buffer held would still be there.
        by_contra hb
        obtain hb : xid.bqualLength = 0 := by omega
        rw [hb] at hloop
        obtain rfl : 0x2d :: u ++ 0x2d :: 0 :: rest' = mem :=
          congrArg (fun p ↦ p.2.2) (Option.some.inj hloop)
        rw [hstart, Xid.bqual, hb] at hmem
        have htail := (List.cons.inj hmem).2
        cases u with
        | nil => exact absurd (List.cons.inj htail).1 (by decide)
        | cons b u =>
          exact hu (List.mem_cons_of_mem _ ((List.cons.inj htail).1 ▸ List.mem_cons_self))
      · have hle : (0x2d :: u ++ [0]).length ≤ 257 := by
          rw [List.length_append, List.length_cons, List.length_singleton]
          omega
        rw [List.append_cons, List.take_append, List.take_of_length_le hle]
        exact List.mem_append_left _ (List.mem_append_right _ (List.mem_singleton_self 0))
  · exact .inl hpos

end Writing

/-! ## Reading -/

section Reading

/-- Whatever the text, what is stored has room in the data. -/
theorem pgHex2binLoop_isSome {length : Nat} {hByte : Bool} {src out : List UInt8} {dstWk : Nat}
    (hsrc : length ≤ src.length)
    (hroom : dstWk + (if hByte then (length + 1) / 2 else length / 2 + 1) ≤ out.length) :
    ∃ out' dst', pgHex2binLoop length hByte src out dstWk = some (out', dst') ∧
      out'.length = out.length := by
  induction length generalizing hByte src out dstWk with
  | zero => exact ⟨out, dstWk, rfl, rfl⟩
  | succ length ih =>
    obtain ⟨chr, src, rfl⟩ := List.exists_cons_of_length_pos (Nat.zero_lt_of_lt hsrc)
    rw [List.length_cons] at hsrc
    rw [pgHex2binLoop]
    split
    · exact ⟨out, dstWk, rfl, rfl⟩
    · cases hByte with
      | true =>
        rw [if_pos rfl] at hroom ⊢
        rw [store, if_pos (by omega), Option.bind_some]
        obtain ⟨out', dst', hloop, hlength⟩ := @ih false src
          (out.set dstWk (hex2binVal chr <<< 4)) dstWk (by omega)
          (by rw [if_neg Bool.false_ne_true, List.length_set]; omega)
        exact ⟨out', dst', hloop, hlength.trans List.length_set⟩
      | false =>
        rw [if_neg Bool.false_ne_true] at hroom ⊢
        have hlt : dstWk < out.length := by omega
        rw [List.getElem?_eq_getElem hlt, Option.bind_some, store, if_pos hlt, Option.bind_some]
        obtain ⟨out', dst', hloop, hlength⟩ := @ih true src
          (out.set dstWk (out[dstWk] + hex2binVal chr)) (dstWk + 1) (by omega)
          (by rw [if_pos rfl, List.length_set]; omega)
        exact ⟨out', dst', hloop, hlength.trans List.length_set⟩

/-- `TextToXid` stores inside the data whatever it reads, if that is not longer than a name of the
server. -/
theorem textToXid_isSome {target : Xid} {rtext : List UInt8}
    (hsize : target.data.length = xidDataSize) (hnul : 0 ∉ rtext) (hlength : rtext.length ≤ 200) :
    ∃ xid n, textToXid target rtext = some (xid, n) ∧ xid.data.length = xidDataSize := by
  rw [xidDataSize] at hsize
  -- The second part begins where the first ends, rounded down; both together have the half.
  have hread : ∀ glen blen : Nat, glen ≤ rtext.length →
      glen + 1 + blen ≤ rtext.length ∨ blen = 0 →
      ∃ out dst out' dst',
        pgHex2binLoop glen true (rtext ++ [0]) target.data 0 = some (out, dst) ∧
        pgHex2binLoop blen true ((rtext ++ [0]).drop (glen + 1)) out (glen / 2) =
          some (out', dst') ∧ out'.length = xidDataSize := by
    intro glen blen hglen hblen
    obtain ⟨out, dst, hfirst, hout⟩ := @pgHex2binLoop_isSome glen true (rtext ++ [0]) target.data 0
      (by rw [List.length_append]; omega) (by rw [if_pos rfl]; omega)
    obtain ⟨out', dst', hsecond, hout'⟩ :=
      @pgHex2binLoop_isSome blen true ((rtext ++ [0]).drop (glen + 1)) out (glen / 2)
        (by rw [List.length_drop, List.length_append]; omega) (by rw [if_pos rfl]; omega)
    exact ⟨out, dst, out', dst', hfirst, hsecond, by rw [hout', hout, hsize, xidDataSize]⟩
  dsimp only [textToXid]
  rcases exists_split 0x2d rtext with hnone | ⟨u, t, rfl, hu⟩
  · have hchr : strchr (rtext ++ [0]) 0 0x2d = some none :=
      @strchr_null [] rtext [] 0x2d (by decide) fun b hb ↦
        ⟨fun h ↦ hnone (h ▸ hb), fun h ↦ hnul (h ▸ hb)⟩
    obtain ⟨out, dst, out', dst', hfirst, hsecond, hout⟩ :=
      hread rtext.length 0 (Nat.le_refl _) (.inr rfl)
    rw [hchr, Option.bind_some]
    dsimp only [Option.getD_none]
    rw [hfirst, Option.bind_some, Option.isSome_none, if_neg Bool.false_ne_true]
    dsimp only
    rw [hsecond]
    exact ⟨_, _, rfl, hout⟩
  · have hchr : strchr (u ++ 0x2d :: t ++ [0]) 0 0x2d = some (some u.length) := by
      have h := @strchr_found [] u (t ++ [0]) 0x2d fun b hb ↦
        ⟨fun h ↦ hu (h ▸ hb), fun h ↦ hnul (h ▸ List.mem_append_left _ hb)⟩
      rw [List.append_assoc, List.cons_append]
      simpa using h
    rw [List.length_append, List.length_cons] at hread ⊢
    obtain ⟨out, dst, out', dst', hfirst, hsecond, hout⟩ :=
      hread u.length (u.length + (t.length + 1) - u.length - 1) (by omega) (.inl (by omega))
    rw [hchr, Option.bind_some]
    dsimp only [Option.getD_some]
    rw [hfirst, Option.bind_some, Option.isSome_some, if_pos rfl]
    dsimp only
    rw [hsecond]
    exact ⟨_, _, rfl, hout⟩

/-- The text of an identifier is read back. -/
theorem textToXid_text {xid target : Xid} (h : xid.Valid)
    (hsize : target.data.length = xidDataSize) :
    textToXid target xid.text =
      some (target.withParts xid, xid.gtridLength + xid.bqualLength) := by
  have hgtrid := h.gtrid_le
  have hbqual := h.bqual_le
  have hglen := Xid.length_gtrid h
  have hblen := Xid.length_bqual h
  rw [xidDataSize] at hsize
  have hlength : (xid.gtrid.flatMap lowerHex).length = 2 * xid.gtridLength := by
    rw [length_flatMap_lowerHex, hglen]
  have hlength' : (xid.bqual.flatMap lowerHex).length = 2 * xid.bqualLength := by
    rw [length_flatMap_lowerHex, hblen]
  have hchr : strchr (xid.text ++ [0]) 0 0x2d = some (some (2 * xid.gtridLength)) := by
    have hfound := @strchr_found [] (xid.gtrid.flatMap lowerHex)
      (xid.bqual.flatMap lowerHex ++ [0]) 0x2d fun b hb ↦ (ne_of_mem_digits hb).symm
    rw [hlength] at hfound
    rw [Xid.text, List.append_assoc, List.cons_append]
    simpa using hfound
  have hfirst : pgHex2binLoop (2 * xid.gtridLength) true (xid.text ++ [0]) target.data 0 =
      some (overwrite target.data xid.gtrid, xid.gtridLength) := by
    have hpairs := pgHex2binLoop_pairs hexPair_lowerHex xid.gtrid [] target.data
      (0x2d :: xid.bqual.flatMap lowerHex ++ [0]) (by omega)
    rw [hglen] at hpairs
    rw [Xid.text, List.append_assoc]
    simpa using hpairs
  have hdrop : (xid.text ++ [0]).drop (2 * xid.gtridLength + 1) =
      xid.bqual.flatMap lowerHex ++ [0] := by
    rw [Xid.text, List.append_assoc, List.cons_append, ← hlength, List.append_cons,
      ← List.length_singleton (a := (0x2d : UInt8)), ← List.length_append]
    exact List.drop_left
  have hsecond : pgHex2binLoop (2 * xid.bqualLength) true (xid.bqual.flatMap lowerHex ++ [0])
      (overwrite target.data xid.gtrid) xid.gtridLength =
      some (overwrite target.data (xid.gtrid ++ xid.bqual),
        xid.gtridLength + xid.bqualLength) := by
    have hpairs := pgHex2binLoop_pairs hexPair_lowerHex xid.bqual xid.gtrid
      (target.data.drop xid.gtrid.length) [0] (by rw [List.length_drop]; omega)
    rw [hglen, hblen] at hpairs
    rw [overwrite, overwrite, hglen, hpairs, overwrite, List.drop_drop, List.append_assoc,
      List.length_append, hglen, hblen]
  dsimp only [textToXid]
  rw [hchr, Option.bind_some]
  dsimp only [Option.getD_some]
  rw [hfirst, Option.bind_some, Option.isSome_some, if_pos rfl]
  dsimp only
  have hslen : xid.text.length - 2 * xid.gtridLength - 1 = 2 * xid.bqualLength := by
    rw [Xid.text, List.length_append, List.length_cons, hlength, hlength']
    omega
  rw [hslen, hdrop, show 2 * xid.gtridLength / 2 = xid.gtridLength by omega, hsecond,
    Option.map_some, show 2 * xid.bqualLength / 2 = xid.bqualLength by omega,
    show (2 * xid.gtridLength + 2 * xid.bqualLength) / 2 = xid.gtridLength + xid.bqualLength by
      omega]
  rfl

end Reading

/-! ## Round trip -/

/-- An identifier survives its text: the text is written whatever the buffer holds, by both copies
of the function alike, it is read back, and no name of the server makes the reader store outside
the data. -/
structure Survives (xid : Xid) (rtext : List UInt8) : Prop where
  writes : ∃ rest, xidToText xid rtext = some (xid.text ++ 0 :: rest)
  copies : enlistXidToText xid rtext = xidToText xid rtext
  reads : ∀ target : Xid, target.data.length = xidDataSize →
    textToXid target xid.text = some (target.withParts xid, xid.gtridLength + xid.bqualLength)
  inside : ∀ (target : Xid) (gid : List UInt8), target.data.length = xidDataSize → 0 ∉ gid →
    gid.length ≤ 200 → ∃ xid n, textToXid target gid = some (xid, n) ∧
      xid.data.length = xidDataSize

/-- That is so just when there is a first part or the buffer happens to begin with what the code
takes for it. -/
theorem survives_iff {xid : Xid} (h : xid.Valid) {rtext : List UInt8}
    (hlength : rtext.length = 258) : Survives xid rtext ↔ FirstPartThere xid rtext := by
  constructor
  · rintro ⟨⟨rest, htext⟩, -, -, -⟩
    exact firstPartThere_of_text hlength htext
  · intro hfirst
    refine ⟨?_, rfl, fun target hsize ↦ textToXid_text h hsize,
      fun target gid hsize hnul hgid ↦ textToXid_isSome hsize hnul hgid⟩
    rcases Nat.eq_zero_or_pos xid.gtridLength with hzero | hpos
    · rcases hfirst with hpos | hstart | ⟨hstart, hbqual, hend⟩
      · omega
      · exact xidToText_empty h hlength hzero hstart
      · exact xidToText_minus h hlength hzero hstart hbqual hend
    · exact xidToText_pos h hlength hpos

/-- Parts of two bytes and of one, with a buffer that is full of letters. -/
theorem survives_parts : Survives ⟨0, 2, 1, [0xab, 0x01, 0xff] ++ List.replicate 125 0⟩
    (List.replicate 258 0x78) :=
  (survives_iff ⟨by rw [List.length_append, List.length_replicate]; rfl, by decide, by decide⟩
    List.length_replicate).2 (.inl (by decide))

/-- Without a first part the `-` goes behind what the buffer holds. -/
theorem survives_not_empty : ∃ rest,
    xidToText ⟨0, 0, 1, 0xff :: List.replicate 127 0⟩ (0x78 :: List.replicate 257 0) =
      some ([0x78, 0x66, 0x66] ++ 0 :: rest) ∧
    ¬Survives ⟨0, 0, 1, 0xff :: List.replicate 127 0⟩ (0x78 :: List.replicate 257 0) := by
  refine ⟨List.replicate 254 0, by decide +kernel, ?_⟩
  rintro ⟨⟨rest, htext⟩, -, -, -⟩
  have hfirst := firstPartThere_of_text (by rw [List.length_cons, List.length_replicate]) htext
  exact absurd hfirst (by decide +kernel)

end PsqlOdbc.Xa
