import Mathlib.Data.Set.Basic
import PsqlOdbc.Lib.Memory
import PsqlOdbc.WinUnicode

/-!
# Bookmarks (`statement.c`)

A bookmark is the number of a row and, as far as there is room, the row's key.  Where the bookmark
of a row of the rowset is, and where its length is, is computed from the binding: by
`CALC_BOOKMARK_ADDR` in `size_t`, but for the length in 32 bits.
-/

namespace PsqlOdbc

namespace Bookmark

open Lib

/-! ## Numbers in memory -/

/-- The number of little endian bytes. -/
def leWord : List UInt8 → ℕ
  | [] => 0
  | b :: bs => b.toNat + 256 * leWord bs

/-- The number that bytes in memory stand for. -/
def wordOf (littleEndian : Bool) (bs : List UInt8) : ℕ :=
  leWord (if littleEndian then bs else bs.reverse)

theorem memBytes_true_succ (n x : ℕ) :
    memBytes true (n + 1) x = UInt8.ofNat x :: memBytes true n (x / 256) := by
  simp [memBytes, List.range_succ_eq_map, Nat.pow_succ', Nat.div_div_eq_div_mul]

theorem memBytes_false (n x : ℕ) : memBytes false n x = (memBytes true n x).reverse := rfl

@[simp] theorem length_memBytes (littleEndian : Bool) (n x : ℕ) :
    (memBytes littleEndian n x).length = n := by
  cases littleEndian <;> simp [memBytes]

theorem leWord_memBytes (n x : ℕ) : leWord (memBytes true n x) = x % 256 ^ n := by
  induction n generalizing x with
  | zero =>
    rw [Nat.pow_zero, Nat.mod_one]
    rfl
  | succ n ih =>
    rw [memBytes_true_succ, leWord, ih, Nat.pow_succ', Nat.mod_mul]
    simp

theorem leWord_lt (bs : List UInt8) : leWord bs < 256 ^ bs.length := by
  induction bs with
  | nil => exact Nat.one_pos
  | cons b bs ih =>
    have hb := b.toNat_lt
    rw [leWord, List.length_cons, Nat.pow_succ']
    omega

theorem memBytes_leWord (bs : List UInt8) : memBytes true bs.length (leWord bs) = bs := by
  induction bs with
  | nil => rfl
  | cons b bs ih =>
    have hb := b.toNat_lt
    have hdiv : (b.toNat + 256 * leWord bs) / 256 = leWord bs := by omega
    have hof : UInt8.ofNat (b.toNat + 256 * leWord bs) = b := by
      apply UInt8.toNat_inj.1
      rw [UInt8.toNat_ofNat']
      omega
    rw [List.length_cons, leWord, memBytes_true_succ, hdiv, ih, hof]

section

variable (littleEndian : Bool) {n x : ℕ} {bs : List UInt8}

theorem wordOf_memBytes (h : x < 256 ^ n) :
    wordOf littleEndian (memBytes littleEndian n x) = x := by
  have hword := leWord_memBytes n x
  rw [Nat.mod_eq_of_lt h] at hword
  cases littleEndian with
  | true => exact hword
  | false => rwa [wordOf, memBytes_false, if_neg Bool.false_ne_true, List.reverse_reverse]

theorem wordOf_lt (h : bs.length = n) : wordOf littleEndian bs < 256 ^ n := by
  rw [← h]
  cases littleEndian with
  | true => exact leWord_lt bs
  | false =>
    rw [← List.length_reverse]
    exact leWord_lt bs.reverse

theorem memBytes_wordOf (h : bs.length = n) :
    memBytes littleEndian n (wordOf littleEndian bs) = bs := by
  rw [← h]
  cases littleEndian with
  | true => exact memBytes_leWord bs
  | false =>
    rw [memBytes_false, ← List.length_reverse, wordOf, if_neg Bool.false_ne_true, memBytes_leWord,
      List.reverse_reverse]

theorem memBytes_uInt16 (h : bs.length = 2) :
    memBytes littleEndian 2 (UInt16.ofNat (wordOf littleEndian bs)).toNat = bs := by
  rw [UInt16.toNat_ofNat_of_lt' (wordOf_lt littleEndian h), memBytes_wordOf littleEndian h]

theorem memBytes_uInt32 (h : bs.length = 4) :
    memBytes littleEndian 4 (UInt32.ofNat (wordOf littleEndian bs)).toNat = bs := by
  rw [UInt32.toNat_ofNat_of_lt' (wordOf_lt littleEndian h), memBytes_wordOf littleEndian h]

theorem memBytes_zero (n : ℕ) :
    memBytes littleEndian n 0 = List.replicate n 0 := by
  have htrue : memBytes true n 0 = List.replicate n 0 := by
    induction n with
    | zero => rfl
    | succ n ih =>
      rw [memBytes_true_succ, Nat.zero_div, ih]
      rfl
  cases littleEndian with
  | true => exact htrue
  | false => rw [memBytes_false, htrue, List.reverse_replicate]

end

/-! ## The program -/

/-- `KeySet`. -/
structure KeySet where
  status : UInt16
  offset : UInt16
  blocknum : UInt32
  oid : UInt32
  deriving DecidableEq, Repr

/-- `PG_BM`. -/
structure PgBm where
  index : Int32
  keys : KeySet
  deriving DecidableEq, Repr

/-- The key of `pg_memset`. -/
def KeySet.zero : KeySet := ⟨0, 0, 0, 0⟩

namespace PgBm

/-- `sizeof(pg_bm)`. -/
def size : ℕ := 16

/-- A bookmark as it is in memory. -/
def bytes (littleEndian : Bool) (bm : PgBm) : List UInt8 :=
  memBytes littleEndian 4 bm.index.toUInt32.toNat ++
    (memBytes littleEndian 2 bm.keys.status.toNat ++
      (memBytes littleEndian 2 bm.keys.offset.toNat ++
        (memBytes littleEndian 4 bm.keys.blocknum.toNat ++
          memBytes littleEndian 4 bm.keys.oid.toNat)))

/-- The bookmark that is in memory. -/
def ofBytes (littleEndian : Bool) (bs : List UInt8) : PgBm where
  index := (UInt32.ofNat (wordOf littleEndian (bs.take 4))).toInt32
  keys :=
    { status := UInt16.ofNat (wordOf littleEndian ((bs.drop 4).take 2))
      offset := UInt16.ofNat (wordOf littleEndian ((bs.drop 6).take 2))
      blocknum := UInt32.ofNat (wordOf littleEndian ((bs.drop 8).take 4))
      oid := UInt32.ofNat (wordOf littleEndian ((bs.drop 12).take 4)) }

end PgBm

/-- The types that column 0 can be bound with. -/
inductive ReturnType
  | sqlCBookmark
  | sqlCVarbookmark
  deriving DecidableEq, Repr

/-- `BindInfoClass` of the bookmark column; a bookmark is bound with room for the row's number. -/
structure BindInfoClass where
  returntype : ReturnType
  buffer : ℤ
  buflen : ℕ
  used : Option ℤ
  four_le : 4 ≤ buflen

/-- `ARDFields`. -/
structure ArdFields where
  bookmark : BindInfoClass
  bindSize : UInt32
  rowOffsetPtr : Option ℕ

/-- `SC_make_int4_bookmark`. -/
def scMakeInt4Bookmark (b : Int32) : Int32 := if b < 0 then b else b + 1

/-- `SC_resolve_int4_bookmark`. -/
def scResolveInt4Bookmark (b : Int32) : Int32 := if b < 0 then b else b - 1

/-- `CALC_BOOKMARK_ADDR`. -/
def calcBookmarkAddr (book : BindInfoClass) (offset : ℕ) (bindSize : UInt32) (index : ℕ) : ℤ :=
  let step : ℕ :=
    if 0 < bindSize then bindSize.toNat
    else if book.returntype = .sqlCVarbookmark then book.buflen
    else 4
  book.buffer + offset + (step * index : ℕ)

/-- Where the length of a row's bookmark is: the product of the row and of the bind size has the
type of the bind size. -/
def calcUsedAddr (used : ℤ) (offset : ℕ) (bindSize : UInt32) (bindRow : ℕ) : ℤ :=
  if 0 < bindSize then used + offset + (UInt32.ofNat bindRow * bindSize).toNat
  else used + offset + (bindRow * 8 : ℕ)

namespace ArdFields

variable (littleEndian : Bool) (opts : ArdFields)

/-- `row_offset_ptr ? *row_offset_ptr : 0`. -/
def offset : ℕ := opts.rowOffsetPtr.getD 0

/-- `cvtlen`. -/
def cvtlen : ℕ :=
  if opts.bookmark.returntype = .sqlCBookmark then 4
  else if PgBm.size ≤ opts.bookmark.buflen then PgBm.size
  else if 12 ≤ opts.bookmark.buflen then 12
  else 4

/-- `SC_Create_bookmark`. -/
def scCreateBookmark (bindRow : ℕ) (currTuple : Int32) (keyset : Option KeySet)
    (m : Memory UInt8) : Memory UInt8 :=
  let bm : PgBm := ⟨scMakeInt4Bookmark currTuple, keyset.getD KeySet.zero⟩
  let m := m.write (calcBookmarkAddr opts.bookmark opts.offset opts.bindSize bindRow)
    ((bm.bytes littleEndian).take opts.cvtlen)
  match opts.bookmark.used with
  | none => m
  | some used =>
    m.write (calcUsedAddr used opts.offset opts.bindSize bindRow)
      (memBytes littleEndian 8 opts.cvtlen)

/-- `SC_Resolve_bookmark`. -/
def scResolveBookmark (idx : ℕ) (m : Memory UInt8) : PgBm :=
  let cpylen :=
    match opts.bookmark.used with
    | none => 4
    | some used =>
      let len := wordOf littleEndian (m.read (calcUsedAddr used opts.offset opts.bindSize idx) 8)
      if PgBm.size ≤ len then PgBm.size else if 12 ≤ len then 12 else 4
  let bm := PgBm.ofBytes littleEndian
    (m.read (calcBookmarkAddr opts.bookmark opts.offset opts.bindSize idx) cpylen ++
      List.replicate (PgBm.size - cpylen) 0)
  { bm with index := scResolveInt4Bookmark bm.index }

/-- The bookmarks of the rows of a rowset, created from the first row on. -/
def createRowset (numbers : ℕ → Int32) (keysets : ℕ → Option KeySet) :
    ℕ → Memory UInt8 → Memory UInt8
  | 0, m => m
  | rows + 1, m =>
    opts.scCreateBookmark littleEndian rows (numbers rows) (keysets rows)
      (createRowset numbers keysets rows m)

end ArdFields

/-! ## Bookmarks that round trip -/

/-- A row number that a bookmark is for: its successor is one, too. -/
def Supported (t : Int32) : Prop := 0 ≤ t ∧ t ≠ Int32.maxValue

instance (t : Int32) : Decidable (Supported t) := inferInstanceAs (Decidable (_ ∧ _))

/-- The part of a key that so many bytes cover. -/
def KeySet.covered (key : KeySet) (len : ℕ) : KeySet :=
  if PgBm.size ≤ len then key else if 12 ≤ len then { key with oid := 0 } else KeySet.zero

/-- The places of so many bytes at an address. -/
def bytesAt (a : ℤ) (n : ℕ) : Set ℤ := { b | a ≤ b ∧ b < a + n }

namespace ArdFields

variable (littleEndian : Bool) (opts : ArdFields)

/-- The distance of two rows' bookmarks. -/
def stride : ℕ :=
  if 0 < opts.bindSize then opts.bindSize.toNat
  else if opts.bookmark.returntype = .sqlCVarbookmark then opts.bookmark.buflen
  else 4

/-- The distance of two rows' lengths. -/
def usedStride : ℕ := if 0 < opts.bindSize then opts.bindSize.toNat else 8

/-- The bytes of a row's bookmark. -/
def bookmarkSlot (i : ℕ) : Set ℤ :=
  bytesAt (opts.bookmark.buffer + opts.offset + (opts.stride * i : ℕ)) opts.cvtlen

/-- The bytes of a row's length. -/
def usedSlot (i : ℕ) : Set ℤ :=
  { a | ∃ used ∈ opts.bookmark.used,
    a ∈ bytesAt (used + opts.offset + (i * opts.usedStride : ℕ)) 8 }

/-- The bytes that belong to a row of the rowset. -/
def slot (i : ℕ) : Set ℤ := opts.bookmarkSlot i ∪ opts.usedSlot i

/-- How much of a bookmark its stored length covers. -/
def coveredLength : ℕ := if opts.bookmark.used.isSome then opts.cvtlen else 4

/-- The bookmark of a row, as it is stored. -/
def stored (i : ℕ) (m : Memory UInt8) : List UInt8 :=
  m.read (opts.bookmark.buffer + opts.offset + (opts.stride * i : ℕ)) opts.cvtlen

/-- Bookmarks are resolved to the rows they were created for, and the rows keep to their slots. -/
structure Right (rows : ℕ) : Prop where
  resolve : ∀ i < rows, ∀ t, Supported t → ∀ key m,
    opts.scResolveBookmark littleEndian i (opts.scCreateBookmark littleEndian i t key m) =
      ⟨t, (key.getD KeySet.zero).covered opts.coveredLength⟩
  differ : ∀ i < rows, ∀ i' < rows, ∀ t t', Supported t → Supported t' → t ≠ t' → ∀ key key' m m',
    opts.stored i (opts.scCreateBookmark littleEndian i t key m) ≠
      opts.stored i' (opts.scCreateBookmark littleEndian i' t' key' m')
  written : ∀ i < rows, ∀ t, Supported t → ∀ key m, ∀ a ∉ opts.slot i,
    opts.scCreateBookmark littleEndian i t key m a = m a
  read : ∀ i < rows, ∀ t, Supported t → ∀ key m m',
    (∀ a ∈ opts.slot i, m' a = opts.scCreateBookmark littleEndian i t key m a) →
      opts.scResolveBookmark littleEndian i m' =
        opts.scResolveBookmark littleEndian i (opts.scCreateBookmark littleEndian i t key m)
  others : ∀ i < rows, ∀ j < rows, i ≠ j → ∀ t, Supported t → ∀ key m, ∀ a ∈ opts.slot j,
    opts.scCreateBookmark littleEndian i t key m a = m a
  rowset : ∀ numbers : ℕ → Int32, (∀ i < rows, Supported (numbers i)) → ∀ keysets m, ∀ i < rows,
    opts.scResolveBookmark littleEndian i
      (opts.createRowset littleEndian numbers keysets rows m) =
        ⟨numbers i, ((keysets i).getD KeySet.zero).covered opts.coveredLength⟩

/-- The slots of the rows lie apart, and no product of a row and of the bind size that is the
distance of a length goes beyond 32 bits. -/
structure Fits (rows : ℕ) : Prop where
  product : opts.bookmark.used.isSome → ∀ i < rows, i * opts.bindSize.toNat < 2 ^ 32
  own : ∀ i < rows, ∀ a ∈ opts.bookmarkSlot i, a ∉ opts.usedSlot i
  apart : ∀ i < rows, ∀ j < rows, i ≠ j → ∀ a ∈ opts.slot i, a ∉ opts.slot j

end ArdFields

/-! ## What is stored -/

section

variable (littleEndian : Bool)

theorem makeInt4_ne {t : Int32} (h : Supported t) : ¬ t < 0 ∧ ¬ t + 1 < 0 := by
  obtain ⟨h0, hmax⟩ := h
  have hmax' : t.toInt ≠ 2147483647 := fun h ↦ hmax (Int32.toInt_inj.1 h)
  have hlt := t.toInt_lt
  have hle := Int32.le_iff_toInt_le.1 h0
  rw [Int32.toInt_zero] at hle
  refine ⟨Int32.not_lt.2 h0, ?_⟩
  rw [Int32.lt_iff_toInt_lt, Int32.toInt_add, Int32.toInt_one, Int32.toInt_zero, Int.bmod_eq_of_le]
  all_goals omega

theorem resolve_make {t : Int32} (h : Supported t) :
    scResolveInt4Bookmark (scMakeInt4Bookmark t) = t := by
  obtain ⟨h0, h1⟩ := makeInt4_ne h
  rw [scMakeInt4Bookmark, if_neg h0, scResolveInt4Bookmark, if_neg h1, Int32.add_sub_cancel]

/-- The only index that is resolved to a supported row number is the one made from it. -/
theorem eq_make_of_resolve {t b : Int32} (h : Supported t) (hb : scResolveInt4Bookmark b = t) :
    b = scMakeInt4Bookmark t := by
  obtain ⟨h0, -⟩ := makeInt4_ne h
  rw [scMakeInt4Bookmark, if_neg h0]
  rw [scResolveInt4Bookmark] at hb
  split at hb
  · rename_i hneg
    rw [hb] at hneg
    exact absurd hneg h0
  · rw [← hb, Int32.sub_add_cancel]

namespace PgBm

@[simp] theorem length_bytes (bm : PgBm) : (bm.bytes littleEndian).length = size := by
  simp [bytes, size]

theorem ofBytes_bytes (bm : PgBm) : ofBytes littleEndian (bm.bytes littleEndian) = bm := by
  obtain ⟨index, status, offset, blocknum, oid⟩ := bm
  have hindex := wordOf_memBytes littleEndian (n := 4) index.toUInt32.toNat_lt
  have hstatus := wordOf_memBytes littleEndian (n := 2) status.toNat_lt
  have hoffset := wordOf_memBytes littleEndian (n := 2) offset.toNat_lt
  have hblock := wordOf_memBytes littleEndian (n := 4) blocknum.toNat_lt
  have hoid := wordOf_memBytes littleEndian (n := 4) oid.toNat_lt
  simp [ofBytes, bytes, List.drop_append, List.drop_eq_nil_of_le, List.take_of_length_le, hindex,
    hstatus, hoffset, hblock, hoid]

/-- Bytes of a bookmark's size are the bytes of the bookmark that they are read as. -/
theorem bytes_ofBytes {bs : List UInt8} (h : bs.length = size) :
    (ofBytes littleEndian bs).bytes littleEndian = bs := by
  rw [size] at h
  have hword (k n : ℕ) (hn : k + n ≤ 16) : ((bs.drop k).take n).length = n := by
    rw [List.length_take, List.length_drop]
    omega
  have hsplit (k n : ℕ) : (bs.drop k).take n ++ bs.drop (k + n) = bs.drop k := by
    rw [← List.drop_drop, List.take_append_drop]
  have hlast : (bs.drop 12).take 4 = bs.drop 12 :=
    List.take_of_length_le (by rw [List.length_drop]; omega)
  rw [bytes, ofBytes]
  dsimp only
  rw [memBytes_uInt16 littleEndian (hword 4 2 (by omega)),
    memBytes_uInt16 littleEndian (hword 6 2 (by omega)),
    memBytes_uInt32 littleEndian (hword 8 4 (by omega)),
    memBytes_uInt32 littleEndian (hword 12 4 (by omega)), hlast, hsplit 8 4, hsplit 6 2, hsplit 4 2]
  refine (congrArg (· ++ _) (memBytes_uInt32 littleEndian (hword 0 4 (by omega)))).trans ?_
  exact List.take_append_drop 4 bs

theorem bytes_injective {bm bm' : PgBm}
    (h : bm.bytes littleEndian = bm'.bytes littleEndian) : bm = bm' := by
  rw [← ofBytes_bytes littleEndian bm, h, ofBytes_bytes]

/-- A bookmark of which so many bytes are there, with zeros for the others. -/
theorem take_bytes {len : ℕ} (bm : PgBm) (h : len = 4 ∨ len = 12 ∨ len = 16) :
    (bm.bytes littleEndian).take len ++ List.replicate (size - len) 0 =
      bytes littleEndian ⟨bm.index, bm.keys.covered len⟩ := by
  obtain rfl | rfl | rfl := h
  · simp [bytes, size, KeySet.covered, KeySet.zero, memBytes_zero]
  · simp [bytes, size, KeySet.covered, List.take_append, List.take_of_length_le, memBytes_zero]
  · simp [size, KeySet.covered, List.take_of_length_le]

end PgBm

namespace ArdFields

variable {opts : ArdFields} {i : ℕ} {m m' : Memory UInt8}

theorem cvtlen_cases (opts : ArdFields) :
    opts.cvtlen = 4 ∨ opts.cvtlen = 12 ∨ opts.cvtlen = 16 := by
  unfold cvtlen PgBm.size
  split
  · exact .inl rfl
  · split
    · exact .inr (.inr rfl)
    · split
      · exact .inr (.inl rfl)
      · exact .inl rfl

/-- The bytes of a bookmark that are stored. -/
def storedBytes (opts : ArdFields) (bm : PgBm) : List UInt8 :=
  (bm.bytes littleEndian).take opts.cvtlen

@[simp] theorem length_storedBytes (bm : PgBm) :
    (opts.storedBytes littleEndian bm).length = opts.cvtlen := by
  have hcases := opts.cvtlen_cases
  rw [storedBytes, List.length_take, PgBm.length_bytes, PgBm.size]
  omega

theorem index_eq_of_storedBytes {bm bm' : PgBm}
    (h : opts.storedBytes littleEndian bm = opts.storedBytes littleEndian bm') :
    bm.index = bm'.index := by
  have hcases := opts.cvtlen_cases
  have hzeros := congrArg (· ++ List.replicate (PgBm.size - opts.cvtlen) (0 : UInt8)) h
  change _ ++ _ = _ ++ _ at hzeros
  rw [storedBytes, storedBytes, PgBm.take_bytes littleEndian bm hcases,
    PgBm.take_bytes littleEndian bm' hcases] at hzeros
  have hbm := PgBm.bytes_injective littleEndian hzeros
  injection hbm

/-- A row's bookmark and its length are in memory. -/
structure Holds (opts : ArdFields) (i : ℕ) (bm : PgBm) (m : Memory UInt8) : Prop where
  stored : opts.stored i m = opts.storedBytes littleEndian bm
  used : ∀ used ∈ opts.bookmark.used,
    m.read (calcUsedAddr used opts.offset opts.bindSize i) 8 = memBytes littleEndian 8 opts.cvtlen

theorem stored_four (i : ℕ) (m : Memory UInt8) :
    m.read (calcBookmarkAddr opts.bookmark opts.offset opts.bindSize i) 4 =
      (opts.stored i m).take 4 := by
  have hcases := opts.cvtlen_cases
  have hadd : opts.cvtlen = 4 + (opts.cvtlen - 4) := by omega
  rw [stored, hadd, Memory.read_add, List.take_left' (Memory.length_read _ _ _)]
  rfl

/-- With the length that is stored, as much of the bookmark is read as is there. -/
theorem resolve_of_used {used : ℤ} (hused : used ∈ opts.bookmark.used)
    (h : m.read (calcUsedAddr used opts.offset opts.bindSize i) 8 =
      memBytes littleEndian 8 opts.cvtlen) :
    opts.scResolveBookmark littleEndian i m =
      let bm := PgBm.ofBytes littleEndian
        (opts.stored i m ++ List.replicate (PgBm.size - opts.cvtlen) 0)
      ⟨scResolveInt4Bookmark bm.index, bm.keys⟩ := by
  have hcases := opts.cvtlen_cases
  have hword : wordOf littleEndian (memBytes littleEndian 8 opts.cvtlen) = opts.cvtlen :=
    wordOf_memBytes littleEndian (by omega)
  have hcpy : (if PgBm.size ≤ opts.cvtlen then PgBm.size
      else if 12 ≤ opts.cvtlen then 12 else 4) = opts.cvtlen := by
    rw [PgBm.size]
    split
    · omega
    · split <;> omega
  unfold scResolveBookmark
  rw [Option.mem_def.1 hused]
  dsimp only
  rw [h, hword, hcpy]
  rfl

/-- What is in memory is resolved to the row that it is for. -/
theorem Holds.resolve {bm : PgBm} (h : opts.Holds littleEndian i bm m) :
    opts.scResolveBookmark littleEndian i m =
      ⟨scResolveInt4Bookmark bm.index, bm.keys.covered opts.coveredLength⟩ := by
  have hcases := opts.cvtlen_cases
  cases hused : opts.bookmark.used with
  | none =>
    have hlen : opts.coveredLength = 4 := by rw [coveredLength, hused]; rfl
    have htake : (opts.storedBytes littleEndian bm).take 4 = (bm.bytes littleEndian).take 4 := by
      rw [storedBytes, List.take_take]
      congr 1
      omega
    unfold scResolveBookmark
    rw [hused]
    dsimp only
    rw [stored_four, h.stored, htake, PgBm.take_bytes littleEndian bm (.inl rfl),
      PgBm.ofBytes_bytes, hlen]
  | some used =>
    have hlen : opts.coveredLength = opts.cvtlen := by rw [coveredLength, hused]; rfl
    rw [resolve_of_used littleEndian hused (h.used used hused), h.stored, storedBytes,
      PgBm.take_bytes littleEndian bm hcases, PgBm.ofBytes_bytes, hlen]

/-- `SC_Create_bookmark` writes the bookmark and then its length. -/
theorem create_eq (opts : ArdFields) (i : ℕ) (t : Int32) (key : Option KeySet) (m : Memory UInt8) :
    opts.scCreateBookmark littleEndian i t key m =
      let m := m.write (calcBookmarkAddr opts.bookmark opts.offset opts.bindSize i)
        (opts.storedBytes littleEndian ⟨scMakeInt4Bookmark t, key.getD KeySet.zero⟩)
      match opts.bookmark.used with
      | none => m
      | some used =>
        m.write (calcUsedAddr used opts.offset opts.bindSize i)
          (memBytes littleEndian 8 opts.cvtlen) :=
  rfl

/-- The bytes that `SC_Create_bookmark` writes a row's length to. -/
def writtenUsed (opts : ArdFields) (i : ℕ) : Set ℤ :=
  { a | ∃ used ∈ opts.bookmark.used, a ∈ bytesAt (calcUsedAddr used opts.offset opts.bindSize i) 8 }

theorem create_of_notMem {t : Int32} {key : Option KeySet} {a : ℤ} (hbook : a ∉ opts.bookmarkSlot i)
    (hused : a ∉ opts.writtenUsed i) : opts.scCreateBookmark littleEndian i t key m a = m a := by
  have hfirst : (m.write (calcBookmarkAddr opts.bookmark opts.offset opts.bindSize i)
      (opts.storedBytes littleEndian ⟨scMakeInt4Bookmark t, key.getD KeySet.zero⟩)) a = m a := by
    refine Memory.write_of_not fun h ↦ hbook ?_
    rwa [length_storedBytes] at h
  rw [create_eq]
  cases hsome : opts.bookmark.used with
  | none => exact hfirst
  | some used =>
    refine (Memory.write_of_not fun h ↦ hused ⟨used, hsome, ?_⟩).trans hfirst
    rwa [length_memBytes] at h

/-- What is written does not depend on what was there. -/
theorem create_congr (t : Int32) (key : Option KeySet) (m m' : Memory UInt8) {a : ℤ}
    (h : a ∈ opts.bookmarkSlot i ∨ a ∈ opts.writtenUsed i) :
    opts.scCreateBookmark littleEndian i t key m a =
      opts.scCreateBookmark littleEndian i t key m' a := by
  have hfirst (hbook : a ∈ opts.bookmarkSlot i) :
      (m.write (calcBookmarkAddr opts.bookmark opts.offset opts.bindSize i)
        (opts.storedBytes littleEndian ⟨scMakeInt4Bookmark t, key.getD KeySet.zero⟩)) a =
      (m'.write (calcBookmarkAddr opts.bookmark opts.offset opts.bindSize i)
        (opts.storedBytes littleEndian ⟨scMakeInt4Bookmark t, key.getD KeySet.zero⟩)) a := by
    refine Memory.write_congr hbook.1 ?_
    rw [length_storedBytes]
    exact hbook.2
  rw [create_eq, create_eq]
  cases hsome : opts.bookmark.used with
  | none =>
    refine hfirst (h.resolve_right fun ⟨used, hused, _⟩ ↦ ?_)
    rw [hsome] at hused
    cases hused
  | some used =>
    dsimp only
    by_cases hwritten : a ∈ bytesAt (calcUsedAddr used opts.offset opts.bindSize i) 8
    · refine Memory.write_congr hwritten.1 ?_
      rw [length_memBytes]
      exact hwritten.2
    · have hbook : a ∈ opts.bookmarkSlot i := h.resolve_right fun ⟨used', hused, hmem⟩ ↦ by
        rw [hsome] at hused
        cases hused
        exact hwritten hmem
      have hnot : ¬ (calcUsedAddr used opts.offset opts.bindSize i ≤ a ∧
          a < calcUsedAddr used opts.offset opts.bindSize i +
            (memBytes littleEndian 8 opts.cvtlen).length) := by
        rwa [length_memBytes]
      rw [Memory.write_of_not hnot, Memory.write_of_not hnot, hfirst hbook]

/-- The length is written last. -/
theorem read_used_create {t : Int32} {key : Option KeySet} {used : ℤ}
    (hused : used ∈ opts.bookmark.used) :
    (opts.scCreateBookmark littleEndian i t key m).read
        (calcUsedAddr used opts.offset opts.bindSize i) 8 =
      memBytes littleEndian 8 opts.cvtlen := by
  rw [create_eq, Option.mem_def.1 hused]
  dsimp only
  have hread := Memory.read_write
    (m.write (calcBookmarkAddr opts.bookmark opts.offset opts.bindSize i)
      (opts.storedBytes littleEndian ⟨scMakeInt4Bookmark t, key.getD KeySet.zero⟩))
    (calcUsedAddr used opts.offset opts.bindSize i) (memBytes littleEndian 8 opts.cvtlen)
  rwa [length_memBytes] at hread

/-- A bookmark is in memory if its length is not written over it. -/
theorem holds_create (t : Int32) (key : Option KeySet) (m : Memory UInt8)
    (h : ∀ a ∈ opts.bookmarkSlot i, a ∉ opts.writtenUsed i) :
    opts.Holds littleEndian i ⟨scMakeInt4Bookmark t, key.getD KeySet.zero⟩
      (opts.scCreateBookmark littleEndian i t key m) := by
  refine ⟨?_, fun used hused ↦ read_used_create littleEndian hused⟩
  have hfirst := Memory.read_write m (calcBookmarkAddr opts.bookmark opts.offset opts.bindSize i)
    (opts.storedBytes littleEndian ⟨scMakeInt4Bookmark t, key.getD KeySet.zero⟩)
  rw [length_storedBytes] at hfirst
  rw [← hfirst, create_eq]
  refine Memory.read_congr fun k hk ↦ ?_
  cases hsome : opts.bookmark.used with
  | none => rfl
  | some used =>
    have hmem : calcBookmarkAddr opts.bookmark opts.offset opts.bindSize i + (k : ℤ) ∈
        opts.bookmarkSlot i :=
      ⟨Int.le_add_of_nonneg_right (Int.natCast_nonneg k), Int.add_lt_add_left (by omega) _⟩
    refine Memory.write_of_not fun hwritten ↦ ?_
    rw [length_memBytes] at hwritten
    exact h _ hmem ⟨used, hsome, hwritten⟩

/-- What is in a row's slot decides what is in memory for it. -/
theorem Holds.congr {bm : PgBm} (h : opts.Holds littleEndian i bm m)
    (hused : opts.writtenUsed i = opts.usedSlot i) (heq : ∀ a ∈ opts.slot i, m' a = m a) :
    opts.Holds littleEndian i bm m' := by
  constructor
  · rw [← h.stored]
    refine Memory.read_congr fun k hk ↦ heq _ (.inl ⟨?_, ?_⟩)
    · exact Int.le_add_of_nonneg_right (Int.natCast_nonneg k)
    · exact Int.add_lt_add_left (by omega) _
  · intro used hsome
    rw [← h.used used hsome]
    refine Memory.read_congr fun k hk ↦ heq _ (.inr ?_)
    rw [← hused]
    refine ⟨used, hsome, ?_, ?_⟩
    · exact Int.le_add_of_nonneg_right (Int.natCast_nonneg k)
    · exact Int.add_lt_add_left (by omega) _

/-! ## Bindings that fit -/

theorem calcUsedAddr_eq {used : ℤ} (h : i * opts.bindSize.toNat < 2 ^ 32) :
    calcUsedAddr used opts.offset opts.bindSize i =
      used + opts.offset + (i * opts.usedStride : ℕ) := by
  rw [calcUsedAddr, usedStride]
  split
  · rw [UInt32.toNat_mul, UInt32.toNat_ofNat', Nat.mod_mul_mod, Nat.mod_eq_of_lt h]
  · rfl

theorem writtenUsed_eq (h : opts.bookmark.used.isSome → i * opts.bindSize.toNat < 2 ^ 32) :
    opts.writtenUsed i = opts.usedSlot i := by
  ext a
  refine exists_congr fun used ↦ and_congr_right fun hused ↦ ?_
  rw [calcUsedAddr_eq (h (Option.isSome_iff_exists.2 ⟨used, hused⟩))]

namespace Fits

variable {rows : ℕ}

theorem writtenUsed_eq (h : opts.Fits rows) (hi : i < rows) :
    opts.writtenUsed i = opts.usedSlot i :=
  ArdFields.writtenUsed_eq fun hsome ↦ h.product hsome i hi

theorem holds_create (h : opts.Fits rows) (hi : i < rows) (t : Int32) (key : Option KeySet)
    (m : Memory UInt8) :
    opts.Holds littleEndian i ⟨scMakeInt4Bookmark t, key.getD KeySet.zero⟩
      (opts.scCreateBookmark littleEndian i t key m) :=
  ArdFields.holds_create littleEndian t key m
    (by rw [h.writtenUsed_eq hi]; exact h.own i hi)

theorem written (h : opts.Fits rows) (hi : i < rows) {t : Int32} {key : Option KeySet} {a : ℤ}
    (ha : a ∉ opts.slot i) : opts.scCreateBookmark littleEndian i t key m a = m a := by
  refine create_of_notMem littleEndian (fun hbook ↦ ha (.inl hbook)) fun hused ↦ ha (.inr ?_)
  rwa [← h.writtenUsed_eq hi]

/-- The other rows keep what they have. -/
theorem others (h : opts.Fits rows) {j : ℕ} (hi : i < rows) (hj : j < rows) (hne : i ≠ j)
    {t : Int32} {key : Option KeySet} {a : ℤ} (ha : a ∈ opts.slot j) :
    opts.scCreateBookmark littleEndian i t key m a = m a :=
  h.written littleEndian hi fun hslot ↦ h.apart i hi j hj hne a hslot ha

/-- Behind the first rows of a rowset each of them has its bookmark. -/
theorem holds_createRowset (h : opts.Fits rows) (numbers : ℕ → Int32)
    (keysets : ℕ → Option KeySet) {n : ℕ} (hn : n ≤ rows) (hi : i < n) :
    opts.Holds littleEndian i ⟨scMakeInt4Bookmark (numbers i), (keysets i).getD KeySet.zero⟩
      (opts.createRowset littleEndian numbers keysets n m) := by
  induction n with
  | zero => exact absurd hi (Nat.not_lt_zero i)
  | succ n ih =>
    rw [createRowset]
    obtain hlt | rfl := Nat.lt_succ_iff_lt_or_eq.1 hi
    · exact (ih (Nat.le_of_succ_le hn) hlt).congr littleEndian (h.writtenUsed_eq (hi.trans_le hn))
        fun a ha ↦ h.others littleEndian hn (hi.trans_le hn) hlt.ne' ha
    · exact h.holds_create littleEndian hn _ _ _

theorem right (h : opts.Fits rows) : opts.Right littleEndian rows := by
  have hresolve {i : ℕ} {t : Int32} {key : Option KeySet} {m : Memory UInt8} (ht : Supported t)
      (hm : opts.Holds littleEndian i ⟨scMakeInt4Bookmark t, key.getD KeySet.zero⟩ m) :
      opts.scResolveBookmark littleEndian i m =
        ⟨t, (key.getD KeySet.zero).covered opts.coveredLength⟩ := by
    rw [hm.resolve littleEndian, resolve_make ht]
  refine
    { resolve := fun i hi t ht key m ↦ hresolve ht (h.holds_create littleEndian hi t key m)
      differ := fun i hi i' hi' t t' ht ht' hne key key' m m' heq ↦ hne ?_
      written := fun i hi t _ key m a ha ↦ h.written littleEndian hi ha
      read := fun i hi t ht key m m' heq ↦ ?_
      others := fun i hi j hj hne t _ key m a ha ↦ h.others littleEndian hi hj hne ha
      rowset := fun numbers hnumbers keysets m i hi ↦
        hresolve (hnumbers i hi) (h.holds_createRowset littleEndian numbers keysets le_rfl hi) }
  · rw [(h.holds_create littleEndian hi t key m).stored,
      (h.holds_create littleEndian hi' t' key' m').stored] at heq
    have hmake : scMakeInt4Bookmark t = scMakeInt4Bookmark t' :=
      index_eq_of_storedBytes littleEndian heq
    rw [← resolve_make ht, hmake, resolve_make ht']
  · have hcreated := h.holds_create littleEndian hi t key m
    rw [hresolve ht hcreated, hresolve ht (hcreated.congr littleEndian (h.writtenUsed_eq hi) heq)]

end Fits

/-! ## Only these -/

/-- The key whose bytes are ones. -/
def onesKey : KeySet := ⟨0x0101, 0x0101, 0x01010101, 0x01010101⟩

/-- The number of the row whose bookmark's bytes are ones. -/
def onesNumber : Int32 := 0x01010100

theorem bytes_ones :
    PgBm.bytes littleEndian ⟨scMakeInt4Bookmark onesNumber, onesKey⟩ = List.replicate 16 1 := by
  cases littleEndian <;> decide

theorem memBytes_cvtlen_ne {b : UInt8} (h : b ∈ memBytes littleEndian 8 opts.cvtlen) : b ≠ 1 := by
  rintro rfl
  revert h
  obtain hlen | hlen | hlen := opts.cvtlen_cases
  all_goals
    rw [hlen]
    cases littleEndian <;> decide

namespace Right

variable {rows : ℕ}

/-- A bookmark that is all ones is there as it was written. -/
theorem ones (h : opts.Right littleEndian rows) (hi : i < rows) {used : ℤ}
    (hused : used ∈ opts.bookmark.used) (m : Memory UInt8) :
    opts.stored i (opts.scCreateBookmark littleEndian i onesNumber (some onesKey) m) =
      List.replicate opts.cvtlen 1 := by
  have hcases := opts.cvtlen_cases
  have honly : Supported onesNumber := by decide
  have hlen : opts.coveredLength = opts.cvtlen := by
    rw [coveredLength, Option.mem_def.1 hused]
    rfl
  have hres := h.resolve i hi onesNumber honly (some onesKey) m
  rw [resolve_of_used littleEndian hused (read_used_create littleEndian hused), hlen] at hres
  obtain ⟨hindex, hkeys⟩ := PgBm.mk.inj hres
  have hlength :
      (opts.stored i (opts.scCreateBookmark littleEndian i onesNumber (some onesKey) m) ++
        List.replicate (PgBm.size - opts.cvtlen) 0).length = PgBm.size := by
    rw [List.length_append, stored, Memory.length_read, List.length_replicate, PgBm.size]
    omega
  have hbytes := PgBm.bytes_ofBytes littleEndian hlength
  have hbm : PgBm.ofBytes littleEndian
      (opts.stored i (opts.scCreateBookmark littleEndian i onesNumber (some onesKey) m) ++
        List.replicate (PgBm.size - opts.cvtlen) 0) =
      ⟨scMakeInt4Bookmark onesNumber, onesKey.covered opts.cvtlen⟩ :=
    congrArg₂ PgBm.mk (eq_make_of_resolve honly hindex) hkeys
  rw [hbm, ← PgBm.take_bytes littleEndian ⟨scMakeInt4Bookmark onesNumber, onesKey⟩ hcases,
    bytes_ones, List.take_replicate, Nat.min_eq_left (by omega)] at hbytes
  exact (List.append_cancel_right hbytes).symm

/-- The length is not written into the bookmark. -/
theorem notMem_writtenUsed (h : opts.Right littleEndian rows) (hi : i < rows) {a : ℤ}
    (hbook : a ∈ opts.bookmarkSlot i) : a ∉ opts.writtenUsed i := by
  intro ⟨used, hused, hwritten⟩
  have hone : opts.scCreateBookmark littleEndian i onesNumber (some onesKey) (fun _ ↦ 0) a = 1 := by
    have hmem := Memory.mem_read (m := opts.scCreateBookmark littleEndian i onesNumber
      (some onesKey) fun _ ↦ 0) hbook.1 hbook.2
    have hones := h.ones littleEndian hi hused fun _ ↦ 0
    rw [stored] at hones
    rw [hones] at hmem
    exact List.eq_of_mem_replicate hmem
  have hlen := Memory.mem_read (m := opts.scCreateBookmark littleEndian i onesNumber
    (some onesKey) fun _ ↦ 0) hwritten.1 hwritten.2
  rw [read_used_create littleEndian hused] at hlen
  exact memBytes_cvtlen_ne littleEndian hlen hone

/-- What is written whatever is there is in the row's slot. -/
theorem mem_slot (h : opts.Right littleEndian rows) (hi : i < rows) {a : ℤ}
    (ha : a ∈ opts.writtenUsed i) : a ∈ opts.slot i := by
  by_contra hnot
  have hzero := h.written i hi 0 (by decide) none (fun _ ↦ 0) a hnot
  have hone := h.written i hi 0 (by decide) none (fun _ ↦ 1) a hnot
  have hsame := create_congr littleEndian 0 none (fun _ ↦ 0) (fun _ ↦ 1) (.inr ha)
  rw [hzero, hone] at hsame
  revert hsame
  decide

theorem product (h : opts.Right littleEndian rows) (hsome : opts.bookmark.used.isSome)
    (hi : i < rows) : i * opts.bindSize.toNat < 2 ^ 32 := by
  obtain ⟨used, hused⟩ := Option.isSome_iff_exists.1 hsome
  by_contra hlarge
  have hpos : 0 < opts.bindSize := by
    refine UInt32.lt_iff_toNat_lt.2 (Nat.pos_of_ne_zero fun hzero ↦ hlarge ?_)
    rw [hzero, Nat.mul_zero]
    decide
  have hmod : (UInt32.ofNat i * opts.bindSize).toNat < i * opts.bindSize.toNat :=
    (UInt32.toNat_lt _).trans_le (not_lt.1 hlarge)
  have haddr : calcUsedAddr used opts.offset opts.bindSize i ∈ opts.writtenUsed i :=
    ⟨used, hused, le_refl _, by omega⟩
  rcases h.mem_slot littleEndian hi haddr with hbook | ⟨used', hused', hslot, -⟩
  · exact h.notMem_writtenUsed littleEndian hi hbook haddr
  · rw [hused] at hused'
    cases hused'
    rw [calcUsedAddr, if_pos hpos, usedStride, if_pos hpos] at hslot
    omega

theorem fits (h : opts.Right littleEndian rows) : opts.Fits rows := by
  have heq {i : ℕ} (hi : i < rows) : opts.writtenUsed i = opts.usedSlot i :=
    writtenUsed_eq fun hsome ↦ h.product littleEndian hsome hi
  refine ⟨fun hsome i hi ↦ h.product littleEndian hsome hi, fun i hi ↦ ?_, fun i hi j hj hne ↦ ?_⟩
  · rw [← heq hi]
    exact fun a ha ↦ h.notMem_writtenUsed littleEndian hi ha
  · intro a hslot hother
    have hzero := h.others i hi j hj hne 0 (by decide) none (fun _ ↦ 0) a hother
    have hone := h.others i hi j hj hne 0 (by decide) none (fun _ ↦ 1) a hother
    have hsame := create_congr littleEndian 0 none (fun _ ↦ 0) (fun _ ↦ 1)
      (hslot.imp_right fun hused ↦ (heq hi).symm ▸ hused)
    rw [hzero, hone] at hsame
    revert hsame
    decide

end Right

/-- Bookmarks round trip for the bindings that fit, and for no others. -/
theorem round_trip_iff (littleEndian : Bool) (opts : ArdFields) (rows : ℕ) :
    opts.Right littleEndian rows ↔ opts.Fits rows :=
  ⟨fun h ↦ h.fits, fun h ↦ h.right littleEndian⟩

/-- Bound structures of 64 KiB, each with a bookmark, its length behind it, and with room for other
columns. -/
def largeStructures : ArdFields where
  bookmark :=
    { returntype := .sqlCVarbookmark
      buffer := 0x10000000
      buflen := 16
      used := some 0x10000010
      four_le := by decide }
  bindSize := 0x10000
  rowOffsetPtr := none

/-- The length of the 65537th row's bookmark is written over the first row's. -/
theorem not_right_largeStructures : ¬ largeStructures.Right true 65537 := by
  intro h
  have hlength : largeStructures.scCreateBookmark true 65536 0 none (fun _ ↦ 1) 0x10000010 = 1 := by
    refine h.others 65536 (by decide) 0 (by decide) (by decide) 0 (by decide) none (fun _ ↦ 1) _ ?_
    exact .inr ⟨0x10000010, rfl, by decide, by decide⟩
  revert hlength
  decide

end ArdFields

end

end Bookmark

end PsqlOdbc
