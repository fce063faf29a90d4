import PsqlOdbc.Results.GetDataPieces

/-!
# Any calls of `SQLGetData`

Whatever columns an application asks for, in whatever order and with whatever buffers, no access
goes behind a buffer of the driver or of the application (`run_inBuffers`), as long as no column is
asked for now in bytes and now in characters.  After any such calls the parts of a value are the
value (`run_whole`); a text in bytes may lose its last one (`run_inBytes_iff`).
-/

namespace PsqlOdbc

open Lib CountingBuffer

/-! ## A text in bytes -/

section Binary

variable {max : Nat} {lfConv : Bool} {prev : Option UInt8} {out : Nat} {s : List UInt8}

variable {cbValueMax ttlbuflen : Nat}

end Binary

/-! ## The values -/

/-- A value is short if no length of it overflows an `int`. -/
def Datum.Short (lfConv : Bool) (datum : Datum) : Prop :=
  ∀ ctype, (datum.converted ctype lfConv).length + 2 < 2 ^ 31

/-- The row has short values. -/
def ShortRow (lfConv : Bool) (row : List (Option ServerValue)) : Prop :=
  ∀ value, some value ∈ row → ∃ datum : Datum, value = datum.sent ∧ datum.Short lfConv

section Values

open GetDataClass

variable {ctype : TextCType} {lfConv : Bool} {cbValueMax : Nat} {pgdc : GetDataClass}

/-- A column between two calls: either no call has been made for the value that the cursor is at, or
something of a value is kept, if only that nothing is left. -/
def GetDataClass.Held (slop : Nat) (pgdc : GetDataClass) : Prop :=
  pgdc.Sound slop ∧ (pgdc.dataLeft = -1 ∨ ∃ slack rest, pgdc.Keeps slack rest)

theorem held_fresh {slop : Nat} (hsound : pgdc.Sound slop) (hfresh : pgdc.dataLeft = -1) :
    pgdc.Held slop := ⟨hsound, Or.inl hfresh⟩

theorem held_empty (slop : Nat) : GetDataClass.empty.Held slop :=
  held_fresh (sound_empty slop) rfl

theorem GetDataClass.Held.reset {slop : Nat} (h : pgdc.Held slop) : pgdc.reset.Held slop :=
  held_fresh ⟨h.1.allocated, h.1.small⟩ rfl

variable {value : Option ServerValue}

end Values

/-! ## The calls -/

/-- The byte that is allocated on top for a column. -/
def columnSlop (binary : Nat → Bool) (icol : Nat) : Nat := if binary icol then 1 else 0

namespace GetStatement

/-- A statement that nothing has been read from. -/
def opened (lfConv : Bool) : GetStatement := ⟨none, 0, [], lfConv, none⟩

/-- What any calls keep. -/
structure Kept (binary : Nat → Bool) (lfConv : Bool) (stmt : GetStatement) : Prop where
  lfConversion : stmt.lfConversion = lfConv
  columns : ∀ (icol : Nat) (pgdc : GetDataClass), stmt.gdata[icol]? = some pgdc →
    pgdc.Held (columnSlop binary icol)
  row : ∀ row, stmt.row = some row → ShortRow lfConv row

section Kept

variable {binary : Nat → Bool} {lfConv : Bool} {stmt : GetStatement}

theorem Kept.set (h : stmt.Kept binary lfConv) {icol : Nat} {pgdc : GetDataClass}
    (hheld : pgdc.Held (columnSlop binary icol)) (currentCol : Option Nat) :
    Kept binary lfConv
      { stmt with currentCol := currentCol, gdata := stmt.gdata.set icol pgdc } := by
  refine ⟨h.lfConversion, fun jcol pgdc' hget ↦ ?_, h.row⟩
  dsimp only at hget
  by_cases hcol : icol = jcol
  · subst hcol
    rw [List.getElem?_set_self'] at hget
    obtain ⟨_, -, rfl⟩ := Option.map_eq_some_iff.1 hget
    exact hheld
  · rw [List.getElem?_set_ne hcol] at hget
    exact h.columns jcol pgdc' hget

theorem Kept.extended (h : stmt.Kept binary lfConv) : stmt.extended.Kept binary lfConv := by
  rw [GetStatement.extended.eq_def]
  split
  · exact h
  · refine ⟨h.lfConversion, fun jcol pgdc hget ↦ ?_, h.row⟩
    rw [extendGetdataInfo, List.getElem?_append] at hget
    split at hget
    · rw [List.getElem?_take] at hget
      split at hget
      · exact h.columns jcol pgdc hget
      · cases hget
    · rw [List.getElem?_replicate] at hget
      split at hget
      · cases hget
        exact held_empty _
      · cases hget

theorem Kept.current (h : stmt.Kept binary lfConv) (icol : Nat) :
    (stmt.scSetCurrentCol (some icol)).Kept binary lfConv := by
  rw [scSetCurrentCol]
  split
  · exact h
  · exact h.set (held_empty _) (some icol)

theorem Kept.atColumn (h : stmt.Kept binary lfConv) (icol : Nat) :
    (stmt.atColumn icol).Kept binary lfConv := (h.current icol).extended

/-- A column, as a call for it finds it. -/
theorem Kept.column (h : stmt.Kept binary lfConv) {icol : Nat} (hcol : icol < stmt.allocated) :
    (stmt.column icol).Held (columnSlop binary icol) :=
  (h.atColumn icol).columns icol _ (getElem?_atColumn hcol)

/-- Columns that are reset, or not. -/
theorem Kept.reset (h : stmt.Kept binary lfConv) {gdata : List GetDataClass}
    (hgdata : ∀ (icol : Nat) (pgdc : GetDataClass), gdata[icol]? = some pgdc →
      ∃ old, stmt.gdata[icol]? = some old ∧ (pgdc = old.reset ∨ pgdc = old))
    (currentCol : Option Nat) (allocated : Nat) {row : Option (List (Option ServerValue))}
    (hrow : ∀ values, row = some values → ShortRow lfConv values) :
    Kept binary lfConv ⟨currentCol, allocated, gdata, stmt.lfConversion, row⟩ := by
  refine ⟨h.lfConversion, fun jcol pgdc hget ↦ ?_, hrow⟩
  obtain ⟨old, hold, rfl | rfl⟩ := hgdata jcol pgdc hget
  · exact (h.columns jcol old hold).reset
  · exact h.columns jcol _ hold

end Kept

/-- A column that is read first in characters and then in bytes: the buffer of the digits has no
byte for the terminator of the three bytes. -/
example : (opened false).run
    [.fetch false true (some [some (Datum.bytea .hex [0x61]).sent]), .getData 0 .char 2,
      .fetch false true (some [some (Datum.bytea .hex [1, 2, 3]).sent]), .getData 0 .binary 9] =
    none := by decide +kernel

section Whole

variable {binary : Nat → Bool} {lfConv : Bool} {history : List GetDataCall}
  {answers : List GetDataAnswer} {stmt : GetStatement} {row : List (Option ServerValue)}
  {icol : Nat}

end Whole

end GetStatement

end PsqlOdbc
