import PsqlOdbc.Results.GetDataValues

/-!
# The parts of a value

The first call for a value converts it, and the calls behind it go on in the buffer of the column:
whatever buffers the application has, the parts are those of one text (`run_first`).
-/

namespace PsqlOdbc

open Lib CountingBuffer

/-! ## A part -/

namespace TextCType

/-- The room that a buffer of the application has for a part. -/
def room (ctype : TextCType) (cbValueMax : Nat) : Nat :=
  ctype.adjustLen (cbValueMax - ctype.terminatorLen)

variable {ctype : TextCType} {n cbValueMax : Nat}

end TextCType

section Part

variable (ctype : TextCType) (slack : Nat) (rest : List UInt8) (cbValueMax : Nat)

variable {ctype slack rest cbValueMax}

end Part

/-! ## The buffer of a column -/

namespace GetDataClass

/-- The room of a buffer that is left over. -/
def leftOver (pgdc : GetDataClass) : Nat := if pgdc.ttlbuf = none then 0 else pgdc.ttlbuflen

/-- What the buffer of a column will be longer than a value. -/
def slack (pgdc : GetDataClass) (ctype : TextCType) (v : List UInt8) : Nat :=
  max pgdc.leftOver (v.length + ctype.terminatorLen) - v.length

/-- The buffer of a column has the room that the driver takes it to have. -/
structure Sound (slop : Nat) (pgdc : GetDataClass) : Prop where
  allocated : pgdc.ttlbuf ≠ none → Allocated slop pgdc.ttlbuflen pgdc.ttlbuf
  small : pgdc.ttlbuflen < 2 ^ 31

theorem sound_empty (slop : Nat) : Sound slop .empty :=
  ⟨fun h ↦ absurd rfl h, by decide⟩

variable {slop : Nat} {pgdc : GetDataClass}

theorem Sound.allocated_leftOver (h : pgdc.Sound slop) :
    Allocated slop pgdc.leftOver pgdc.ttlbuf := by
  rw [leftOver]
  by_cases hnone : pgdc.ttlbuf = none
  · rw [if_pos hnone, hnone]
    rfl
  · rw [if_neg hnone]
    exact h.allocated hnone

end GetDataClass

/-- At the first call a value is given to the application as `v`, through a buffer of `ttlbuflen`
bytes unless it can be given as it is. -/
def ServerValue.Gives (value : ServerValue) (ctype : TextCType) (lfConv : Bool)
    (cbValueMax ttlbuflen : Nat) (v : List UInt8) : Prop :=
  v.length + 2 < 2 ^ 31 ∧
    ∃ changed, textEstimate value ctype lfConv = some (v.length, changed) ∧
      if changed = true ∨ cbValueMax < v.length + ctype.terminatorLen then
        ∀ ttlbuf, Allocated ctype.slop ttlbuflen ttlbuf → ∃ ttlbuf',
          textFill value ctype lfConv v.length ttlbuflen ttlbuf = some (v.length, ttlbuf') ∧
            v <+: ttlbuf'.getD [] ∧ Allocated ctype.slop ttlbuflen ttlbuf'
      else (byteaProcess value ctype).2 = v

section First

variable {value : ServerValue} {ctype : TextCType} {lfConv : Bool} {cbValueMax : Nat}
  {v : List UInt8} {pgdc : GetDataClass}

/-- The buffer that is there is used if it is long enough. -/
theorem realloc_eq (hsound : pgdc.Sound ctype.slop) (need : Nat) :
    ∃ ttlbuf, (if (pgdc.leftOver : Int) < (need : Int) then
        { pgdc with
          ttlbuf := some (List.replicate
            ((need : Int).toNat + if ctype = .binary then 1 else 0) (0 : UInt8))
          ttlbuflen := (need : Int).toNat }
      else { pgdc with ttlbuflen := pgdc.leftOver }) =
        { pgdc with ttlbuf := ttlbuf, ttlbuflen := max pgdc.leftOver need } ∧
      Allocated ctype.slop (max pgdc.leftOver need) ttlbuf := by
  by_cases hlt : pgdc.leftOver < need
  · rw [if_pos (Int.ofNat_lt.2 hlt), Nat.max_eq_right (Nat.le_of_lt hlt), Int.toNat_natCast]
    refine ⟨_, rfl, ?_⟩
    rw [Allocated, List.length_replicate]
    cases ctype <;> exact Nat.le_refl _
  · rw [if_neg (fun h ↦ hlt (Int.ofNat_lt.1 h)), Nat.max_eq_left (Nat.not_lt.1 hlt)]
    exact ⟨pgdc.ttlbuf, rfl, hsound.allocated_leftOver⟩

end First

/-! ## The parts of a column -/

/-- `rest` is left of a value, in the buffer if it is anything; the buffer is `slack` bytes longer
than the value. -/
structure GetDataClass.Keeps (slack : Nat) (rest : List UInt8) (pgdc : GetDataClass) : Prop where
  spent : rest = [] → pgdc.dataLeft = 0 ∨ pgdc.dataLeft = -2
  left : rest ≠ [] → pgdc.dataLeft = rest.length
  used : rest ≠ [] → rest.length ≤ pgdc.ttlbufused ∧ pgdc.ttlbuflen = pgdc.ttlbufused + slack
  buffer : rest ≠ [] → rest <+: (pgdc.ttlbuf.getD []).drop (pgdc.ttlbufused - rest.length)

namespace GetDataClass

section Keeps

variable {ctype : TextCType} {slop slack cbValueMax : Nat} {rest : List UInt8}
  {pgdc : GetDataClass}

/-- A part of `n` bytes has been copied. -/
theorem Keeps.copied {n : Nat} (hn : n ≤ rest.length) (hused : rest.length ≤ pgdc.ttlbufused)
    (hlen : pgdc.ttlbuflen = pgdc.ttlbufused + slack)
    (hbuffer : rest <+: (pgdc.ttlbuf.getD []).drop (pgdc.ttlbufused - rest.length)) :
    Keeps slack (rest.drop n) { pgdc with dataLeft := (rest.length : Int) - n } := by
  have hlength : (rest.drop n).length = rest.length - n := List.length_drop
  refine ⟨fun hnil ↦ Or.inl ?_, fun _ ↦ ?_, fun _ ↦ ⟨?_, hlen⟩, fun _ ↦ ?_⟩
  · have hle := List.drop_eq_nil_iff.1 hnil
    dsimp only
    omega
  · dsimp only
    omega
  · dsimp only
    omega
  · obtain ⟨behind, hbehind⟩ := hbuffer
    refine ⟨behind, ?_⟩
    rw [← List.drop_append_of_le_length hn, hbehind, List.drop_drop, hlength]
    refine congrArg (List.drop · _) ?_
    dsimp only
    omega

end Keeps

end GetDataClass

section Pieces

variable {ctype : TextCType} {slack : Nat}

end Pieces

namespace GetStatement

/-- A column, as a call for it finds it. -/
def column (stmt : GetStatement) (icol : Nat) : GetDataClass :=
  if stmt.currentCol = some icol then stmt.gdata.getD icol .empty else .empty

/-- The statement with as many columns as there are. -/
def extended (stmt : GetStatement) : GetStatement :=
  if stmt.gdata.length = stmt.allocated then stmt else stmt.extendGetdataInfo

/-- The statement with the columns that `PGAPI_GetData` has made. -/
def atColumn (stmt : GetStatement) (icol : Nat) : GetStatement :=
  (stmt.scSetCurrentCol (some icol)).extended

section Column

variable {stmt : GetStatement} {icol : Nat}

theorem scSetCurrentCol_eq : stmt.scSetCurrentCol (some icol) =
    { stmt with
      currentCol := some icol
      gdata :=
        if stmt.currentCol = some icol then stmt.gdata else stmt.gdata.set icol .empty } := by
  rw [scSetCurrentCol]
  by_cases hcol : some icol = stmt.currentCol
  · rw [if_pos hcol, if_pos hcol.symm, hcol]
  · rw [if_neg hcol, if_neg (Ne.symm hcol)]
    rfl

theorem getElem?_extended (hcol : icol < stmt.allocated) :
    stmt.extended.gdata[icol]? = some (stmt.gdata.getD icol .empty) := by
  rw [extended]
  by_cases hlen : stmt.gdata.length = stmt.allocated
  · have hlt : icol < stmt.gdata.length := hlen ▸ hcol
    rw [if_pos hlen, List.getD_eq_getElem _ _ hlt, List.getElem?_eq_getElem hlt]
  · rw [if_neg hlen, extendGetdataInfo]
    by_cases hlt : icol < stmt.gdata.length
    · rw [List.getElem?_append_left (by rw [List.length_take]; omega),
        List.getElem?_take_of_lt hcol, List.getD_eq_getElem _ _ hlt, List.getElem?_eq_getElem hlt]
    · rw [List.getElem?_append_right (by rw [List.length_take]; omega), List.length_take,
        List.getElem?_replicate, if_pos (by omega), List.getD_eq_default _ _ (by omega)]

theorem getElem?_atColumn (hcol : icol < stmt.allocated) :
    (stmt.atColumn icol).gdata[icol]? = some (stmt.column icol) := by
  have hallocated : icol < (stmt.scSetCurrentCol (some icol)).allocated := by
    rw [scSetCurrentCol_eq]
    exact hcol
  rw [atColumn, getElem?_extended hallocated, scSetCurrentCol_eq, column]
  dsimp only
  by_cases hcurrent : stmt.currentCol = some icol
  · rw [if_pos hcurrent, if_pos hcurrent]
  · rw [if_neg hcurrent, if_neg hcurrent, List.getD_eq_getElem?_getD, List.getElem?_set_self']
    cases stmt.gdata[icol]? <;> rfl

variable {row : List (Option ServerValue)} {value : Option ServerValue}

end Column

end GetStatement

end PsqlOdbc
