import PsqlOdbc.Lib.CString

/-!
# Taking a connection string apart (`drvconn.c`)

`dconn_get_attributes` cuts a copy of the string at every `;` with `strtok` and then repairs
the cuts that fell inside a value in braces.
-/

namespace PsqlOdbc

open Lib

/-- `ATTRIBUTE_DELIMITER`, a semicolon. -/
abbrev attributeDelimiter : UInt8 := 0x3b

/-- `OPENING_BRACKET`. -/
abbrev openingBracket : UInt8 := 0x7b

/-- `CLOSING_BRACKET`. -/
abbrev closingBracket : UInt8 := 0x7d

/-- The equals sign between an attribute and its value. -/
abbrev equalsSign : UInt8 := 0x3d

/-- How the search for the closing bracket of a value ends. -/
inductive Repair
  /-- The bracket is missing, or something else than a delimiter follows it. -/
  | error
  /-- The string is cut behind the bracket, and the next item starts at `strtokArg`. -/
  | cut (mem : List UInt8) (strtokArg : Nat)
  /-- The value went on up to the end of the string. -/
  | past (mem : List UInt8)

/-- The closing bracket the loop looks at: the one found, or if there is none before the cut,
the one behind it, the delimiter being restored. -/
def findClosing (mem : List UInt8) (closep delp : Option Nat) :
    Option (Option (Nat × List UInt8 × Option Nat)) :=
  match closep, delp with
  | some c, _ => some (some (c, mem, delp))
  | none, none => some none
  | none, some d => (strchr mem (d + 1) closingBracket).map fun closep ↦
      closep.map fun c ↦ (c, mem.set d attributeDelimiter, none)

/-- The loop over the closing brackets of a value: `delp` is where the string is cut, as long
as it is, and `closep` the first bracket from `valuen` on. -/
def repairLoop (termp : Nat) :
    Nat → List UInt8 → Nat → Option Nat → Option Nat → Option Repair
  | 0, _, _, _, _ => none
  | fuel + 1, mem, valuen, closep, delp =>
    if valuen < termp then do
      match ← findClosing mem closep delp with
      | none => some .error
      | some (c, mem, delp) =>
        let next ← mem[c + 1]?
        if next = closingBracket then
          let valuen := c + 2
          if termp ≤ valuen then some (.past mem)
          else if delp = some valuen then do
            let mem := mem.set valuen attributeDelimiter
            let closep ← strchr mem valuen closingBracket
            repairLoop termp fuel mem valuen closep none
          else do
            let closep ← strchr mem valuen closingBracket
            repairLoop termp fuel mem valuen closep delp
        else if next = attributeDelimiter ∨ next = 0 ∨ delp = some (c + 1) then
          some (.cut (mem.set (c + 1) 0) (c + 2))
        else some .error
    else some (.past mem)

/-- The switch on the first byte of the value: `none` inside for an error, otherwise the
memory, `strtok_arg` and `eoftok`. -/
def fixValue (termp : Nat) (mem : List UInt8) (value : Nat) :
    Option (Option (List UInt8 × Option Nat × Bool)) := do
  let b ← mem[value]?
  if b ≠ openingBracket then some (some (mem, none, false))
  else
    match ← strchr mem value 0 with
    | none => some none
    | some delp =>
      if termp ≤ delp then some (some (mem, none, true))
      else
        let closep ← strchr mem value closingBracket
        if closep.bind (mem[· + 1]?) = some 0 then some (some (mem, none, false))
        else
          match ← repairLoop termp termp mem value closep (some delp) with
          | .error => some none
          | .cut mem strtokArg =>
            some (some (mem, some strtokArg, decide (termp ≤ strtokArg + 1)))
          | .past mem => some (some (mem, none, false))

section

variable {α : Type} (func : α → List UInt8 → List UInt8 → α)

/-- The loop over the items. -/
def attributesLoop (termp : Nat) :
    Nat → List UInt8 → Option Nat → Nat → α → Option (Bool × α)
  | 0, _, _, _, _ => none
  | fuel + 1, mem, strtokArg, last, ci =>
    if strtokArg.any (termp ≤ ·) then some (true, ci)
    else do
      match ← strtok mem (strtokArg.getD last) attributeDelimiter with
      | (none, _, _) => some (true, ci)
      | (some pair, mem, last) =>
        match ← strchr mem pair equalsSign with
        | none => attributesLoop termp fuel mem none last ci
        | some equals =>
          let mem := mem.set equals 0
          let value := equals + 1
          match ← fixValue termp mem value with
          | none => some (false, ci)
          | some (mem, strtokArg, eoftok) =>
            let ci := func ci (← cstr mem pair) (← cstr mem value)
            if eoftok then some (true, ci)
            else attributesLoop termp fuel mem strtokArg last ci

/-- `dconn_get_attributes`: the return value and what the calls of `func` have made of the
connection information.  No result means an access outside the string's copy. -/
def dconnGetAttributes (connectString : List UInt8) (ci : α) : Option (Bool × α) :=
  attributesLoop func connectString.length (connectString.length + 1) (connectString ++ [0])
    (some 0) 0 ci

end

end PsqlOdbc
