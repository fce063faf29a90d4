import PsqlOdbc.Convert.Identifiers
import PsqlOdbc.Convert.QueryBuild

/-!
# Settings in comments (`dlg_specific.c`)

The settings that are sent to a server have comments, and these have settings of the driver in them,
as `attribute=value` or `attribute='value'`.  `extract_extra_attribute_setting` goes through the
text once, with flags for where it is, and returns the value that it has found last.  What the value
should be is read off the places of a text (`itemsFrom`).
-/

namespace PsqlOdbc

/-! ## The driver -/

/-- The variables of the loop.  `measured` are the stretches whose lengths have been computed. -/
structure Extraction where
  allowedCmd : Bool
  inQuote : Bool
  inComment : Bool
  step : Nat
  sptr : Option Nat
  len : Nat
  measured : List (Nat × Nat)
  deriving DecidableEq, Repr

/-- `step_last`. -/
def stepLast : Nat := 2

namespace Extraction

/-- The variables before the loop. -/
def start : Extraction where
  allowedCmd := false
  inQuote := false
  inComment := false
  step := 0
  sptr := none
  len := 0
  measured := []

/-- `if (step_last == step) len = cptr - sptr`, and the step is the first one again. -/
def endValue (s : Extraction) (cptr : Nat) : Extraction :=
  if s.step = stepLast then
    { s with
      len := cptr - s.sptr.getD 0
      step := 0
      measured := (s.sptr.getD 0, cptr - s.sptr.getD 0) :: s.measured }
  else s

/-- What has been found: where it begins, and its length. -/
def found (s : Extraction) : Option (Nat × Nat) := s.sptr.map (·, s.len)

end Extraction

/-- The end of a comment. -/
def commentEnds (c : UInt8) (rest : List UInt8) : Bool := c = 0x2a && rest.head? = some 0x2f

/-- The beginning of a comment. -/
def commentBegins (c : UInt8) (rest : List UInt8) : Bool := c = 0x2f && rest.head? = some 0x2a

/-- What is between settings. -/
def isSeparator (c : UInt8) : Bool := c = 0x3b || isSpace c

/-- The text begins with the attribute and an equals sign. -/
def assigns (attr text : List UInt8) : Bool :=
  strnicmpEq text (attr.map toLower) && text[attr.length]? = some 0x3d

/-- The loop of `extract_extra_attribute_setting`, which passes over `skip` characters first.  There
is no result if it goes on behind the terminator. -/
def extractLoop (attr : List UInt8) :
    Nat → Nat → List UInt8 → Extraction → Option Extraction
  | _, _, [], s => some s
  | skip + 1, cptr, _ :: rest, s => extractLoop attr skip (cptr + 1) rest s
  | 0, cptr, c :: rest, s =>
    if s.inQuote then
      if c = literalQuote then
        extractLoop attr 0 (cptr + 1) rest { s.endValue cptr with inQuote := false }
      else extractLoop attr 0 (cptr + 1) rest s
    else if s.inComment && commentEnds c rest then
      extractLoop attr 1 (cptr + 1) rest
        { s.endValue cptr with
          inComment := false
          allowedCmd := false }
    else if !s.inComment then
      if commentBegins c rest then
        extractLoop attr 1 (cptr + 1) rest
          { s with
            inComment := true
            allowedCmd := true }
      else if c = literalQuote then extractLoop attr 0 (cptr + 1) rest { s with inQuote := true }
      else extractLoop attr 0 (cptr + 1) rest s
    else if isSeparator c then
      extractLoop attr 0 (cptr + 1) rest
        { s.endValue cptr with
          allowedCmd := true
          step := 0 }
    else if !s.allowedCmd then extractLoop attr 0 (cptr + 1) rest s
    else if s.step = 0 then
      if assigns attr (c :: rest) then
        extractLoop attr attr.length (cptr + 1) rest { s with step := 1 }
      else extractLoop attr 0 (cptr + 1) rest { s with allowedCmd := false }
    else if s.step = 1 then
      if c = literalQuote then
        -- The character behind the quote is passed over, whatever it is.
        match rest with
        | [] => none
        | _ :: _ =>
          extractLoop attr 1 (cptr + 1) rest
            { s with
              inQuote := true
              sptr := some (cptr + 1)
              step := 2 }
      else
        extractLoop attr 0 (cptr + 1) rest
          { s with
            sptr := some cptr
            step := 2 }
    else extractLoop attr 0 (cptr + 1) rest s

/-- `extract_extra_attribute_setting`. -/
def extractExtraAttributeSetting (setting : PgName) (attr : List UInt8) :
    Option (Option (List UInt8)) :=
  let str := setting.getD []
  (extractLoop attr 0 0 str .start).bind fun s ↦
    match s.sptr with
    | none => some none
    | some sptr =>
      -- No more is copied than there is, with the terminator.
      if sptr + s.len ≤ str.length + 1 then some (some ((str.drop sptr).take s.len)) else none

/-! ## Settings as they stand in a text -/

/-- A place in a text of settings. -/
inductive Place
  /-- Outside of comments. -/
  | outside
  /-- In a string literal there. -/
  | literal
  /-- In a comment, where a setting can begin. -/
  | start
  /-- In a comment, in something else. -/
  | word
  /-- Behind the equals sign. -/
  | assigned
  /-- In the value that begins at `b`, in quotes. -/
  | quoted (b : Nat)
  /-- In the value that begins at `b`, without quotes. -/
  | value (b : Nat)
  deriving DecidableEq, Repr

/-- The place behind the character `c` at `p` and so many others, and what ends there. -/
def nextPlace (attr : List UInt8) (p : Nat) (c : UInt8) (rest : List UInt8) (place : Place) :
    Nat × Place × List (Nat × Nat) :=
  match place with
  | .outside =>
    if commentBegins c rest then (1, .start, [])
    else if c = literalQuote then (0, .literal, [])
    else (0, .outside, [])
  | .literal => if c = literalQuote then (0, .outside, []) else (0, .literal, [])
  | .quoted b => if c = literalQuote then (0, .start, [(b, p - b)]) else (0, .quoted b, [])
  | .start =>
    if commentEnds c rest then (1, .outside, [])
    else if isSeparator c then (0, .start, [])
    else if assigns attr (c :: rest) then (attr.length, .assigned, [])
    else (0, .word, [])
  | .word =>
    if commentEnds c rest then (1, .outside, [])
    else if isSeparator c then (0, .start, [])
    else (0, .word, [])
  | .assigned =>
    if commentEnds c rest then (1, .outside, [])
    else if isSeparator c then (0, .start, [])
    else if c = literalQuote then (0, .quoted (p + 1), [])
    else (0, .value p, [])
  | .value b =>
    if commentEnds c rest then (1, .outside, [(b, p - b)])
    else if isSeparator c then (0, .start, [(b, p - b)])
    else (0, .value b, [])

/-- The values of the attribute in a text, from a place on: where they begin, and their lengths. -/
def itemsFrom (attr : List UInt8) : Nat → Nat → List UInt8 → Place → List (Nat × Nat)
  | _, _, [], _ => []
  | skip + 1, p, _ :: rest, place => itemsFrom attr skip (p + 1) rest place
  | 0, p, c :: rest, place =>
    (nextPlace attr p c rest place).2.2 ++
      itemsFrom attr (nextPlace attr p c rest place).1 (p + 1) rest
        (nextPlace attr p c rest place).2.1

/-- The values of the attribute in a text. -/
def items (attr text : List UInt8) : List (Nat × Nat) := itemsFrom attr 0 0 text .outside

end PsqlOdbc
