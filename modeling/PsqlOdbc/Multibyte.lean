import Mathlib.Data.List.Basic
import Mathlib.Data.UInt

/-!
# Client encodings (`multibyte.c`)

The driver never decodes a character.  It walks over a statement or a parameter
value one byte at a time and keeps, in `ccst`, how far it is inside a multibyte
character; `pgCSStat` is one step of that walk and `mbcsNonAscii` the test every
scanning loop makes before it looks at a byte.

Against the walk stands the encoding itself: `MbChar` lists the byte sequences
that are one character, `ValidText` the texts made of them, and `mbLen` says how
many bytes the server reads as one character.  The main result is
`ValidText.walkAgrees`: over valid text in every encoding but JOHAB the walk
calls a byte ASCII exactly when it is a character of its own.
-/

namespace PsqlOdbc

/-- The client encodings of `multibyte.h`, in its order. -/
inductive CharSet
  | sqlAscii | eucJp | eucCn | eucKr | eucTw | johab | utf8 | muleInternal
  | latin1 | latin2 | latin3 | latin4 | latin5 | latin6 | latin7 | latin8 | latin9 | latin10
  | win1256 | win1258 | win866 | win874 | koi8r | win1251 | win1252
  | iso8859_5 | iso8859_6 | iso8859_7 | iso8859_8
  | win1250 | win1253 | win1254 | win1255 | win1257
  | eucJis2004 | sjis | big5 | gbk | uhc | gb18030 | shiftJis2004
  | other
  deriving DecidableEq, Repr

/-! ## The walk -/

/-- `pg_CS_stat`: the state of the walk after `character`, from the state `stat`
before it.  A state of `0` means that the byte ends, or is, a character. -/
def pgCSStat (stat : Nat) (character : UInt8) (charactersetCode : CharSet) : Nat :=
  let stat := if character = 0 then 0 else stat
  match charactersetCode with
  | .utf8 =>
    if stat < 2 ∧ 0x80 ≤ character then
      if 0xfc ≤ character then 6
      else if 0xf8 ≤ character then 5
      else if 0xf0 ≤ character then 4
      else if 0xe0 ≤ character then 3
      else if 0xc0 ≤ character then 2
      else stat
    else if 2 ≤ stat ∧ 0x7f < character then stat - 1
    else 0
  | .shiftJis2004 =>
    if stat < 2 ∧ 0x81 ≤ character ∧ character ≤ 0x9f then 2
    else if stat < 2 ∧ 0xe0 ≤ character ∧ character ≤ 0xef then 2
    else if stat < 2 ∧ 0xf0 ≤ character ∧ character ≤ 0xfc then 2
    else if stat = 2 then 1
    else 0
  | .sjis =>
    if stat < 2 ∧ 0x80 < character ∧ ¬(0x9f < character ∧ character < 0xe0) then 2
    else if stat = 2 then 1
    else 0
  | .big5 =>
    if stat < 2 ∧ 0xA0 < character then 2
    else if stat = 2 then 1
    else 0
  | .gbk | .uhc =>
    if stat < 2 ∧ 0x7F < character then 2
    else if stat = 2 then 1
    else 0
  | .eucJis2004 | .eucJp =>
    if stat < 3 ∧ character = 0x8f then 3
    else if stat ≠ 2 ∧ (character = 0x8e ∨ 0xa0 < character) then 2
    else if stat = 2 then 1
    else 0
  | .eucCn | .eucKr | .johab =>
    if stat < 2 ∧ 0xa0 < character then 2
    else if stat = 2 then 1
    else 0
  | .eucTw =>
    if stat < 4 ∧ character = 0x8e then 4
    else if stat = 4 ∧ 0xa0 < character then 3
    else if (stat = 3 ∨ stat < 2) ∧ 0xa0 < character then 2
    else if stat = 2 then 1
    else 0
  | .gb18030 =>
    if stat < 2 ∧ 0x80 < character then 2
    else if stat = 2 then
      if 0x30 ≤ character ∧ character ≤ 0x39 then 3 else 1
    else if stat = 3 then
      if 0x30 ≤ character ∧ character ≤ 0x39 then 1 else 3
    else 0
  | _ => 0

/-- `MBCS_NON_ASCII`, of the state after the byte and the byte itself. -/
def mbcsNonAscii (ccst : Nat) (character : UInt8) : Bool :=
  ccst ≠ 0 || 0x80 ≤ character

theorem mbcsNonAscii_of_high (ccst : Nat) {c : UInt8} (h : 0x80 ≤ c) :
    mbcsNonAscii ccst c = true := by simp [mbcsNonAscii, h]

theorem mbcsNonAscii_eq_false {ccst : Nat} {c : UInt8} :
    mbcsNonAscii ccst c = false ↔ ccst = 0 ∧ c < 0x80 := by
  simp [mbcsNonAscii]

/-! ## The encodings themselves -/

/-- The encodings whose text has to be validly encoded for a byte below `0x80` to
mean what it says.  The others are the single-byte sets, `MULE_INTERNAL` and
UTF-8, where any bytes will do. -/
def CharSet.multibyte : CharSet → Bool
  | .eucJp | .eucCn | .eucKr | .eucTw | .johab | .eucJis2004
  | .sjis | .big5 | .gbk | .uhc | .gb18030 | .shiftJis2004 => true
  | _ => false

/-- The bytes that make one character of `ccsc`. -/
inductive MbChar : CharSet → List UInt8 → Prop
  | ascii {ccsc} {c : UInt8} : c < 0x80 → MbChar ccsc [c]
  | byte {ccsc} {c : UInt8} : ccsc.multibyte = false → MbChar ccsc [c]
  /-- Half-width katakana. -/
  | kana {ccsc} {c : UInt8} : ccsc = .sjis ∨ ccsc = .shiftJis2004 →
      0xa0 ≤ c → c ≤ 0xdf → MbChar ccsc [c]
  | sjis {ccsc} {c d : UInt8} : ccsc = .sjis ∨ ccsc = .shiftJis2004 →
      (0x81 ≤ c ∧ c ≤ 0x9f) ∨ (0xe0 ≤ c ∧ c ≤ 0xfc) →
      0x40 ≤ d → d ≤ 0xfc → MbChar ccsc [c, d]
  | big5 {c d : UInt8} : 0xa1 ≤ c → c ≤ 0xfe → 0x40 ≤ d → d ≤ 0xfe → MbChar .big5 [c, d]
  | gbk {ccsc} {c d : UInt8} : ccsc = .gbk ∨ ccsc = .uhc ∨ ccsc = .gb18030 →
      0x81 ≤ c → c ≤ 0xfe → 0x40 ≤ d → d ≤ 0xfe → MbChar ccsc [c, d]
  | gb18030 {c d e f : UInt8} : 0x81 ≤ c → c ≤ 0xfe → 0x30 ≤ d → d ≤ 0x39 →
      0x81 ≤ e → e ≤ 0xfe → 0x30 ≤ f → f ≤ 0x39 → MbChar .gb18030 [c, d, e, f]
  | euc {ccsc} {c d : UInt8} :
      ccsc = .eucJp ∨ ccsc = .eucJis2004 ∨ ccsc = .eucCn ∨ ccsc = .eucKr ∨ ccsc = .eucTw →
      0xa1 ≤ c → c ≤ 0xfe → 0xa1 ≤ d → d ≤ 0xfe → MbChar ccsc [c, d]
  | eucKana {ccsc} {d : UInt8} : ccsc = .eucJp ∨ ccsc = .eucJis2004 →
      0xa1 ≤ d → d ≤ 0xdf → MbChar ccsc [0x8e, d]
  | eucJis {ccsc} {d e : UInt8} : ccsc = .eucJp ∨ ccsc = .eucJis2004 →
      0xa1 ≤ d → d ≤ 0xfe → 0xa1 ≤ e → e ≤ 0xfe → MbChar ccsc [0x8f, d, e]
  | eucTw {d e f : UInt8} : 0xa1 ≤ d → d ≤ 0xb0 → 0xa1 ≤ e → e ≤ 0xfe →
      0xa1 ≤ f → f ≤ 0xfe → MbChar .eucTw [0x8e, d, e, f]
  /-- Hangul syllables. -/
  | johabHangul {c d : UInt8} : 0x84 ≤ c → c ≤ 0xd3 →
      (0x41 ≤ d ∧ d ≤ 0x7e) ∨ (0x81 ≤ d ∧ d ≤ 0xfe) → MbChar .johab [c, d]
  /-- Symbols and hanja. -/
  | johabHanja {c d : UInt8} : (0xd8 ≤ c ∧ c ≤ 0xde) ∨ (0xe0 ≤ c ∧ c ≤ 0xf9) →
      (0x31 ≤ d ∧ d ≤ 0x7e) ∨ (0x91 ≤ d ∧ d ≤ 0xfe) → MbChar .johab [c, d]

/-- Text made of whole characters. -/
inductive ValidText (ccsc : CharSet) : List UInt8 → Prop
  | nil : ValidText ccsc []
  | cons {c bs : List UInt8} : MbChar ccsc c → ValidText ccsc bs → ValidText ccsc (c ++ bs)

/-- How many bytes the server takes as one character at the head of a text.  Only
the client-only encodings have ASCII bytes inside a character; text in the others
is lexed byte by byte. -/
def mbLen (ccsc : CharSet) : List UInt8 → Nat
  | [] => 1
  | c :: bs =>
    match ccsc with
    | .sjis | .shiftJis2004 => if 0xa0 ≤ c ∧ c ≤ 0xdf then 1 else if 0x80 ≤ c then 2 else 1
    | .big5 | .gbk | .uhc | .johab => if 0x80 ≤ c then 2 else 1
    | .gb18030 =>
      if 0x80 ≤ c then
        match bs with
        | d :: _ => if 0x30 ≤ d ∧ d ≤ 0x39 then 4 else 2
        | [] => 2
      else 1
    | _ => 1

/-- The head of the text is an ASCII character of its own, `k` being the number of
bytes still owed to the character before it. -/
def asciiAt (ccsc : CharSet) (k : Nat) (bs : List UInt8) : Bool :=
  k = 0 && mbLen ccsc bs = 1 && bs.headD 0 < 0x80

/-- The bytes owed after the head of the text. -/
def owedAfter (ccsc : CharSet) (k : Nat) (bs : List UInt8) : Nat :=
  (if k = 0 then mbLen ccsc bs else k) - 1

/-- `P` holds at every byte of the text, of the state of the walk after the byte,
the bytes owed before it, and the text from it on. -/
def WalkAll (ccsc : CharSet) (P : Nat → Nat → List UInt8 → Prop) :
    Nat → Nat → List UInt8 → Prop
  | _, _, [] => True
  | st, k, b :: bs =>
    P (pgCSStat st b ccsc) k (b :: bs) ∧
      WalkAll ccsc P (pgCSStat st b ccsc) (owedAfter ccsc k (b :: bs)) bs

theorem WalkAll.imp {ccsc : CharSet} {P Q : Nat → Nat → List UInt8 → Prop}
    (h : ∀ st k bs, P st k bs → Q st k bs) :
    ∀ {bs : List UInt8} {st k : Nat}, WalkAll ccsc P st k bs → WalkAll ccsc Q st k bs
  | [], _, _, _ => trivial
  | _ :: _, _, _, hp => ⟨h _ _ _ hp.1, WalkAll.imp h hp.2⟩

/-- The walk calls the byte ASCII exactly when it is a character of its own. -/
def WalkAgreesAt (ccsc : CharSet) (st k : Nat) (bs : List UInt8) : Prop :=
  mbcsNonAscii st (bs.headD 0) = !asciiAt ccsc k bs

/-- The text ends with a character, `k` bytes being owed at its start, and no byte of a
multibyte character in it is a control character or a quote. -/
def WholeChars (ccsc : CharSet) : Nat → List UInt8 → Prop
  | k, [] => k = 0
  | k, b :: bs =>
    (asciiAt ccsc k (b :: bs) = false → 0x30 ≤ b) ∧
      WholeChars ccsc (owedAfter ccsc k (b :: bs)) bs

/-- The states the walk is in between two characters. -/
def Settled (ccsc : CharSet) (st : Nat) : Prop :=
  ccsc = .utf8 ∨ st < 2

theorem settled_zero (ccsc : CharSet) : Settled ccsc 0 := Or.inr (by omega)

theorem pgCSStat_ascii {ccsc : CharSet} {st : Nat} {c : UInt8} (hs : Settled ccsc st)
    (hc : c < 0x80) : pgCSStat st c ccsc = 0 := by
  cases ccsc <;> simp only [pgCSStat, Settled] at * <;> grind

theorem mbLen_ascii (ccsc : CharSet) {c : UInt8} (hc : c < 0x80) (bs : List UInt8) :
    mbLen ccsc (c :: bs) = 1 := by
  cases ccsc <;> simp only [mbLen] <;> grind

theorem mbLen_of_not_multibyte {ccsc : CharSet} (h : ccsc.multibyte = false) :
    ∀ bs : List UInt8, mbLen ccsc bs = 1
  | [] => rfl
  | _ :: _ => by cases ccsc <;> first | rfl | exact absurd h (by decide)

theorem settled_of_not_multibyte {ccsc : CharSet} (h : ccsc.multibyte = false) (st : Nat)
    (c : UInt8) : Settled ccsc (pgCSStat st c ccsc) := by
  cases ccsc <;> simp [Settled, pgCSStat, CharSet.multibyte] at *

@[simp] theorem owedAfter_succ (ccsc : CharSet) (k : Nat) (bs : List UInt8) :
    owedAfter ccsc (k + 1) bs = k := by simp [owedAfter]

@[simp] theorem owedAfter_zero (ccsc : CharSet) (bs : List UInt8) :
    owedAfter ccsc 0 bs = mbLen ccsc bs - 1 := by simp [owedAfter]

@[simp] theorem asciiAt_succ (ccsc : CharSet) (k : Nat) (bs : List UInt8) :
    asciiAt ccsc (k + 1) bs = false := by simp [asciiAt]

/-- The walk over the first byte of a character. -/
theorem walkAll_lead {ccsc : CharSet} {st k : Nat} {b : UInt8} {bs : List UInt8} (st' : Nat)
    (hm : mbLen ccsc (b :: bs) = k + 1) (hb : 0x80 ≤ b) (hst : pgCSStat st b ccsc = st')
    (hbs : WalkAll ccsc (WalkAgreesAt ccsc) st' k bs) :
    WalkAll ccsc (WalkAgreesAt ccsc) st 0 (b :: bs) := by
  refine ⟨?_, ?_⟩
  · have ha : asciiAt ccsc 0 (b :: bs) = false := by simp [asciiAt, UInt8.not_lt.2 hb]
    simp only [WalkAgreesAt, ha, List.headD_cons, mbcsNonAscii_of_high _ hb, Bool.not_false]
  · rw [owedAfter_zero, hm, hst]
    exact hbs

/-- The walk over a further byte of a character. -/
theorem walkAll_trail {ccsc : CharSet} {st k : Nat} {b : UInt8} {bs : List UInt8} (st' : Nat)
    (hst : pgCSStat st b ccsc = st') (h0 : 0 < st')
    (hbs : WalkAll ccsc (WalkAgreesAt ccsc) st' k bs) :
    WalkAll ccsc (WalkAgreesAt ccsc) st (k + 1) (b :: bs) := by
  refine ⟨?_, ?_⟩
  · simp [WalkAgreesAt, hst, mbcsNonAscii, Nat.ne_of_gt h0]
  · rw [owedAfter_succ, hst]
    exact hbs

/-- One character: the walk agrees on each of its bytes and is settled after it. -/
theorem MbChar.walkAll {ccsc : CharSet} {c bs : List UInt8} {st : Nat}
    (hj : ccsc ≠ .johab) (hc : MbChar ccsc c) (hs : Settled ccsc st)
    (hbs : ∀ st, Settled ccsc st → WalkAll ccsc (WalkAgreesAt ccsc) st 0 bs) :
    WalkAll ccsc (WalkAgreesAt ccsc) st 0 (c ++ bs) := by
  have h1 := hbs 1 (Or.inr (by omega))
  have h2 : ccsc ≠ .utf8 → st < 2 := fun h => hs.resolve_left h
  cases hc with
  | @ascii _ c hc =>
    have h0 := pgCSStat_ascii hs hc
    have hl := mbLen_ascii ccsc hc bs
    simp [WalkAll, WalkAgreesAt, mbcsNonAscii, asciiAt, h0, hl, hc, hbs 0 (settled_zero ccsc)]
  | @byte _ c h =>
    have hl := mbLen_of_not_multibyte h (c :: bs)
    have hr := hbs _ (settled_of_not_multibyte h st c)
    by_cases hc : c < 0x80
    · have h0 := pgCSStat_ascii hs hc
      simp [WalkAll, WalkAgreesAt, mbcsNonAscii, asciiAt, h0, hl, hc, hbs 0 (settled_zero ccsc)]
    · exact walkAll_lead _ hl (UInt8.not_lt.1 hc) rfl hr
  | kana h hc hc' =>
    have h0 := hbs 0 (settled_zero ccsc)
    rcases h with rfl | rfl <;>
      exact walkAll_lead 0 (by grind [mbLen]) (by grind) (by simp only [pgCSStat]; grind) h0
  | sjis h hc hd hd' =>
    rcases h with rfl | rfl <;>
      exact walkAll_lead 2 (by grind [mbLen]) (by grind)
        (by simp only [pgCSStat]; grind)
        (walkAll_trail 1 (by simp only [pgCSStat]; grind) (by omega) h1)
  | big5 hc hc' hd hd' =>
    exact walkAll_lead 2 (by grind [mbLen]) (by grind)
      (by simp only [pgCSStat]; grind)
      (walkAll_trail 1 (by simp only [pgCSStat]; grind) (by omega) h1)
  | @gbk _ c d h hc hc' hd hd' =>
    have hm : mbLen ccsc (c :: d :: bs) = 2 := by
      rcases h with rfl | rfl | rfl <;> simp only [mbLen] <;> grind
    rcases h with rfl | rfl | rfl <;>
      exact walkAll_lead 2 hm (by grind)
        (by simp only [pgCSStat]; grind)
        (walkAll_trail 1 (by simp only [pgCSStat]; grind) (by omega) h1)
  | @gb18030 c d e f hc hc' hd hd' he he' hf hf' =>
    have hm : mbLen .gb18030 (c :: d :: e :: f :: bs) = 4 := by simp only [mbLen]; grind
    exact walkAll_lead 2 hm (by grind) (by simp only [pgCSStat]; grind)
      (walkAll_trail 3 (by simp only [pgCSStat]; grind) (by omega)
        (walkAll_trail 3 (by simp only [pgCSStat]; grind) (by omega)
          (walkAll_trail 1 (by simp only [pgCSStat]; grind) (by omega) h1)))
  -- The EUC sets are lexed byte by byte, so each of their bytes is a lead here.
  | euc h hc hc' hd hd' =>
    rcases h with rfl | rfl | rfl | rfl | rfl <;>
      exact walkAll_lead 2 rfl (by grind) (by simp only [pgCSStat]; grind)
        (walkAll_lead 1 rfl (by grind) (by simp only [pgCSStat]; grind) h1)
  | eucKana h hd hd' =>
    rcases h with rfl | rfl <;>
      exact walkAll_lead 2 rfl (by grind) (by simp only [pgCSStat]; grind)
        (walkAll_lead 1 rfl (by grind) (by simp only [pgCSStat]; grind) h1)
  | eucJis h hd hd' he he' =>
    rcases h with rfl | rfl <;>
      exact walkAll_lead 3 rfl (by grind) (by simp only [pgCSStat]; grind)
        (walkAll_lead 2 rfl (by grind) (by simp only [pgCSStat]; grind)
          (walkAll_lead 1 rfl (by grind) (by simp only [pgCSStat]; grind) h1))
  | eucTw hd hd' he he' hf hf' =>
    exact walkAll_lead 4 rfl (by grind) (by simp only [pgCSStat]; grind)
      (walkAll_lead 3 rfl (by grind) (by simp only [pgCSStat]; grind)
        (walkAll_lead 2 rfl (by grind) (by simp only [pgCSStat]; grind)
          (walkAll_lead 1 rfl (by grind) (by simp only [pgCSStat]; grind) h1)))
  | johabHangul => exact absurd rfl hj
  | johabHanja => exact absurd rfl hj

/-- Over valid text in every encoding but JOHAB the walk calls a byte ASCII exactly
when it is a character of its own. -/
theorem ValidText.walkAgrees {ccsc : CharSet} {bs : List UInt8} (hj : ccsc ≠ .johab)
    (hv : ValidText ccsc bs) {st : Nat} (hs : Settled ccsc st) :
    WalkAll ccsc (WalkAgreesAt ccsc) st 0 bs := by
  induction hv generalizing st with
  | nil => exact trivial
  | cons hc _ ih => exact hc.walkAll hj hs (fun _ hst ↦ ih hst)

/-- The first byte of a character, of whole characters. -/
theorem wholeChars_lead {ccsc : CharSet} {k : Nat} {b : UInt8} {bs : List UInt8}
    (hm : mbLen ccsc (b :: bs) = k + 1) (hb : 0x80 ≤ b)
    (hbs : WholeChars ccsc k bs) :
    WholeChars ccsc 0 (b :: bs) := by
  refine ⟨fun _ ↦ by grind, ?_⟩
  rw [owedAfter_zero, hm]
  exact hbs

/-- A further byte of a character, of whole characters. -/
theorem wholeChars_trail {ccsc : CharSet} {k : Nat} {b : UInt8} {bs : List UInt8} (hb : 0x30 ≤ b)
    (hbs : WholeChars ccsc k bs) :
    WholeChars ccsc (k + 1) (b :: bs) := by
  refine ⟨fun _ ↦ hb, ?_⟩
  rw [owedAfter_succ]
  exact hbs

/-- One character in front of whole characters. -/
theorem MbChar.wholeChars {ccsc : CharSet} {c bs : List UInt8} (hc : MbChar ccsc c)
    (hbs : WholeChars ccsc 0 bs) :
    WholeChars ccsc 0 (c ++ bs) := by
  cases hc with
  | @ascii _ c hc =>
    have hl := mbLen_ascii ccsc hc bs
    exact ⟨by simp [asciiAt, hl, hc], by simpa [hl] using hbs⟩
  | @byte _ c h =>
    have hl := mbLen_of_not_multibyte h (c :: bs)
    by_cases hc : c < 0x80
    · exact ⟨by simp [asciiAt, hl, hc], by simpa [hl] using hbs⟩
    · exact wholeChars_lead hl (UInt8.not_lt.1 hc) hbs
  | kana h hc hc' =>
    rcases h with rfl | rfl <;> exact wholeChars_lead (by grind [mbLen]) (by grind) hbs
  | sjis h hc hd hd' =>
    rcases h with rfl | rfl <;>
      exact wholeChars_lead (by grind [mbLen]) (by grind) (wholeChars_trail (by grind) hbs)
  | big5 hc hc' hd hd' | johabHangul hc hc' hd | johabHanja hc hd =>
    exact wholeChars_lead (by grind [mbLen]) (by grind) (wholeChars_trail (by grind) hbs)
  | @gbk _ c d h hc hc' hd hd' =>
    have hm : mbLen ccsc (c :: d :: bs) = 2 := by
      rcases h with rfl | rfl | rfl <;> simp only [mbLen] <;> grind
    rcases h with rfl | rfl | rfl <;>
      exact wholeChars_lead hm (by grind) (wholeChars_trail (by grind) hbs)
  | @gb18030 c d e f hc hc' hd hd' he he' hf hf' =>
    have hm : mbLen .gb18030 (c :: d :: e :: f :: bs) = 4 := by simp only [mbLen]; grind
    exact wholeChars_lead hm (by grind)
      (wholeChars_trail hd (wholeChars_trail (by grind) (wholeChars_trail hf hbs)))
  | euc h hc hc' hd hd' =>
    rcases h with rfl | rfl | rfl | rfl | rfl <;>
      exact wholeChars_lead rfl (by grind) (wholeChars_lead rfl (by grind) hbs)
  | eucKana h hd hd' =>
    rcases h with rfl | rfl <;>
      exact wholeChars_lead rfl (by grind) (wholeChars_lead rfl (by grind) hbs)
  | eucJis h hd hd' he he' =>
    rcases h with rfl | rfl <;>
      exact wholeChars_lead rfl (by grind)
        (wholeChars_lead rfl (by grind) (wholeChars_lead rfl (by grind) hbs))
  | eucTw hd hd' he he' hf hf' =>
    exact wholeChars_lead rfl (by grind) (wholeChars_lead rfl (by grind)
      (wholeChars_lead rfl (by grind) (wholeChars_lead rfl (by grind) hbs)))

/-- Valid text is made of whole characters. -/
theorem ValidText.wholeChars {ccsc : CharSet} {bs : List UInt8} (hv : ValidText ccsc bs) :
    WholeChars ccsc 0 bs := by
  induction hv with
  | nil => exact rfl
  | cons hc _ ih => exact hc.wholeChars ih

/-- Where the walk agrees with the encoding it calls each control character and each
quote ASCII. -/
theorem not_mbcsNonAscii_of_agrees {ccsc : CharSet} {st k : Nat} {b : UInt8} {bs : List UInt8}
    (ha : WalkAgreesAt ccsc st k (b :: bs)) (hw : WholeChars ccsc k (b :: bs)) (hb : b < 0x30) :
    mbcsNonAscii st b = false := by
  have hk : asciiAt ccsc k (b :: bs) = true := by
    by_contra h
    exact absurd (hw.1 (by simpa using h)) (UInt8.not_le.2 hb)
  simpa [WalkAgreesAt, hk] using ha

end PsqlOdbc
