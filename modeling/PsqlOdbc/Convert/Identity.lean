import PsqlOdbc.Statement.ScannersAgree

/-!
# `@@identity`

`inner_process_tokens` replaces the ten bytes of `@@identity` and adds ten to the position, to
which the loop then adds one more.  `identityStep` is the call as it is meant: it leaves the
cursor on the last byte of the token, in the state that any other identifier leaves.  Both loops
handle the same bytes in the same way exactly as long as no byte follows a token.
-/

namespace PsqlOdbc

/-! ## Runs with the bytes their calls begin with -/

/-- The loop over the statement with `step` as its body: where the calls begin, and the build at
the end. -/
def runTokens (step : QueryParse → TokenBuild → Option (QueryParse × TokenBuild)) :
    Nat → QueryParse → TokenBuild → List Nat × Option TokenBuild
  | 0, _, _ => ([], none)
  | fuel + 1, qp, qb =>
    if qp.opos < qp.statement.length then
      match step qp qb with
      | some (qp', qb') =>
        let rest := runTokens step fuel qp'.advance qb'
        (qp.opos :: rest.1, rest.2)
      | none => ([qp.opos], none)
    else ([], some qb)

section Runs

variable {step : QueryParse → TokenBuild → Option (QueryParse × TokenBuild)}
  {qp qp' : QueryParse} {qb qb' : TokenBuild}

@[simp] theorem runTokens_zero : runTokens step 0 qp qb = ([], none) := rfl

theorem runTokens_step (fuel : Nat) (hlt : qp.opos < qp.statement.length)
    (hstep : step qp qb = some (qp', qb')) :
    runTokens step (fuel + 1) qp qb =
      (qp.opos :: (runTokens step fuel qp'.advance qb').1,
        (runTokens step fuel qp'.advance qb').2) := by
  rw [runTokens, if_pos hlt, hstep]

theorem runTokens_fail (fuel : Nat) (hlt : qp.opos < qp.statement.length)
    (hstep : step qp qb = none) : runTokens step (fuel + 1) qp qb = ([qp.opos], none) := by
  rw [runTokens, if_pos hlt, hstep]

theorem runTokens_end (fuel : Nat) (hend : qp.statement.length ≤ qp.opos) :
    runTokens step (fuel + 1) qp qb = ([], some qb) := by
  rw [runTokens, if_neg (Nat.not_lt.2 hend)]

/-- Where a run begins, unless it is at its end. -/
theorem runTokens_head (fuel : Nat) (hlt : qp.opos < qp.statement.length) :
    (runTokens step (fuel + 1) qp qb).1.head? = some qp.opos := by
  cases hstep : step qp qb with
  | none => rw [runTokens_fail fuel hlt hstep, List.head?_cons]
  | some r => rw [runTokens_step fuel hlt hstep, List.head?_cons]

end Runs

variable {hooks : TokenHooks} {qp qp0 qp1 : QueryParse} {qb qb0 qb1 : TokenBuild}

/-! ## The token -/

/-- The cursor stands on a token, outside of literals, quoted identifiers and comments. -/
def QueryParse.atIdentity (qp : QueryParse) : Bool :=
  strnicmpEq qp.oldPtr (ascii "@@identity") &&
    !mbcsNonAscii (pgCSStat qp.ccst (qp.charAt qp.opos) qp.ccsc) (qp.charAt qp.opos) &&
    { qp.inStatus with identKeyword := false }.idle

/-- The call replaces a token: it does not stop before it. -/
structure Replaces (qp : QueryParse) (qb : TokenBuild) : Prop where
  token : qp.atIdentity = true
  pos : 0 ≤ wrapInt 32 qp.opos
  keyset : (keysetText qp qb (wrapInt 32 qp.opos)).isSome

/-- The state behind an identifier of ten bytes that begins as a token does: its last eight bytes
are the word the loop collects. -/
def QueryParse.behindIdentifier (qp qp' : QueryParse) : QueryParse :=
  { qp' with
    opos := qp.opos + 9
    inStatus := { identKeyword := true }
    prevTokenEnd := false
    tokenCurr := (qp.oldPtr.drop 2).take 8 }

/-- The call as it is meant: a token is replaced, and is an identifier for what follows it. -/
def identityStep (hooks : TokenHooks) (qp : QueryParse) (qb : TokenBuild) :
    Option (QueryParse × TokenBuild) :=
  (innerProcessTokens hooks qp qb).map fun r ↦
    if qp.atIdentity then (qp.behindIdentifier r.1, r.2) else r

/-- A token has ten bytes, the first of which is no other symbol. -/
theorem oldPtr_of_atIdentity (h : qp.atIdentity = true) :
    (∃ rest, qp.oldPtr = 0x40 :: rest) ∧ qp.opos + 10 ≤ qp.statement.length := by
  simp only [QueryParse.atIdentity, strnicmpEq, Bool.and_eq_true, decide_eq_true_eq] at h
  have hten : (ascii "@@identity").length = 10 := by decide
  have hlen := congrArg List.length h.1.1
  rw [List.length_map, List.length_take, QueryParse.oldPtr, List.length_drop, hten] at hlen
  refine ⟨?_, by omega⟩
  cases hold : qp.oldPtr with
  | nil =>
    rw [QueryParse.oldPtr, List.drop_eq_nil_iff] at hold
    omega
  | cons c rest =>
    have hnot : c ≠ 0x40 → False := by
      intro hc
      have heq := @strnicmpEq_identity c rest hc
      rw [strnicmpEq, ← hold, decide_eq_false_iff_not] at heq
      exact heq h.1.1
    exact ⟨rest, by rw [not_not.1 hnot]⟩

theorem processIdle_identity (pt : ParseToken) (h : strnicmpEq qp.oldPtr (ascii "@@identity") = true) :
    processIdle hooks pt qp qb 0x40 =
      some ({ qp with opos := qp.opos + 10 }, qb.appendData (hooks.identityText qp qb)) := by
  have hcr : ¬(qb.convertLf = true ∧ (0x40 : UInt8) = pgCarriageReturn ∧
      qp.charAt (qp.opos + 1) = pgLinefeed) := fun hcase ↦ absurd hcase.2.1 (by decide)
  rw [processIdle, if_neg hcr, if_neg (by decide), if_neg (by decide), if_pos h]

/-- What a call does on a token. -/
theorem innerProcessTokens_identity (h : Replaces qp qb) :
    ∃ qp' qb', innerProcessTokens hooks qp qb = some (qp', qb') ∧ qp'.opos = qp.opos + 10 ∧
      qp'.statement = qp.statement := by
  obtain ⟨⟨rest, hold⟩, -⟩ := oldPtr_of_atIdentity h.token
  obtain ⟨qb1, hkey⟩ := Option.isSome_iff_exists.1 h.keyset
  have htoken := h.token
  simp only [QueryParse.atIdentity, qp.charAt_of_oldPtr hold, Bool.and_eq_true,
    Bool.not_eq_true'] at htoken
  obtain ⟨⟨hword, hascii⟩, hidle⟩ := htoken
  have hnoword : ¬(qp.inStatus.identKeyword = true ∧
      (isAlnum 0x40 ∨ (0x40 : UInt8) = dollarQuote ∨ (0x40 : UInt8) = underscore)) :=
    fun hcase ↦ absurd hcase.2 (by decide)
  rw [innerProcessTokens]
  simp only [qp.charAt_of_oldPtr hold]
  rw [if_neg (Int.not_lt.2 h.pos), hkey, Option.bind_some, hascii, if_neg Bool.false_ne_true,
    if_neg hnoword]
  by_cases hkeyword : qp.inStatus.identKeyword = true
  · rw [if_pos hkeyword, ptInitialize.tokenFinish_zero _ rfl, if_pos hidle]
    exact ⟨_, _, processIdle_identity _ hword, rfl, rfl⟩
  · rw [Bool.not_eq_true] at hkeyword
    have hsame : qp.inStatus = { qp.inStatus with identKeyword := false } := by rw [← hkeyword]
    have hidle' : qp.inStatus.idle = true := by
      rw [hsame]
      exact hidle
    simp only [hkeyword, Bool.false_eq_true, if_false]
    rw [if_pos hidle']
    exact ⟨_, _, processIdle_identity _ hword, rfl, rfl⟩

theorem replaces_of_step {r : QueryParse × TokenBuild} (htoken : qp.atIdentity = true)
    (hstep : innerProcessTokens hooks qp qb = some r) : Replaces qp qb := by
  rw [innerProcessTokens] at hstep
  split at hstep
  · cases hstep
  · next hpos =>
    obtain ⟨qb1, hkey, -⟩ := Option.bind_eq_some_iff.1 hstep
    exact ⟨htoken, Int.not_lt.1 hpos, Option.isSome_iff_exists.2 ⟨qb1, hkey⟩⟩

/-! ## The two runs -/

theorem identityStep_other (h : qp.atIdentity = false) :
    identityStep hooks qp qb = innerProcessTokens hooks qp qb := by
  rw [identityStep]
  cases innerProcessTokens hooks qp qb with
  | none => rfl
  | some r => rw [Option.map_some, h, if_neg Bool.false_ne_true]

theorem identityStep_token {qp' : QueryParse} {qb' : TokenBuild} (h : qp.atIdentity = true)
    (hstep : innerProcessTokens hooks qp qb = some (qp', qb')) :
    identityStep hooks qp qb = some (qp.behindIdentifier qp', qb') := by
  rw [identityStep, hstep, Option.map_some, if_pos h]

/-- A state reached from the second one is reached from the first. -/
theorem Reaches.behind_step (h : Reaches hooks qp1.advance qb1 qp qb)
    (hlt : qp0.opos < qp0.statement.length)
    (hcall : innerProcessTokens hooks qp0 qb0 = some (qp1, qb1)) : Reaches hooks qp0 qb0 qp qb := by
  induction h with
  | start => exact .step .start hlt hcall
  | step _ hlt' hcall' ih => exact ih.step hlt' hcall'

/-- As long as nothing follows a token, the runs are the same. -/
theorem runTokens_eq_of_last (fuel : Nat) {qp : QueryParse} {qb : TokenBuild}
    (h : ∀ qp1 qb1, Reaches hooks qp qb qp1 qb1 → Replaces qp1 qb1 →
      qp1.statement.length ≤ qp1.opos + 10) :
    runTokens (innerProcessTokens hooks) fuel qp qb = runTokens (identityStep hooks) fuel qp qb := by
  induction fuel generalizing qp qb with
  | zero => rw [runTokens_zero, runTokens_zero]
  | succ fuel ih =>
    by_cases hlt : qp.opos < qp.statement.length
    · cases hstep : innerProcessTokens hooks qp qb with
      | none =>
        have hnone : identityStep hooks qp qb = none := by rw [identityStep, hstep, Option.map_none]
        rw [runTokens_fail fuel hlt hstep, runTokens_fail fuel hlt hnone]
      | some r =>
        obtain ⟨qp1, qb1⟩ := r
        cases htoken : qp.atIdentity with
        | false =>
          have hrest := ih fun qp2 qb2 hreach ↦ h qp2 qb2 (hreach.behind_step hlt hstep)
          rw [runTokens_step fuel hlt hstep, runTokens_step fuel hlt
            ((identityStep_other htoken).trans hstep), hrest]
        | true =>
          -- The token is the end of the statement, so that both runs end behind it.
          have hreplaces := replaces_of_step htoken hstep
          have hlast := h qp qb .start hreplaces
          obtain ⟨qp', qb', hcall, hpos, hsame⟩ := innerProcessTokens_identity hreplaces
          obtain ⟨rfl, rfl⟩ := Prod.mk.inj (Option.some.inj (hstep.symm.trans hcall))
          rw [runTokens_step fuel hlt hstep, runTokens_step fuel hlt (identityStep_token htoken hstep)]
          cases fuel with
          | zero => rw [runTokens_zero, runTokens_zero]
          | succ fuel =>
            rw [runTokens_end fuel, runTokens_end fuel]
            · change qp1.statement.length ≤ qp.opos + 9 + 1
              rw [hsame]
              exact hlast
            · change qp1.statement.length ≤ qp1.opos + 1
              rw [hsame, hpos]
              exact Nat.le_succ_of_le hlast
    · rw [runTokens_end fuel (Nat.not_lt.1 hlt), runTokens_end fuel (Nat.not_lt.1 hlt)]

/-- A byte behind a token is passed over. -/
theorem runTokens_ne_of_behind (h : Replaces qp qb) (hbehind : qp.opos + 10 < qp.statement.length) :
    runTokens (innerProcessTokens hooks) 2 qp qb ≠ runTokens (identityStep hooks) 2 qp qb := by
  have hlt : qp.opos < qp.statement.length := by omega
  obtain ⟨qp', qb', hcall, hpos, hsame⟩ := @innerProcessTokens_identity hooks qp qb h
  have hmeant : (runTokens (identityStep hooks) 1 (qp.behindIdentifier qp').advance qb').1.head? =
      some (qp.opos + 10) := by
    refine runTokens_head 0 ?_
    change qp.opos + 10 < qp'.statement.length
    rw [hsame]
    exact hbehind
  have hpassed : qp'.advance.opos = qp.opos + 11 := congrArg (· + 1) hpos
  rw [runTokens_step 1 hlt hcall, runTokens_step 1 hlt (identityStep_token h.token hcall)]
  intro heq
  have hfirst := congrArg List.head? (List.cons.inj (congrArg Prod.fst heq)).2
  rw [hmeant] at hfirst
  by_cases hlt' : qp'.advance.opos < qp'.advance.statement.length
  · rw [runTokens_head 0 hlt', hpassed] at hfirst
    exact absurd (Option.some.inj hfirst) (by omega)
  · rw [runTokens_end 0 (Nat.not_lt.1 hlt')] at hfirst
    cases hfirst

/-- Runs that are the same are so from every state they get to. -/
theorem runTokens_eq_of_reaches (hreach : Reaches hooks qp0 qb0 qp qb)
    (h : ∀ fuel, runTokens (innerProcessTokens hooks) fuel qp0 qb0 =
      runTokens (identityStep hooks) fuel qp0 qb0) (fuel : Nat) :
    runTokens (innerProcessTokens hooks) fuel qp qb = runTokens (identityStep hooks) fuel qp qb := by
  induction hreach generalizing fuel with
  | start => exact h fuel
  | @step qp qp' qb qb' _ hlt hcall ih =>
    cases htoken : qp.atIdentity with
    | false =>
      have heq := ih (fuel + 1)
      rw [runTokens_step fuel hlt hcall,
        runTokens_step fuel hlt ((identityStep_other htoken).trans hcall)] at heq
      obtain ⟨hcalls, hbuild⟩ := Prod.mk.inj heq
      exact Prod.ext (List.cons.inj hcalls).2 hbuild
    | true =>
      have hreplaces := replaces_of_step htoken hcall
      have hlast : qp.statement.length ≤ qp.opos + 10 :=
        Nat.not_lt.1 fun hbehind ↦ runTokens_ne_of_behind hreplaces hbehind (ih 2)
      obtain ⟨qp1, qb1, hcall', hpos, hsame⟩ := innerProcessTokens_identity hreplaces
      obtain ⟨rfl, rfl⟩ := Prod.mk.inj (Option.some.inj (hcall'.symm.trans hcall))
      have hend : qp1.advance.statement.length ≤ qp1.advance.opos := by
        change qp1.statement.length ≤ qp1.opos + 1
        rw [hsame, hpos]
        exact Nat.le_succ_of_le hlast
      cases fuel with
      | zero => rw [runTokens_zero, runTokens_zero]
      | succ fuel => rw [runTokens_end fuel hend, runTokens_end fuel hend]

/-- The loop rewrites a statement as it is meant to exactly as long as nothing follows a token
that it replaces. -/
theorem innerProcessTokens_identity_iff (hooks : TokenHooks) (qp : QueryParse) (qb : TokenBuild) :
    (∀ fuel, runTokens (innerProcessTokens hooks) fuel qp qb =
        runTokens (identityStep hooks) fuel qp qb) ↔
      ∀ qp1 qb1, Reaches hooks qp qb qp1 qb1 → Replaces qp1 qb1 →
        qp1.statement.length ≤ qp1.opos + 10 := by
  constructor
  · intro h qp1 qb1 hreach hreplaces
    refine Nat.not_lt.1 fun hbehind ↦ ?_
    exact runTokens_ne_of_behind hreplaces hbehind (runTokens_eq_of_reaches hreach h 2)
  · intro h fuel
    exact runTokens_eq_of_last fuel h

/-- No table has been inserted into. -/
def nullHooks : TokenHooks := ⟨fun _ _ ↦ none, fun _ _ ↦ ascii "NULL", fun _ _ ↦ some (ascii "1")⟩

/-- Ten other bytes that look like a token leave the state of `QueryParse.behindIdentifier`. -/
example :
    (processTokens nullHooks 11 (qpInitialize utf8Connection (ascii "@@identitx") 0 .select)
        twoParameters).map
      (fun r ↦ (r.1.opos, r.1.inStatus, r.1.prevTokenEnd, r.1.tokenCurr)) =
    some (10, { identKeyword := true }, false, ascii "identitx") := by decide

/-- The comma behind a token is lost. -/
theorem innerProcessTokens_identity_loses :
    (runTokens (innerProcessTokens nullHooks) 40
        (qpInitialize utf8Connection (ascii "SELECT @@identity, 1") 0 .select) twoParameters).2.map
          (·.queryStatement) = some (ascii "SELECT NULL 1") ∧
      (runTokens (identityStep nullHooks) 40
        (qpInitialize utf8Connection (ascii "SELECT @@identity, 1") 0 .select) twoParameters).2.map
          (·.queryStatement) = some (ascii "SELECT NULL, 1") ∧
      ¬∀ fuel, runTokens (innerProcessTokens nullHooks) fuel
          (qpInitialize utf8Connection (ascii "SELECT @@identity, 1") 0 .select) twoParameters =
        runTokens (identityStep nullHooks) fuel
          (qpInitialize utf8Connection (ascii "SELECT @@identity, 1") 0 .select) twoParameters := by
  refine ⟨by decide, by decide, fun h ↦ ?_⟩
  have hcalls := congrArg Prod.fst (h 40)
  revert hcalls
  decide

end PsqlOdbc
