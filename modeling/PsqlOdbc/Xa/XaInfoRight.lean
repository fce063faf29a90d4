import PsqlOdbc.DrvconnPairs
import PsqlOdbc.Xa.XaInfo

/-!
# When the items are kept

What the loop of the parser does is known from the items alone (`xaLoop_join`): it goes on up to the
first value with a closing brace inside, as far as names and values fit the arrays.
-/

namespace PsqlOdbc.Xa

open Lib

/-! ## Names and values -/

section

variable {c : UInt8} {u w text : List UInt8}

theorem splitByte_append (h : c ∉ u) : splitByte c (u ++ c :: w) = some (u, w) := by
  induction u with
  | nil => rw [List.nil_append, splitByte, if_pos rfl]
  | cons b u ih =>
    obtain ⟨hb, hu⟩ := not_or.1 (mt List.mem_cons.2 h)
    rw [List.cons_append, splitByte, if_neg (Ne.symm hb), ih hu]
    rfl

theorem splitByte_none (h : c ∉ text) : splitByte c text = none := by
  induction text with
  | nil => rfl
  | cons b text ih =>
    obtain ⟨hb, htext⟩ := not_or.1 (mt List.mem_cons.2 h)
    rw [splitByte, if_neg (Ne.symm hb), ih htext]
    rfl

end

/-- What is copied of a part: a value in braces ends at its first closing brace. -/
def XaPart.copied (part : XaPart) : XaPart :=
  ⟨if part.hasbr then part.text.takeWhile (· ≠ closingBracket) else part.text, part.hasbr⟩

/-- A closing brace stands inside a value in braces. -/
def XaPart.IsCut (part : XaPart) : Prop := part.hasbr = true ∧ closingBracket ∈ part.text

instance (part : XaPart) : Decidable part.IsCut := inferInstanceAs (Decidable (_ ∧ _))

/-- A text up to its first closing brace, and what is behind it when braces are doubled. -/
theorem doubleBrackets_split {text : List UInt8} (h : closingBracket ∈ text) :
    ∃ t, doubleBrackets text =
        text.takeWhile (· ≠ closingBracket) ++ closingBracket :: closingBracket :: t ∧
      closingBracket ∉ text.takeWhile (· ≠ closingBracket) := by
  induction text with
  | nil => cases h
  | cons b text ih =>
    rw [doubleBrackets_cons]
    by_cases hb : b = closingBracket
    · subst hb
      refine ⟨doubleBrackets text, ?_, ?_⟩
      · rw [List.takeWhile_cons_of_neg (by simp), if_pos rfl]
        rfl
      · rw [List.takeWhile_cons_of_neg (by simp)]
        exact List.not_mem_nil
    · obtain ⟨t, ht, hnotMem⟩ := ih ((List.mem_cons.1 h).resolve_left (Ne.symm hb))
      refine ⟨t, ?_, ?_⟩
      · rw [List.takeWhile_cons_of_pos (by simpa using hb), if_neg hb, ht]
        rfl
      · rw [List.takeWhile_cons_of_pos (by simpa using hb), List.mem_cons]
        exact not_or.2 ⟨Ne.symm hb, hnotMem⟩

theorem copied_of_not_isCut {part : XaPart} (h : ¬part.IsCut) : part.copied = part := by
  obtain ⟨text, hasbr⟩ := part
  cases hasbr with
  | false => rfl
  | true =>
    have hnotMem : closingBracket ∉ text := fun hmem ↦ h ⟨rfl, hmem⟩
    rw [XaPart.copied, if_pos rfl]
    congr 1
    exact List.takeWhile_eq_self_iff.2 fun b hb ↦ by
      rw [decide_eq_true_eq]
      rintro rfl
      exact hnotMem hb

/-- A part without a closing brace inside is put out as it was. -/
theorem output_eq_shown {part : XaPart} (h : ¬part.IsCut) : part.output = part.shown := by
  obtain ⟨text, hasbr⟩ := part
  cases hasbr with
  | false => rfl
  | true =>
    have hnotMem : closingBracket ∉ text := fun hmem ↦ h ⟨rfl, hmem⟩
    rw [XaPart.output, XaPart.shown, if_pos rfl, if_pos rfl, bracesOf,
      doubleBrackets_of_notMem hnotMem]

namespace XaEntry

variable (entry : XaEntry)

/-- The name and what is copied of the value are shorter than the arrays. -/
def Fits : Prop :=
  entry.name.text.length < xaBufferSize ∧ entry.value.copied.text.length < xaBufferSize

instance : Decidable entry.Fits := inferInstanceAs (Decidable (_ ∧ _))

/-- What the parser knows behind an item that fits. -/
def added (info : XaInfo) : XaInfo := info.add entry.name entry.value.copied

theorem name_not_isCut : ¬entry.name.IsCut := by
  rintro ⟨hasbr, hmem⟩
  have hbrace := entry.name_brace
  rw [if_pos hasbr] at hbrace
  exact hbrace hmem

end XaEntry

theorem strncpyS_of_lt {text : List UInt8} (h : text.length < xaBufferSize) :
    strncpyS text = .ok text := if_pos h

theorem strncpyS_of_not_lt {text : List UInt8} (h : ¬text.length < xaBufferSize) :
    strncpyS text = .error .invalidParameter := if_neg h

section

variable {text w : List UInt8}

theorem xaKeyword_braces (h : closingBracket ∉ text) (w : List UInt8) :
    xaKeyword (openingBracket :: (text ++ closingBracket :: equalsSign :: w)) =
      (strncpyS text).bind fun keyword ↦ .ok (⟨keyword, true⟩, w) := by
  have hhead : (openingBracket :: (text ++ closingBracket :: equalsSign :: w)).head? =
      some openingBracket := rfl
  rw [xaKeyword, if_pos hhead, List.tail_cons, splitByte_append h]
  rfl

theorem xaKeyword_plain (h : equalsSign ∉ text) (hhead : text.head? ≠ some openingBracket)
    (w : List UInt8) :
    xaKeyword (text ++ equalsSign :: w) =
      (strncpyS text).bind fun keyword ↦ .ok (⟨keyword, false⟩, w) := by
  have hhead' : (text ++ equalsSign :: w).head? ≠ some openingBracket := by
    cases text with
    | nil => exact show some equalsSign ≠ some openingBracket by decide
    | cons b text => exact hhead
  rw [xaKeyword, if_neg hhead', splitByte_append h]
  rfl

theorem xaValue_braces (h : closingBracket ∉ text) (w : List UInt8) :
    xaValue (openingBracket :: (text ++ closingBracket :: w)) =
      (strncpyS text).bind fun value ↦ .ok (⟨value, true⟩, w) := by
  have hhead : (openingBracket :: (text ++ closingBracket :: w)).head? = some openingBracket := rfl
  rw [xaValue, if_pos hhead, List.tail_cons, splitByte_append h]
  rfl

theorem xaValue_plain (h : attributeDelimiter ∉ text) (hhead : text.head? ≠ some openingBracket)
    (w : List UInt8) :
    xaValue (text ++ attributeDelimiter :: w) =
      (strncpyS text).bind fun value ↦ .ok (⟨value, false⟩, attributeDelimiter :: w) := by
  have hhead' : (text ++ attributeDelimiter :: w).head? ≠ some openingBracket := by
    cases text with
    | nil => exact show some attributeDelimiter ≠ some openingBracket by decide
    | cons b text => exact hhead
  rw [xaValue, if_neg hhead', splitByte_append h]
  rfl

/-- A plain value at the end of the string is copied without a bound. -/
theorem xaValue_last (h : attributeDelimiter ∉ text) (hhead : text.head? ≠ some openingBracket) :
    xaValue text = (strcpyValue text).bind fun value ↦ .ok (⟨value, false⟩, []) := by
  rw [xaValue, if_neg hhead, splitByte_none h]
  rfl

end

/-- The keyword in front of an equals sign. -/
theorem xaKeyword_shown (entry : XaEntry) (w : List UInt8) :
    xaKeyword (entry.name.shown ++ equalsSign :: w) =
      (strncpyS entry.name.text).bind fun keyword ↦ .ok (⟨keyword, entry.name.hasbr⟩, w) := by
  have hbrace := entry.name_brace
  cases hasbr : entry.name.hasbr with
  | true =>
    rw [if_pos hasbr] at hbrace
    rw [← xaKeyword_braces hbrace, XaPart.shown, if_pos hasbr, bracesOf,
      doubleBrackets_of_notMem hbrace]
    simp
  | false =>
    rw [if_neg (by simp [hasbr])] at hbrace
    rw [← xaKeyword_plain entry.name_equals hbrace, XaPart.shown, if_neg (by simp [hasbr])]

/-- The value at the end of the string or in front of a delimiter. -/
theorem xaValue_shown (entry : XaEntry) {w : List UInt8}
    (hw : w = [] ∨ ∃ w', w = attributeDelimiter :: w') :
    ∃ rest copy, xaValue (entry.value.shown ++ w) =
        ((copy entry.value.copied.text).bind fun value ↦ .ok (⟨value, entry.value.hasbr⟩, rest)) ∧
      (copy = strncpyS ∨ copy = strcpyValue) ∧
      (entry.value.IsCut → rest.head? = some closingBracket) ∧
      (¬entry.value.IsCut → rest = w) := by
  cases hasbr : entry.value.hasbr with
  | true =>
    have hshown : entry.value.shown ++ w =
        openingBracket :: (doubleBrackets entry.value.text ++ closingBracket :: w) := by
      rw [XaPart.shown, if_pos hasbr, bracesOf]
      simp
    by_cases hmem : closingBracket ∈ entry.value.text
    · obtain ⟨t, ht, hnotMem⟩ := doubleBrackets_split hmem
      refine ⟨closingBracket :: (t ++ closingBracket :: w), strncpyS, ?_, .inl rfl, fun _ ↦ rfl,
        fun hcut ↦ absurd ⟨hasbr, hmem⟩ hcut⟩
      rw [hshown, ht, XaPart.copied, if_pos hasbr, ← xaValue_braces hnotMem]
      simp
    · refine ⟨w, strncpyS, ?_, .inl rfl, fun hcut ↦ absurd hcut.2 hmem, fun _ ↦ rfl⟩
      rw [hshown, doubleBrackets_of_notMem hmem, copied_of_not_isCut fun hcut ↦ hmem hcut.2,
        xaValue_braces hmem]
  | false =>
    obtain ⟨hdelim, hhead⟩ := entry.value_plain hasbr
    have hcut : ¬entry.value.IsCut := by
      rintro ⟨htrue, -⟩
      rw [hasbr] at htrue
      cases htrue
    have hshown : entry.value.shown = entry.value.text := if_neg (by simp [hasbr])
    rw [copied_of_not_isCut hcut, hshown]
    rcases hw with rfl | ⟨w', rfl⟩
    · refine ⟨[], strcpyValue, ?_, .inr rfl, fun h ↦ absurd h hcut, fun _ ↦ rfl⟩
      rw [List.append_nil, xaValue_last hdelim hhead]
    · exact ⟨_, strncpyS, xaValue_plain hdelim hhead w', .inl rfl, fun h ↦ absurd h hcut,
        fun _ ↦ rfl⟩

/-! ## One item -/

/-- An item that fits. -/
theorem xaItem_shown {entry : XaEntry} (hfits : entry.Fits) {w : List UInt8}
    (hw : w = [] ∨ ∃ w', w = attributeDelimiter :: w') (info : XaInfo) :
    ∃ rest, xaItem (entry.shown ++ w) info = .ok (entry.added info, rest) ∧
      (entry.value.IsCut → rest.head? = some closingBracket) ∧
      (¬entry.value.IsCut → rest = w) := by
  obtain ⟨rest, copy, hvalue, hcopy, hcut, hrest⟩ := xaValue_shown entry hw
  refine ⟨rest, ?_, hcut, hrest⟩
  have hcopied : copy entry.value.copied.text = .ok entry.value.copied.text := by
    rcases hcopy with rfl | rfl
    · exact strncpyS_of_lt hfits.2
    · exact if_pos hfits.2
  rw [xaItem, XaEntry.shown, List.append_assoc, List.cons_append, xaKeyword_shown,
    strncpyS_of_lt hfits.1]
  change (xaValue (entry.value.shown ++ w)).bind _ = _
  rw [hvalue, hcopied]
  rfl

/-- An item that does not. -/
theorem xaItem_error {entry : XaEntry} (hfits : ¬entry.Fits) {w : List UInt8}
    (hw : w = [] ∨ ∃ w', w = attributeDelimiter :: w') (info : XaInfo) :
    ∃ stop ≠ .leave, xaItem (entry.shown ++ w) info = .error stop := by
  rw [xaItem, XaEntry.shown, List.append_assoc, List.cons_append, xaKeyword_shown]
  by_cases hname : entry.name.text.length < xaBufferSize
  · obtain ⟨rest, copy, hvalue, hcopy, -, -⟩ := xaValue_shown entry hw
    have hlong : ¬entry.value.copied.text.length < xaBufferSize := fun h ↦ hfits ⟨hname, h⟩
    have hcopied : ∃ stop ≠ .leave, copy entry.value.copied.text = .error stop := by
      rcases hcopy with rfl | rfl
      · exact ⟨.invalidParameter, by decide, if_neg hlong⟩
      · exact ⟨.overflow, by decide, if_neg hlong⟩
    obtain ⟨stop, hstop, hcopied⟩ := hcopied
    refine ⟨stop, hstop, ?_⟩
    rw [strncpyS_of_lt hname]
    change (xaValue (entry.value.shown ++ w)).bind _ = _
    rw [hvalue, hcopied]
    rfl
  · refine ⟨.invalidParameter, by decide, ?_⟩
    rw [strncpyS_of_not_lt hname]
    rfl

/-! ## The loop -/

/-- What the loop knows behind the items, if names and values fit as far as it goes. -/
def outcome : List XaEntry → XaInfo → Option XaInfo
  | [], info => some info
  | entry :: entries, info =>
    if entry.Fits then
      if entry.value.IsCut then some (entry.added info) else outcome entries (entry.added info)
    else none

theorem shown_ne_nil (entry : XaEntry) (w : List UInt8) : entry.shown ++ w ≠ [] := by
  rw [XaEntry.shown]
  simp

/-- One round, with an item that fits. -/
theorem xaLoop_shown {entry : XaEntry} (hfits : entry.Fits) {w : List UInt8}
    (hw : w = [] ∨ ∃ w', w = attributeDelimiter :: w') (info : XaInfo) :
    xaLoop (entry.shown ++ w) info =
      if entry.value.IsCut then .ok (entry.added info)
      else if w.head? = some attributeDelimiter then xaLoop w.tail (entry.added info)
      else .ok (entry.added info) := by
  obtain ⟨rest, hitem, hcut, hrest⟩ := xaItem_shown hfits hw info
  rw [xaLoop, if_neg (shown_ne_nil entry w)]
  split
  · next heq =>
    rw [hitem] at heq
    cases heq
  · next stop _ heq =>
    rw [hitem] at heq
    cases heq
  · next info' rest' heq =>
    rw [hitem] at heq
    cases heq
    by_cases h : entry.value.IsCut
    · rw [if_pos h, hcut h, if_neg (by decide)]
    · rw [if_neg h, hrest h]

theorem xaLoop_error {entry : XaEntry} (hfits : ¬entry.Fits) {w : List UInt8}
    (hw : w = [] ∨ ∃ w', w = attributeDelimiter :: w') (info : XaInfo) :
    ∃ stop, xaLoop (entry.shown ++ w) info = .error stop := by
  obtain ⟨stop, hstop, hitem⟩ := xaItem_error hfits hw info
  refine ⟨stop, ?_⟩
  rw [xaLoop, if_neg (shown_ne_nil entry w)]
  split
  · next heq =>
    rw [hitem] at heq
    cases heq
    exact absurd rfl hstop
  · next stop' _ heq =>
    rw [hitem] at heq
    cases heq
    rfl
  · next info' rest' heq =>
    rw [hitem] at heq
    cases heq

/-- The loop on a whole string. -/
theorem xaLoop_join (last : Bool) (entries : List XaEntry) (info : XaInfo) :
    match outcome entries info with
    | some info' => xaLoop (XaEntry.join last entries) info = .ok info'
    | none => ∃ stop, xaLoop (XaEntry.join last entries) info = .error stop := by
  induction entries generalizing info with
  | nil => rw [outcome, XaEntry.join, xaLoop, if_pos rfl]
  | cons entry entries ih =>
    obtain ⟨w, hjoin, hw, htail⟩ : ∃ w, XaEntry.join last (entry :: entries) = entry.shown ++ w ∧
        (w = [] ∨ ∃ w', w = attributeDelimiter :: w') ∧
        if w.head? = some attributeDelimiter then w.tail = XaEntry.join last entries
        else entries = [] := by
      cases entries with
      | nil =>
        cases last with
        | true =>
          exact ⟨[attributeDelimiter], rfl, .inr ⟨[], rfl⟩, by rw [List.head?_cons, if_pos rfl]; rfl⟩
        | false => exact ⟨[], rfl, .inl rfl, by rw [if_neg (by simp)]⟩
      | cons entry' entries =>
        exact ⟨_, rfl, .inr ⟨_, rfl⟩, by rw [List.head?_cons, if_pos rfl]; rfl⟩
    rw [hjoin, outcome]
    by_cases hfits : entry.Fits
    · rw [if_pos hfits, xaLoop_shown hfits hw]
      by_cases hcut : entry.value.IsCut
      · rw [if_pos hcut, if_pos hcut]
      · rw [if_neg hcut, if_neg hcut]
        by_cases hdelim : w.head? = some attributeDelimiter
        · rw [if_pos hdelim] at htail ⊢
          rw [htail]
          exact ih _
        · rw [if_neg hdelim] at htail ⊢
          rw [htail]
          rfl
    · rw [if_neg hfits]
      exact xaLoop_error hfits hw info

/-! ## What is stored -/

/-- An item as it is put out. -/
def XaEntry.stored (entry : XaEntry) : List UInt8 :=
  if entry.IsOwn then []
  else entry.name.output ++ equalsSign :: (entry.value.copied.output ++ [attributeDelimiter])

theorem dsnstr_added (entry : XaEntry) (info : XaInfo) :
    (entry.added info).dsnstr = info.dsnstr ++ entry.stored := by
  rw [XaEntry.added, XaInfo.add, XaEntry.stored]
  by_cases hdtchk : stricmpEq entry.name.text (ascii "dtchk") = true
  · have hown : entry.IsOwn := .inl hdtchk
    rw [if_pos hdtchk, if_pos hown, List.append_nil]
  · rw [if_neg hdtchk]
    by_cases hdebug : (stricmpEq entry.name.text (ascii "debug") ||
        stricmpEq entry.name.text (ascii "B2")) = true
    · have hown : entry.IsOwn := .inr (Bool.or_eq_true_iff.1 hdebug)
      rw [if_pos hdebug, if_pos hown, List.append_nil]
    · have hown : ¬entry.IsOwn := by
        rintro (h | h)
        · exact hdtchk h
        · exact hdebug (Bool.or_eq_true_iff.2 h)
      rw [if_neg hdebug, if_neg hown]

/-- The items up to the first value that is cut. -/
def storedAll : List XaEntry → List UInt8
  | [] => []
  | entry :: entries => entry.stored ++ if entry.value.IsCut then [] else storedAll entries

theorem dsnstr_outcome {entries : List XaEntry} {info info' : XaInfo}
    (h : outcome entries info = some info') :
    info'.dsnstr = info.dsnstr ++ storedAll entries := by
  induction entries generalizing info with
  | nil =>
    cases h
    exact (List.append_nil _).symm
  | cons entry entries ih =>
    rw [outcome] at h
    split at h
    · rw [storedAll]
      split at h
      · next hcut =>
        cases h
        rw [if_pos hcut, List.append_nil, dsnstr_added]
      · next hcut =>
        rw [if_neg hcut, ih h, dsnstr_added, List.append_assoc]
    · cases h

theorem kept_cons (entry : XaEntry) (entries : List XaEntry) :
    XaEntry.kept (entry :: entries) =
      (if entry.IsOwn then [] else entry.shown ++ [attributeDelimiter]) ++
        XaEntry.kept entries := by
  by_cases hown : entry.IsOwn <;> simp [XaEntry.kept, hown]

/-- Nothing is to be kept if and only if all items are for the resource manager itself. -/
theorem count_kept_eq_zero_iff {entries : List XaEntry} :
    (XaEntry.kept entries).count attributeDelimiter = 0 ↔ ∀ entry ∈ entries, entry.IsOwn := by
  induction entries with
  | nil => simp [XaEntry.kept]
  | cons entry entries ih =>
    rw [kept_cons, List.count_append, List.forall_mem_cons, ← ih]
    by_cases hown : entry.IsOwn
    · simp [hown]
    · simp [hown, List.count_append]

theorem kept_eq_nil {entries : List XaEntry} (h : ∀ entry ∈ entries, entry.IsOwn) :
    XaEntry.kept entries = [] := by
  rw [XaEntry.kept, List.filter_eq_nil_iff.2 fun entry hentry ↦ by simpa using h entry hentry]
  rfl

/-- An item without a cut value is stored as it was. -/
theorem stored_of_not_isCut {entry : XaEntry} (h : ¬entry.value.IsCut) :
    entry.stored = if entry.IsOwn then [] else entry.shown ++ [attributeDelimiter] := by
  rw [XaEntry.stored, XaEntry.shown, output_eq_shown entry.name_not_isCut, copied_of_not_isCut h,
    output_eq_shown h, List.append_assoc, List.cons_append]

/-- The condition on the items. -/
def EntriesStand : List XaEntry → Prop
  | [] => True
  | entry :: entries =>
    entry.Fits ∧
      if entry.value.IsCut then entry.IsOwn ∧ ∀ entry' ∈ entries, entry'.IsOwn
      else EntriesStand entries

/-- With as many delimiters behind them, what is stored and what is to be kept are the same only if
no item is lost or cut. -/
theorem stand_of_stored_eq {entries : List XaEntry} {w w' : List UInt8}
    (hcount : w.count attributeDelimiter = w'.count attributeDelimiter)
    (h : storedAll entries ++ w = XaEntry.kept entries ++ w') {info : XaInfo}
    (hsome : (outcome entries info).isSome) : EntriesStand entries := by
  induction entries generalizing info with
  | nil => trivial
  | cons entry entries ih =>
    rw [outcome] at hsome
    by_cases hfits : entry.Fits
    · rw [if_pos hfits] at hsome
      refine ⟨hfits, ?_⟩
      rw [storedAll, kept_cons] at h
      by_cases hcut : entry.value.IsCut
      · rw [if_pos hcut] at h ⊢
        by_cases hown : entry.IsOwn
        · rw [XaEntry.stored, if_pos hown, if_pos hown] at h
          refine ⟨hown, count_kept_eq_zero_iff.1 ?_⟩
          have hlength := congrArg (List.count attributeDelimiter) h
          simp only [List.nil_append, List.count_append] at hlength
          omega
        · -- behind the first closing brace there is a delimiter, and there was another brace
          exfalso
          obtain ⟨t, ht, -⟩ := doubleBrackets_split hcut.2
          have hshown : entry.value.shown = openingBracket ::
              (entry.value.text.takeWhile (· ≠ closingBracket) ++
                closingBracket :: closingBracket :: t ++ [closingBracket]) := by
            rw [XaPart.shown, if_pos hcut.1, bracesOf, ht]
          have hcopied : entry.value.copied.output = openingBracket ::
              (entry.value.text.takeWhile (· ≠ closingBracket) ++ [closingBracket]) := by
            rw [XaPart.output, XaPart.copied, if_pos hcut.1, if_pos hcut.1]
          rw [XaEntry.stored, if_neg hown, if_neg hown, XaEntry.shown,
            output_eq_shown entry.name_not_isCut, hshown, hcopied] at h
          simp only [List.append_assoc, List.cons_append, List.nil_append,
            List.append_cancel_left_eq, List.cons.injEq, true_and] at h
          exact absurd h.1 (by decide)
      · rw [if_neg hcut] at h hsome ⊢
        rw [stored_of_not_isCut hcut, List.append_assoc, List.append_assoc] at h
        exact ih (List.append_cancel_left h) hsome
    · rw [if_neg hfits] at hsome
      cases hsome

/-- Where the condition holds, the items are stored. -/
theorem stored_of_stand {entries : List XaEntry} (h : EntriesStand entries) (info : XaInfo) :
    (outcome entries info).isSome ∧ storedAll entries = XaEntry.kept entries := by
  induction entries generalizing info with
  | nil => exact ⟨rfl, rfl⟩
  | cons entry entries ih =>
    obtain ⟨hfits, h⟩ := h
    rw [outcome, if_pos hfits, storedAll, kept_cons]
    by_cases hcut : entry.value.IsCut
    · rw [if_pos hcut] at h
      rw [if_pos hcut, if_pos hcut, XaEntry.stored, if_pos h.1, if_pos h.1, kept_eq_nil h.2]
      exact ⟨rfl, rfl⟩
    · rw [if_neg hcut] at h
      obtain ⟨hsome, hstored⟩ := ih h (entry.added info)
      rw [if_neg hcut, if_neg hcut, hstored, stored_of_not_isCut hcut]
      exact ⟨hsome, rfl⟩

/-- The item for the log has one delimiter. -/
theorem count_debug (debugv : Int) :
    (ascii "B2=" ++ printfPrecision 1 debugv ++ [attributeDelimiter]).count attributeDelimiter =
      1 := by
  have hdigits : attributeDelimiter ∉ printfPrecision 1 debugv := by
    have hdecimal : ∀ n, attributeDelimiter ∉ decimals 1 n := fun n hmem ↦
      absurd (isDecimal_decimals 1 n _ hmem) (by decide)
    rw [printfPrecision]
    split
    · rw [List.mem_cons]
      exact not_or.2 ⟨by decide, hdecimal _⟩
    · exact hdecimal _
  have hascii : attributeDelimiter ∉ ascii "B2=" := by decide
  rw [List.count_append, List.count_append, List.count_eq_zero.2 hdigits,
    List.count_eq_zero.2 hascii]
  rfl

/-- The items of a connection string are kept if and only if they are as the parser expects. -/
theorem keepsEntries_iff {immediateConnectDefault dtclog last : Bool} {entries : List XaEntry} :
    KeepsEntries immediateConnectDefault dtclog last entries ↔ EntriesStand entries := by
  have hloop := xaLoop_join last entries ⟨[], immediateConnectDefault, -1⟩
  constructor
  · rintro ⟨info, hparse, hkept⟩
    cases hout : outcome entries ⟨[], immediateConnectDefault, -1⟩ with
    | none =>
      rw [hout] at hloop
      obtain ⟨stop, hstop⟩ := hloop
      rw [parseXaInfo, hstop] at hparse
      cases hparse
    | some info' =>
      rw [hout] at hloop
      have hstored := dsnstr_outcome hout
      rw [parseXaInfo, hloop] at hparse
      cases dtclog with
      | true =>
        cases hparse
        obtain ⟨debugv, -, hdsn⟩ := hkept
        rw [show info'.dsnstr = storedAll entries from hstored] at hdsn
        exact stand_of_stored_eq (by rw [count_debug, count_debug]) hdsn
          (Option.isSome_of_eq_some hout)
      | false =>
        cases hparse
        have hdsn : storedAll entries ++ [] = XaEntry.kept entries ++ [] := by
          rw [List.append_nil, List.append_nil]
          exact hstored.symm.trans hkept
        exact stand_of_stored_eq rfl hdsn (Option.isSome_of_eq_some hout)
  · intro h
    obtain ⟨hsome, hkept⟩ := stored_of_stand h ⟨[], immediateConnectDefault, -1⟩
    obtain ⟨info', hout⟩ := Option.isSome_iff_exists.1 hsome
    rw [hout] at hloop
    have hstored := dsnstr_outcome hout
    rw [hkept] at hstored
    rw [KeepsEntries, parseXaInfo, hloop]
    cases dtclog with
    | true =>
      refine ⟨_, rfl, if info'.debugv ≤ 0 then 1 else info'.debugv, by split <;> omega, ?_⟩
      exact congrArg (· ++ _) hstored
    | false => exact ⟨_, rfl, hstored⟩

end PsqlOdbc.Xa
