import PsqlOdbc.DescRec

/-!
# No record makes the round trip

`PGAPI_SetDescRec` succeeds and leaves the other records alone.  But it stores the addresses of most of
its arguments, and the length is read into the lower half of a variable
(`Descriptor.not_roundTrips`).
-/

namespace PsqlOdbc

/-- The fields that only the descriptors of applications have. -/
def DescField.isPointer : DescField → Bool
  | .dataPtr | .octetLengthPtr | .indicatorPtr => true
  | _ => false

theorem ParameterImpl.setField_isSome (impl : ParameterImpl) {field : DescField}
    (hfield : field.isPointer = false) (value : UInt64) :
    ∃ impl', impl.setField field value = some impl' := by
  cases field with
  | dataPtr | octetLengthPtr | indicatorPtr => cases hfield
  | type | datetimeIntervalCode | conciseType | octetLength | precision | scale => exact ⟨_, rfl⟩

/-- A list of records that is long enough, with one of them replaced. -/
theorem getElem?_set_append {α : Type} {records extra : List α} {i k : ℕ} (x : α)
    (hk : k < records.length) (hne : i ≠ k) :
    ((records ++ extra).set i x)[k]? = records[k]? := by
  rw [List.getElem?_set_ne hne, List.getElem?_append_left hk]

namespace Descriptor

variable {desc desc' : Descriptor} {recNumber : ℕ}

/-! ## Setting a record -/

/-- What setting the fields of one record leaves of the others. -/
structure Keeps (recNumber : ℕ) (desc desc' : Descriptor) : Prop where
  isApp : desc'.isApp = desc.isApp
  allocated : desc.allocated ≤ desc'.allocated
  other : ∀ other field, 0 < other → other ≤ desc.allocated → other ≠ recNumber →
    desc'.getDescField other field = desc.getDescField other field

theorem Keeps.refl (recNumber : ℕ) (desc : Descriptor) : Keeps recNumber desc desc :=
  ⟨rfl, le_rfl, fun _ _ _ _ _ ↦ rfl⟩

theorem Keeps.trans {desc'' : Descriptor} (h : Keeps recNumber desc desc')
    (h' : Keeps recNumber desc' desc'') : Keeps recNumber desc desc'' where
  isApp := h'.isApp.trans h.isApp
  allocated := h.allocated.trans h'.allocated
  other other field hpos hle hne :=
    (h'.other other field hpos (hle.trans h.allocated) hne).trans (h.other other field hpos hle hne)

/-- The records of a descriptor with room for one of a number. -/
theorem extend_cases {α : Type} {records : List α} {extra : List α} (hpos : 0 < recNumber)
    (hle : recNumber ≤ (records ++ extra).length) :
    ∃ x, (records ++ extra)[recNumber - 1]? = some x ∧
      ∀ y, recNumber ≤ ((records ++ extra).set (recNumber - 1) y).length ∧
        records.length ≤ ((records ++ extra).set (recNumber - 1) y).length ∧
        ∀ other, 0 < other → other ≤ records.length → other ≠ recNumber →
          ((records ++ extra).set (recNumber - 1) y)[other - 1]? = records[other - 1]? := by
  refine ⟨_, List.getElem?_eq_getElem (by omega), fun y ↦ ⟨?_, ?_, fun other hother hlen hne ↦ ?_⟩⟩
  · rw [List.length_set]
    exact hle
  · rw [List.length_set, List.length_append]
    omega
  · exact getElem?_set_append y (by omega) (by omega)

/-- Every field can be set that the descriptor has, and `SQL_DESC_TYPE` even beyond the records. -/
theorem setDescField_success (mem : ℕ → BindInfo) (hpos : 0 < recNumber) {field : DescField}
    (hfield : field.isPointer = true → desc.isApp = true)
    (hroom : field.extends = true ∨ recNumber ≤ desc.allocated) (value : UInt64) :
    ∃ desc', desc.setDescField mem recNumber field value = (desc', .success) ∧
      recNumber ≤ desc'.allocated ∧ Keeps recNumber desc desc' := by
  cases desc with
  | ard bookmark bindings =>
    obtain ⟨extra, hextra, hle⟩ : ∃ extra,
        (if field.extends = true then extendColumnBindings mem bindings recNumber else bindings) =
          bindings ++ extra ∧ recNumber ≤ (bindings ++ extra).length := by
      split_ifs with hext
      · refine ⟨_, rfl, ?_⟩
        rw [List.length_append, List.length_map, List.length_range]
        omega
      · refine ⟨[], (List.append_nil _).symm, ?_⟩
        rw [List.append_nil]
        exact hroom.resolve_left hext
    obtain ⟨info, hinfo, hset⟩ := extend_cases hpos hle
    obtain ⟨hle', hlen, hother⟩ := hset (info.setField (fun value ↦ value.toInt64) field value)
    rw [setDescField, hextra, hinfo]
    refine ⟨_, rfl, hle', rfl, hlen, fun other field' ho hl hne ↦ ?_⟩
    rw [getDescField, hother other ho hl hne]
    rfl
  | apd parameters =>
    have hle : recNumber ≤ (parameters ++ List.replicate (recNumber - parameters.length)
        (⟨0, 0, 0, 0, 0, 0, 0⟩ : BindInfo)).length := by
      rw [List.length_append, List.length_replicate]
      omega
    obtain ⟨info, hinfo, hset⟩ := extend_cases hpos hle
    obtain ⟨hle', hlen, hother⟩ := hset
      (info.setField (fun value ↦ value.toUInt32.toInt32.toInt64) field value)
    rw [setDescField, extendParameterBindings, hinfo]
    refine ⟨_, rfl, hle', rfl, hlen, fun other field' ho hl hne ↦ ?_⟩
    rw [getDescField, hother other ho hl hne]
    rfl
  | ipd parameters =>
    obtain ⟨extra, hextra, hle⟩ : ∃ extra,
        (if field.extends = true then
          extendParameterBindings ParameterImpl.reset parameters recNumber else parameters) =
          parameters ++ extra ∧ recNumber ≤ (parameters ++ extra).length := by
      split_ifs with hext
      · refine ⟨_, rfl, ?_⟩
        rw [List.length_append, List.length_replicate]
        omega
      · refine ⟨[], (List.append_nil _).symm, ?_⟩
        rw [List.append_nil]
        exact hroom.resolve_left hext
    have hnot : field.isPointer = false := by
      by_contra hpointer
      have happ := hfield (by simpa using hpointer)
      cases happ
    obtain ⟨impl, himpl, hset⟩ := extend_cases hpos hle
    obtain ⟨impl', hsome⟩ := impl.setField_isSome hnot value
    obtain ⟨hle', hlen, hother⟩ := hset impl'
    rw [setDescField, hextra, himpl]
    dsimp only
    rw [hsome]
    refine ⟨_, rfl, hle', rfl, hlen, fun other field' ho hl hne ↦ ?_⟩
    rw [getDescField, hother other ho hl hne]
    rfl

/-- The calls one after the other. -/
theorem setDescFields_success (mem : ℕ → BindInfo) (hpos : 0 < recNumber)
    {calls : List (DescField × UInt64)} (hle : recNumber ≤ desc.allocated)
    (hcalls : ∀ call ∈ calls, call.1.isPointer = true → desc.isApp = true) :
    ∃ desc', desc.setDescFields mem recNumber calls = (desc', .success) ∧
      recNumber ≤ desc'.allocated ∧ Keeps recNumber desc desc' := by
  induction calls generalizing desc with
  | nil => exact ⟨desc, rfl, hle, .refl _ _⟩
  | cons call calls ih =>
    obtain ⟨next, hnext, hle', hkeeps⟩ := setDescField_success mem hpos
      (hcalls call List.mem_cons_self) (.inr hle) call.2
    obtain ⟨last, hlast, hle'', hkeeps'⟩ := ih hle' fun call' hmem ↦ by
      rw [hkeeps.isApp]
      exact hcalls call' (List.mem_cons_of_mem _ hmem)
    refine ⟨last, ?_, hle'', hkeeps.trans hkeeps'⟩
    rw [setDescFields, hnext]
    exact hlast

/-- Pointers are only set where there are pointers. -/
theorem isPointer_calls (frame : DescRecFrame) (isApp : Bool) (args : DescRecArgs) :
    ∀ call ∈ frame.calls isApp args, call.1.isPointer = true → isApp = true := by
  intro call hmem hpointer
  cases isApp with
  | true => rfl
  | false =>
    exfalso
    rw [DescRecFrame.calls, if_neg Bool.false_ne_true, List.append_nil] at hmem
    rcases List.mem_append.1 hmem with hmem | hmem
    · rcases List.mem_append.1 hmem with hmem | hmem
      · rw [List.mem_singleton.1 hmem] at hpointer
        cases hpointer
      · split_ifs at hmem
        · rw [List.mem_singleton.1 hmem] at hpointer
          cases hpointer
        · cases hmem
    · have hnot : ∀ call ∈ ([(.octetLength, frame.length), (.precision, frame.precision),
          (.scale, frame.scale)] : List (DescField × UInt64)), call.1.isPointer = false := by
        rintro call hcall
        simp only [List.mem_cons, List.not_mem_nil, or_false] at hcall
        rcases hcall with rfl | rfl | rfl <;> rfl
      rw [hnot call hmem] at hpointer
      cases hpointer

/-- `PGAPI_SetDescRec` succeeds, and the other records stay as they are. -/
theorem setDescRec_success (mem : ℕ → BindInfo) (frame : DescRecFrame) (desc : Descriptor)
    (hpos : 0 < recNumber) (args : DescRecArgs) :
    ∃ desc', desc.setDescRec mem frame recNumber args = (desc', .success) ∧
      recNumber ≤ desc'.allocated ∧ Keeps recNumber desc desc' := by
  have hpointer := isPointer_calls frame desc.isApp args
  obtain ⟨rest, hrest⟩ : ∃ rest, frame.calls desc.isApp args = (.type, frame.type) :: rest :=
    ⟨_, rfl⟩
  rw [hrest] at hpointer
  obtain ⟨next, hnext, hle, hkeeps⟩ := @setDescField_success desc recNumber mem hpos .type nofun
    (.inl rfl) frame.type
  obtain ⟨last, hlast, hle', hkeeps'⟩ := setDescFields_success mem hpos hle fun call hmem ↦ by
    rw [hkeeps.isApp]
    exact hpointer call (List.mem_cons_of_mem _ hmem)
  refine ⟨last, ?_, hle', hkeeps.trans hkeeps'⟩
  rw [setDescRec, hrest, setDescFields, hnext]
  exact hlast

/-! ## Reading the length -/

/-- Four bytes of a length are read. -/
theorem getDescField_octetLength (hpos : 0 < recNumber) (hle : recNumber ≤ desc.allocated) :
    ∃ ival, desc.getDescField recNumber .octetLength = (.success, some (.integer ival)) := by
  cases desc with
  | ard bookmark bindings =>
    have hlt : recNumber - 1 < bindings.length := Nat.lt_of_lt_of_le (Nat.sub_lt hpos one_pos) hle
    rw [getDescField, List.getElem?_eq_getElem hlt]
    exact ⟨_, rfl⟩
  | apd parameters =>
    have hlt : recNumber - 1 < parameters.length := Nat.lt_of_lt_of_le (Nat.sub_lt hpos one_pos) hle
    rw [getDescField, List.getElem?_eq_getElem hlt]
    exact ⟨_, rfl⟩
  | ipd parameters =>
    have hlt : recNumber - 1 < parameters.length := Nat.lt_of_lt_of_le (Nat.sub_lt hpos one_pos) hle
    rw [getDescField, List.getElem?_eq_getElem hlt]
    exact ⟨0, rfl⟩

/-- The upper half of the length is what has been in the variable. -/
theorem getDescRec_length (hpos : 0 < recNumber) (hle : recNumber ≤ desc.allocated) :
    ∃ ival : Int32, ∀ len : Int64,
      desc.getDescRec ⟨0, 0, len, 0, 0⟩ recNumber ⟨false, false, true, false, false⟩ =
        some (.ok { length := some ((DescValue.integer ival).storeLen len) }) := by
  obtain ⟨ival, hival⟩ := getDescField_octetLength hpos hle
  refine ⟨ival, fun len ↦ ?_⟩
  simp only [getDescRec, Bool.false_and, Bool.false_eq_true, if_false, if_true, Option.bind_some,
    hival]

/-- So two contents of the variable give two lengths. -/
theorem storeLen_ne (ival : Int32) : (DescValue.integer ival).storeLen 0 ≠
    (DescValue.integer ival).storeLen (2 ^ 32) := by
  have hlt : ival.toUInt32.toNat < 2 ^ 32 := ival.toUInt32.toNat_lt
  have hstore : ∀ len : Int64, len.toUInt64.toNat < 2 ^ 33 →
      ((DescValue.integer ival).storeLen len).toUInt64.toNat =
        len.toUInt64.toNat / 2 ^ 32 * 2 ^ 32 + ival.toUInt32.toNat := by
    intro len hlen
    rw [DescValue.storeLen, UInt64.toUInt64_toInt64, UInt64.toNat_ofNat']
    omega
  intro heq
  have hzero := hstore 0 (by decide)
  rw [heq, hstore (2 ^ 32) (by decide)] at hzero
  have hone : (2 ^ 32 : Int64).toUInt64.toNat = 2 ^ 32 := by decide
  have hnone : (0 : Int64).toUInt64.toNat = 0 := by decide
  omega

/-- No record makes the round trip. -/
theorem not_roundTrips (desc : Descriptor) (frame : DescRecFrame) (hpos : 0 < recNumber)
    (args : DescRecArgs) : ¬desc.RoundTrips frame recNumber args := by
  intro hround
  obtain ⟨desc', hset, hle, -⟩ := setDescRec_success (fun _ ↦ ⟨0, 0, 0, 0, 0, 0, 0⟩) frame desc hpos
    args
  obtain ⟨-, hget, -⟩ := hround _ desc' hset
  obtain ⟨ival, hlength⟩ := getDescRec_length hpos hle
  have htells : ∀ len, (DescValue.integer ival).storeLen len = args.length := by
    intro len
    obtain ⟨reply, hreply, htells⟩ := hget ⟨0, 0, len, 0, 0⟩ ⟨false, false, true, false, false⟩
    rw [hlength] at hreply
    have hstored := htells.length rfl
    rw [← Except.ok.inj (Option.some.inj hreply)] at hstored
    exact Option.some.inj hstored
  exact storeLen_ne ival ((htells 0).trans (htells (2 ^ 32)).symm)

/-- Addresses as they may be on a stack. -/
def stackFrame : DescRecFrame :=
  ⟨0x7ffc00000010, 0x7ffc00000014, 0x7ffc00000018, 0x7ffc00000020, 0x7ffc00000024, 0x7ffc00000028⟩

theorem not_roundTrips_parameter :
    ¬(ipd []).RoundTrips stackFrame 1 ⟨2, 0, 0, 10, 2, 0, 0, 0⟩ :=
  not_roundTrips _ _ (by decide) _

/-- The type `SQL_C_LONG` is read as the lower half of an address. -/
theorem not_roundTrips_long : ¬∀ (desc : Descriptor) (frame : DescRecFrame) (recNumber : ℕ),
    0 < recNumber → ∀ args, desc.RoundTrips frame recNumber args := by
  intro hall
  obtain ⟨hfields, -⟩ := hall (ard none []) stackFrame 1 (by decide)
    ⟨4, 0, 4, 0, 0, 0x1000, 0, 0⟩ (fun _ ↦ ⟨0, 0, 0, 0, 0, 0, 0⟩) _ rfl
  obtain ⟨value, hvalue, htype⟩ := hfields .type 4 (by decide)
  have hread := Option.some.inj (Prod.mk.inj hvalue).2
  rw [← hread] at htype
  exact absurd htype (by decide)

end Descriptor

end PsqlOdbc
