import StripePruning.Delimited.Record
import StripePruning.Proofs.Text.Decoding

/-!
# Records that are read back

A record of plain fields can be written on one line with commas between its fields.
`Reader.foldl_step_lines` says that such lines are read as their records, and
`Sheet.ofBytes_lines` that they are the sheet of their header and their rows.
-/

namespace StripePruning

namespace Delimited

/-- A byte of ASCII that stands for itself in a field. -/
def IsPlain (byte : UInt8) : Prop :=
  byte < 128 ∧ byte ≠ comma ∧ byte ≠ quote ∧ isLineEndByte byte = false

instance : DecidablePred IsPlain :=
  fun byte => inferInstanceAs
    (Decidable (byte < 128 ∧ byte ≠ comma ∧ byte ≠ quote ∧ isLineEndByte byte = false))

/-- A field that needs no quotes. -/
structure PlainField (field : Field) : Prop where
  ne_nil : field ≠ []
  isPlain : ∀ byte ∈ field, IsPlain byte

/-- A record on a line. -/
def lineOf (record : Record) : List UInt8 :=
  [comma].intercalate record ++ [lineFeed]

variable {field next : Field} {record rest : Record} {byte : UInt8}

theorem lineOf_singleton (field : Field) : lineOf [field] = field ++ [lineFeed] := by
  rw [lineOf, List.intercalate_singleton]

theorem lineOf_cons (field next : Field) (rest : Record) :
    lineOf (field :: next :: rest) = field ++ comma :: lineOf (next :: rest) := by
  rw [lineOf, List.intercalate_cons_cons, List.append_assoc, List.append_assoc]
  rfl

/-! ## Reading -/

namespace Reader

variable {r : Reader}

theorem plain_of_isPlain (h : IsPlain byte) (r : Reader) :
    r.plain byte = r.keep .plainField byte := by
  obtain ⟨-, hcomma, -, hend⟩ := h
  rw [plain, if_neg hcomma, hend]
  rfl

theorem opening_of_isPlain (h : IsPlain byte) (r : Reader) :
    r.opening byte = r.keep .plainField byte := by
  rw [opening, if_neg h.2.2.1, plain_of_isPlain h]

theorem plain_comma (r : Reader) : r.plain comma = r.endField :=
  if_pos rfl

/-- The reader stands where a field may start. -/
def AtField (r : Reader) : Prop :=
  (r.place = .betweenRecords ∨ r.place = .fieldStart) ∧ r.field = []

theorem step_of_atField (hr : r.AtField) (h : IsPlain byte) :
    r.step byte = { r with place := .plainField, field := [byte] } := by
  have hopening : r.step byte = r.opening byte := by
    unfold step
    rcases hr.1 with hplace | hplace
    · rw [hplace]
      dsimp only
      rw [h.2.2.2]
      rfl
    · rw [hplace]
  rw [hopening, opening_of_isPlain h, keep, hr.2]

theorem foldl_step_plainField {bytes : List UInt8} (h : ∀ byte ∈ bytes, IsPlain byte)
    (hr : r.place = .plainField) :
    bytes.foldl step r = { r with field := bytes.reverse ++ r.field } := by
  induction bytes generalizing r with
  | nil => rfl
  | cons byte bytes ih =>
    have hstep : r.step byte = { r with field := byte :: r.field } := by
      unfold step
      rw [hr]
      dsimp only
      rw [plain_of_isPlain (h byte List.mem_cons_self), keep, ← hr]
    have hrest := ih (r := { r with field := byte :: r.field })
      (fun other hother => h other (List.mem_cons_of_mem byte hother)) hr
    rw [List.foldl_cons, hstep, hrest]
    simp

/-- A plain field is read up to its end. -/
theorem foldl_step_field (hfield : PlainField field) (hr : r.AtField) :
    field.foldl step r = { r with place := .plainField, field := field.reverse } := by
  cases field with
  | nil => exact absurd rfl hfield.ne_nil
  | cons byte bytes =>
    rw [List.foldl_cons, step_of_atField hr (hfield.isPlain byte List.mem_cons_self),
      foldl_step_plainField
        (fun other hother => hfield.isPlain other (List.mem_cons_of_mem byte hother)) rfl,
      List.reverse_cons]

/-- A line of plain fields goes on with the record and ends it. -/
theorem foldl_step_lineOf (hne : record ≠ []) (hrecord : ∀ field ∈ record, PlainField field)
    (hr : r.AtField) :
    (lineOf record).foldl step r
      = { records := r.records.push (r.fields.reverse ++ record) } := by
  induction record generalizing r with
  | nil => exact absurd rfl hne
  | cons field rest ih =>
    have hfield := hrecord field List.mem_cons_self
    cases rest with
    | nil =>
      rw [lineOf_singleton, List.foldl_append, foldl_step_field hfield hr]
      show endRecord _ = _
      simp [endRecord, endField]
    | cons next rest =>
      rw [lineOf_cons, List.foldl_append, foldl_step_field hfield hr, List.foldl_cons]
      have hnext : ∀ other ∈ next :: rest, PlainField other := fun other hother =>
        hrecord other (List.mem_cons_of_mem field hother)
      have hcomma : step { r with place := .plainField, field := field.reverse } comma
          = { r with place := .fieldStart, field := [], fields := field :: r.fields } := by
        show Reader.plain _ comma = _
        rw [plain_comma, endField, List.reverse_reverse]
      rw [hcomma, ih (List.cons_ne_nil next rest) hnext ⟨Or.inr rfl, rfl⟩]
      simp

/-- Lines of plain fields are read as their records. -/
theorem foldl_step_lines {records : List Record}
    (h : ∀ record ∈ records, record ≠ [] ∧ ∀ field ∈ record, PlainField field)
    (read : Array Record) :
    (records.flatMap lineOf).foldl step { records := read }
      = { records := read ++ records.toArray } := by
  induction records generalizing read with
  | nil => simp
  | cons record records ih =>
    obtain ⟨hne, hfields⟩ := h record List.mem_cons_self
    rw [List.flatMap_cons, List.foldl_append, foldl_step_lineOf hne hfields ⟨Or.inl rfl, rfl⟩,
      ih fun other hother => h other (List.mem_cons_of_mem record hother)]
    simp

end Reader

/-! ## Sheets -/

theorem dropMark_of_lt {bytes : List UInt8} (h : byte < 128) :
    dropMark (byte :: bytes) = byte :: bytes := by
  unfold dropMark
  split
  · rename_i heq
    rw [(List.cons.inj heq).1] at h
    exact absurd h (by decide)
  · rfl

/-- The lines of a header and of rows of plain fields are the sheet of them. -/
theorem Sheet.ofBytes_lines {header : Record} {rows : List Record}
    (h : ∀ record ∈ header :: rows, record ≠ [] ∧ ∀ field ∈ record, PlainField field) :
    Sheet.ofBytes ((header :: rows).flatMap lineOf) = { header, rows, isBlank := false } := by
  have hmark : dropMark ((header :: rows).flatMap lineOf) = (header :: rows).flatMap lineOf := by
    obtain ⟨hne, hfields⟩ := h header List.mem_cons_self
    obtain ⟨field, fields, rfl⟩ := List.exists_cons_of_ne_nil hne
    have hfield := hfields field List.mem_cons_self
    obtain ⟨byte, bytes, rfl⟩ := List.exists_cons_of_ne_nil hfield.ne_nil
    rw [List.flatMap_cons, lineOf, List.intercalate_cons_cons_left]
    exact dropMark_of_lt (hfield.isPlain byte List.mem_cons_self).1
  unfold Sheet.ofBytes
  rw [hmark]
  dsimp only
  rw [Reader.foldl_step_lines h, Reader.finish]
  simp

end Delimited

end StripePruning
