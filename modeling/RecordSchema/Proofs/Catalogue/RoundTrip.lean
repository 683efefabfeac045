import RecordSchema.Proofs.Catalogue.Rows
import RecordSchema.Proofs.Catalogue.Source
import RecordSchema.Proofs.Compiler.Fresh
import RecordSchema.Proofs.Description.Layout
import RecordSchema.Proofs.Json.Strings

/-! Catalogues that descriptors are printed to, as text in the host's layout or as a JSON array.
Either way they load as the same entries, and these compile to the descriptors and nothing else
(`printed_round_trip`). -/

namespace RecordSchema.Catalogue
open Description (BodyText IsBlanks IsGap IsSeparator Layout TypeWord Writable WritableField)
open Lexer (IsSpaces IsWord isWordChar)
open Text (isBlank isWhiteSpace)

/-! ## Printing -/

/-- A row for each field, with a space before its type. -/
inductive FieldRows : List Field → List String → Prop
  | nil : FieldRows [] []
  | field {field : Field} {fields : List Field} {word : String} {rows : List String} :
      TypeWord field word → FieldRows fields rows →
      FieldRows (field :: fields) ((" " ++ word ++ " " ++ field.name ++ ";") :: rows)

/-- The rows of one descriptor, from its name to its closing brace. -/
inductive HostRows : Descriptor → List String → Prop
  | struct {name : String} {fields : List Field} {rows : List String} : FieldRows fields rows →
      HostRows ⟨name, fields⟩ (("struct " ++ name ++ " \x7b") :: (rows ++ ["\x7d"]))

/-- Descriptors, the text of each, and the rows of a catalogue that has any number of blank rows
around these texts. -/
inductive Printed : List Descriptor → List String → List String → Prop
  | nil : Printed [] [] []
  | blank {row : String} {ds : List Descriptor} {entries rows : List String} :
      isBlank row = true → '\n' ∉ row.toList → Printed ds entries rows →
      Printed ds entries (row :: rows)
  | entry {d : Descriptor} {ds : List Descriptor} {lines entries rows : List String} :
      HostRows d lines → Printed ds entries rows →
      Printed (d :: ds) ("\n".intercalate lines :: entries) (lines ++ rows)

theorem exists_fieldRows {fields : List Field} (h : ∀ field ∈ fields, WritableField field) :
    ∃ rows, FieldRows fields rows := by
  induction fields with
  | nil => exact ⟨[], .nil⟩
  | cons field fields ih =>
      obtain ⟨hfield, hfields⟩ := List.forall_mem_cons.mp h
      obtain ⟨rows, hrows⟩ := ih hfields
      exact ⟨_, .field hfield.typeWord hrows⟩

/-- Whatever can be written at all can be printed. -/
theorem exists_printed {ds : List Descriptor} (h : ∀ d ∈ ds, Writable d) :
    ∃ entries rows, Printed ds entries rows := by
  induction ds with
  | nil => exact ⟨[], [], .nil⟩
  | cons d ds ih =>
      obtain ⟨hd, hds⟩ := List.forall_mem_cons.mp h
      obtain ⟨entries, rows, hprinted⟩ := ih hds
      obtain ⟨lines, hlines⟩ := exists_fieldRows hd.fields
      exact ⟨_, _, .entry (.struct hlines) hprinted⟩

/-! ## Printed entries compile -/

/-- The end of a row, with the indent of the next one, belongs to the separator behind a field. -/
theorem FieldRows.body {fields : List Field} {rows : List String} (h : FieldRows fields rows) :
    ∃ gap body, "\n".intercalate (rows ++ ["\x7d"]) = gap ++ body ++ "\x7d" ∧ IsGap gap ∧
      BodyText fields body := by
  induction h with
  | nil => exact ⟨"", "", rfl, by decide, .nil⟩
  | @field field fields word rows hword _ ih =>
      obtain ⟨gap, body, htext, hgap, hbody⟩ := ih
      have hspaces : IsSpaces " " := by decide
      have hends : IsSeparator (";\n" ++ gap) :=
        Description.IsSeparator.append ⟨by decide, .inl rfl⟩ hgap
      refine ⟨" ", _, ?_, by decide, .field hword hspaces hends hbody⟩
      have hne : rows ++ ["\x7d"] ≠ [] := by simp
      have hsemicolon : ";\n" = ";" ++ "\n" := rfl
      rw [List.cons_append, String.intercalate_cons_of_ne_nil hne, htext]
      simp only [hsemicolon, String.append_assoc]

theorem HostRows.layout {d : Descriptor} {lines : List String} (h : HostRows d lines) :
    Layout d ("\n".intercalate lines) := by
  cases h with
  | @struct name fields rows hrows =>
      obtain ⟨gap, body, htext, hgap, hbody⟩ := hrows.body
      have hspaces : IsSpaces " " := by decide
      have hblanks : IsBlanks " " := ⟨rfl, by decide⟩
      have hopening : IsGap ("\n" ++ gap) := Description.IsGap.append (by decide) hgap
      have hrows : "\n".intercalate (("struct " ++ name ++ " \x7b") :: (rows ++ ["\x7d"])) =
          "struct" ++ " " ++ name ++ " " ++ "\x7b" ++ ("\n" ++ gap) ++ body ++ "\x7d" ++ "" := by
        have hne : rows ++ ["\x7d"] ≠ [] := by simp
        have hstruct : "struct " = "struct" ++ " " := rfl
        have hbrace : " \x7b" = " " ++ "\x7b" := rfl
        rw [String.intercalate_cons_of_ne_nil hne, htext, hstruct, hbrace]
        simp only [String.append_assoc, String.append_empty]
      rw [hrows]
      exact .struct hspaces hblanks hopening hbody (by decide)

theorem HostRows.parse {d : Descriptor} {lines : List String} (h : HostRows d lines)
    (hd : Writable d) : Description.parse ("\n".intercalate lines) = .ok (some d) := by
  obtain ⟨tokens, ht, -, hdescribes⟩ := h.layout.tokens hd
  rw [Description.parse, ht, ok_bind]
  exact Description.ofTokens_eq_some_iff.mpr hdescribes

theorem Printed.parse {ds : List Descriptor} {entries rows : List String}
    (h : Printed ds entries rows) (hw : ∀ d ∈ ds, Writable d) :
    entries.map Description.parse = ds.map (.ok <| some ·) := by
  induction h with
  | nil => rfl
  | blank _ _ _ ih => exact ih hw
  | entry hlines _ ih =>
      obtain ⟨hd, hds⟩ := List.forall_mem_cons.mp hw
      rw [List.map_cons, List.map_cons, hlines.parse hd, ih hds]

/-! ## Printed rows are found again -/

/-- Text within a row. -/
def IsInline (text : String) : Prop := ∀ c ∈ text.toList, c ≠ '\n' ∧ c ≠ '\r'

instance : DecidablePred IsInline := fun text =>
  inferInstanceAs (Decidable (∀ c ∈ text.toList, c ≠ '\n' ∧ c ≠ '\r'))

theorem IsInline.append {front back : String} (hf : IsInline front) (hb : IsInline back) :
    IsInline (front ++ back) := by
  unfold IsInline
  rw [String.toList_append]
  exact List.forall_mem_append.mpr ⟨hf, hb⟩

theorem isInline_word {word : String} (h : IsWord word) : IsInline word := by
  intro c hc
  have hchar := h.2 c hc
  constructor <;>
  · rintro rfl
    revert hchar
    decide

theorem IsInline.isRow {row : String} (h : IsInline row) {c : Char} (hc : c ∈ row.toList)
    (hs : isWhiteSpace c = false) : IsRow row where
  shown := by
    rw [← Bool.not_eq_true, Text.isBlank_iff]
    intro hall
    exact absurd (hall c hc) (Bool.eq_false_iff.mp hs)
  feedless := fun hm => (h _ hm).1 rfl
  returnless := fun hl => (h _ (List.mem_of_getLast? hl)).2 rfl

theorem continues_eq (row : String) :
    continues row = row.toList.head?.any fun c => c == ' ' || c == '\t' || c == '\x7d' :=
  String.startsWith_bool_eq_head?

theorem FieldRows.isRow {fields : List Field} {rows : List String} (h : FieldRows fields rows)
    (hw : ∀ field ∈ fields, WritableField field) :
    ∀ row ∈ rows, IsRow row ∧ continues row = true := by
  induction h with
  | nil => exact List.forall_mem_nil _
  | @field field fields word rows hword _ ih =>
      obtain ⟨hfield, hfields⟩ := List.forall_mem_cons.mp hw
      have hinline : IsInline (" " ++ word ++ " " ++ field.name ++ ";") :=
        (((IsInline.append (by decide) (isInline_word (hfield.isWord_type hword))).append
          (by decide)).append (isInline_word hfield.isWord_name)).append (by decide)
      have hsemicolon : ';' ∈ (" " ++ word ++ " " ++ field.name ++ ";").toList := by
        rw [String.toList_append]
        exact List.mem_append_right _ List.mem_cons_self
      refine List.forall_mem_cons.mpr ⟨⟨hinline.isRow hsemicolon rfl, ?_⟩, ih hfields⟩
      rw [continues_eq]
      simp only [String.toList_append]
      rfl

theorem HostRows.paragraph {d : Descriptor} {lines : List String} (h : HostRows d lines)
    (hd : Writable d) : Paragraph lines := by
  cases h with
  | @struct name fields rows hrows =>
      have hinline : IsInline ("struct " ++ name ++ " \x7b") :=
        (IsInline.append (by decide) (isInline_word hd.name)).append (by decide)
      have hopens : ("struct " ++ name ++ " \x7b").toList.head? = some 's' := by
        simp only [String.toList_append]
        rfl
      have hclose : IsRow "\x7d" := IsInline.isRow (c := '\x7d') (by decide) (by decide) rfl
      refine .rows (hinline.isRow (List.mem_of_mem_head? hopens) rfl) ?_ ?_
      · rw [continues_eq, hopens]
        rfl
      · refine List.forall_mem_append.mpr ⟨hrows.isRow hd.fields, ?_⟩
        rw [List.forall_mem_singleton]
        exact ⟨hclose, continues_eq _⟩

theorem Printed.arranged {ds : List Descriptor} {entries rows : List String}
    (h : Printed ds entries rows) (hw : ∀ d ∈ ds, Writable d) : Arranged entries rows := by
  induction h with
  | nil => exact .nil
  | blank hblank hrow _ ih => exact .blank hblank hrow (ih hw)
  | entry hlines _ ih =>
      obtain ⟨hd, hds⟩ := List.forall_mem_cons.mp hw
      exact .entry (hlines.paragraph hd) (ih hds)

/-- The first thing to be seen in a printed catalogue is the word `struct`. -/
theorem Printed.opens {ds : List Descriptor} {entries rows : List String}
    (h : Printed ds entries rows) {ending : String} (he : isBlank ending = true) :
    (String.join (rows.map (· ++ ending))).toList.find? (!isWhiteSpace ·) ≠ some '[' := by
  induction h with
  | nil => nofun
  | @blank row ds entries rows hblank _ _ ih =>
      have hnone : (row ++ ending).toList.find? (!isWhiteSpace ·) = none := by
        rw [List.find?_eq_none, String.toList_append, List.forall_mem_append]
        rw [Text.isBlank_iff] at hblank he
        exact ⟨fun c hc => by simp [hblank c hc], fun c hc => by simp [he c hc]⟩
      rw [List.map_cons, String.join_cons, String.toList_append, List.find?_append, hnone,
        Option.none_or]
      exact ih
  | @entry d ds lines entries rows hlines _ _ =>
      cases hlines with
      | struct _ =>
          simp only [List.cons_append, List.map_cons, String.join_cons, String.toList_append]
          nofun

/-- A catalogue that descriptors are printed to loads as their texts, whether from rows or from a
JSON array, however that is read, and compiles to a registry of these descriptors and the host's. -/
theorem printed_round_trip {ds : List Descriptor} {entries rows : List String} {ending : String}
    (hw : ∀ d ∈ ds, Writable d) (hdistinct : (ds.map Descriptor.name).Nodup)
    (hhost : ∀ d ∈ ds, Host.isHostType d.name = false) (hp : Printed ds entries rows)
    (he : ending = "\n" ∨ ending = "\r\n") :
    (∀ read, ofBytesBy read (String.join (rows.map (· ++ ending))).toUTF8 =
      .ok (.ofEntries entries)) ∧
    (∀ (read : Json.TextReader (List String)) (bytes : ByteArray),
      firstMark? bytes 0 = some '['.toUInt8 → read bytes.toList = .ok entries →
      ofBytesBy read bytes = .ok (.ofEntries entries)) ∧
    (∀ bytes : ByteArray, Json.parseStrings bytes.toList = .ok entries →
      ofBytesBy Json.parseStrings bytes = .ok (.ofEntries entries)) ∧
    ofBytesBy Json.parseStrings (Json.compact (.array (entries.map .string))).toUTF8 =
      .ok (.ofEntries entries) ∧
    ∃ registry report, compileCatalogue {} entries = .ok (registry, report) ∧
      report = .allRegistered (ds.map Descriptor.name) ∧ report.isClean = true ∧
      registry.descriptors.Perm (Host.descriptors ++ ds) ∧ registry.Ordered := by
  have hblank : isBlank ending = true := by
    rcases he with rfl | rfl <;> exact Text.isBlank_iff.mpr (by decide)
  obtain ⟨registry, hrun, hperm, hordered⟩ := compileCatalogue_fresh (hp.parse hw) hhost hdistinct
  refine ⟨fun read => ?_, fun _ _ => ofBytesBy_bracket, fun _ => ofBytesBy_parseStrings,
    ofBytesBy_parseStrings (Json.parseStrings_compact entries), registry, _, hrun, rfl, rfl, hperm,
    hordered⟩
  rw [ofBytesBy_text (hp.opens hblank), (hp.arranged hw).parse he]

def addressBook : List Descriptor := [Description.contact, ⟨"Address", []⟩]

def addressEntries : List String :=
  ["struct Contact \x7b\n int Id;\n Address home;\n struct Tag;\n struct date;\n\x7d",
   "struct Address \x7b\n\x7d"]

def addressRows : List String :=
  ["", "struct Contact \x7b", " int Id;", " Address home;", " struct Tag;", " struct date;", "\x7d",
   " \t", "\r", "struct Address \x7b", "\x7d"]

theorem printed_addressBook : Printed addressBook addressEntries addressRows := by
  have contact : HostRows Description.contact ["struct Contact \x7b", " int Id;", " Address home;",
      " struct Tag;", " struct date;", "\x7d"] :=
    .struct (.field .scalar (.field (.target (by decide)) (.field .own (.field .own .nil))))
  have address : HostRows ⟨"Address", []⟩ ["struct Address \x7b", "\x7d"] := .struct .nil
  have last : Printed [⟨"Address", []⟩] ["struct Address \x7b\n\x7d"]
      ["struct Address \x7b", "\x7d"] := .entry address .nil
  have nothing : isBlank "" = true := Text.isBlank_iff.mpr (by decide)
  have tab : isBlank " \t" = true := Text.isBlank_iff.mpr (by decide)
  have stray : isBlank "\r" = true := Text.isBlank_iff.mpr (by decide)
  exact .blank nothing (by decide)
    (.entry contact (.blank tab (by decide) (.blank stray (by decide) last)))

theorem writable_addressBook : ∀ d ∈ addressBook, Writable d := by
  have address : Writable ⟨"Address", []⟩ := ⟨by decide, List.forall_mem_nil _, by decide⟩
  simp only [addressBook, List.forall_mem_cons]
  exact ⟨Description.writable_contact, address, List.forall_mem_nil _⟩

/-- Blank rows before and between the entries, one of them a stray carriage return. -/
theorem printed_round_trip_addressBook :
    Printed addressBook addressEntries addressRows ∧
    ofBytesBy Json.parseStrings (String.join (addressRows.map (· ++ "\r\n"))).toUTF8 =
      .ok (.ofEntries addressEntries) ∧
    ofBytesBy Json.parseStrings (Json.compact (.array (addressEntries.map .string))).toUTF8 =
      .ok (.ofEntries addressEntries) ∧
    ∃ registry report, compileCatalogue {} addressEntries = .ok (registry, report) ∧
      report = .allRegistered ["Contact", "Address"] ∧ report.isClean = true ∧
      registry.descriptors.Perm (Host.descriptors ++ addressBook) ∧ registry.Ordered := by
  have hhost : ∀ d ∈ addressBook, Host.isHostType d.name = false := by decide
  obtain ⟨htext, -, -, harray, hcompiled⟩ := printed_round_trip writable_addressBook (by decide)
    hhost printed_addressBook (.inr rfl)
  exact ⟨printed_addressBook, htext _, harray, hcompiled⟩

end RecordSchema.Catalogue
