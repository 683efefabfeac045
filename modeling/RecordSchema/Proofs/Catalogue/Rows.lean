import RecordSchema.Catalogue
import RecordSchema.Proofs.Text.Lines

/-! Catalogues in the host's layout, row by row. Rows that belong together make one entry, whatever
blank rows stand around them and whichever way the rows end. -/

namespace RecordSchema.Catalogue
open Text (isBlank withoutReturn)

/-! ## Entries of several rows -/

/-- A row of an entry. It holds no line feed and does not end in a carriage return. -/
structure IsRow (row : String) : Prop where
  shown : isBlank row = false
  feedless : '\n' ∉ row.toList
  returnless : row.toList.getLast? ≠ some '\r'

inductive Paragraph : List String → Prop
  | rows {first : String} {others : List String} : IsRow first → continues first = false →
      (∀ row ∈ others, IsRow row ∧ continues row = true) → Paragraph (first :: others)

/-- Entries row by row, with blank rows in any place but within an entry. -/
inductive Arranged : List String → List String → Prop
  | nil : Arranged [] []
  | blank {row : String} {entries rows : List String} : isBlank row = true → '\n' ∉ row.toList →
      Arranged entries rows → Arranged entries (row :: rows)
  | entry {lines entries rows : List String} : Paragraph lines → Arranged entries rows →
      Arranged ("\n".intercalate lines :: entries) (lines ++ rows)

theorem Paragraph.isRow {lines : List String} (h : Paragraph lines) : ∀ row ∈ lines, IsRow row := by
  cases h with
  | rows hfirst _ hothers =>
      exact List.forall_mem_cons.mpr ⟨hfirst, fun row hr => (hothers row hr).1⟩

/-! ## Splitting rows into entries -/

variable {splitting : Splitting} {row : String} {entries rows lines : List String}

theorem addLine_blank (h : isBlank row = true) : addLine splitting row = ⟨splitting.close, none⟩ :=
  if_pos h

theorem addLine_first (h : isBlank row = false) (hc : continues row = false) :
    addLine splitting row = ⟨splitting.close, some row⟩ := by
  obtain ⟨closed, current⟩ := splitting
  rw [addLine.eq_def, if_neg (Bool.eq_false_iff.mp h)]
  cases current with
  | none => rfl
  | some entry => exact if_neg (Bool.eq_false_iff.mp hc)

theorem foldl_addLine_others {others : List String}
    (h : ∀ row ∈ others, IsRow row ∧ continues row = true) (closed : Array String) (entry : String) :
    others.foldl addLine ⟨closed, some entry⟩ =
      ⟨closed, some ("\n".intercalate (entry :: others))⟩ := by
  induction others generalizing entry with
  | nil => rw [List.foldl_nil, String.intercalate_singleton]
  | cons row others ih =>
      obtain ⟨⟨hrow, hcontinues⟩, hothers⟩ := List.forall_mem_cons.mp h
      have hadd : addLine ⟨closed, some entry⟩ row = ⟨closed, some (entry ++ "\n" ++ row)⟩ := by
        rw [addLine, if_neg (Bool.eq_false_iff.mp hrow.shown)]
        exact if_pos hcontinues
      rw [List.foldl_cons, hadd, ih hothers, String.intercalate_cons_append,
        String.intercalate_cons_cons]

theorem Paragraph.foldl_addLine (h : Paragraph lines) (splitting : Splitting) :
    lines.foldl addLine splitting = ⟨splitting.close, some ("\n".intercalate lines)⟩ := by
  cases h with
  | rows hfirst hopens hothers =>
      rw [List.foldl_cons, addLine_first hfirst.shown hopens, foldl_addLine_others hothers]

/-- What is open when an entry begins is closed by it, so that nothing is lost between entries. -/
theorem Arranged.close_foldl (h : Arranged entries rows) (splitting : Splitting) :
    (rows.foldl addLine splitting).close.toList = splitting.close.toList ++ entries := by
  induction h generalizing splitting with
  | nil => rw [List.foldl_nil, List.append_nil]
  | blank hblank _ _ ih =>
      rw [List.foldl_cons, addLine_blank hblank, ih]
      rfl
  | entry hlines _ ih =>
      rw [List.foldl_append, hlines.foldl_addLine, ih]
      simp [Splitting.close]

/-! ## Rows with their ends -/

theorem Arranged.feedless (h : Arranged entries rows) : ∀ row ∈ rows, '\n' ∉ row.toList := by
  induction h with
  | nil => exact List.forall_mem_nil _
  | blank _ hrow _ ih => exact List.forall_mem_cons.mpr ⟨hrow, ih⟩
  | entry hlines _ ih =>
      exact List.forall_mem_append.mpr ⟨fun row hr => (hlines.isRow row hr).feedless, ih⟩

/-- Only blank rows have carriage returns to lose. -/
theorem Arranged.map_withoutReturn (h : Arranged entries rows) :
    Arranged entries (rows.map withoutReturn) := by
  induction h with
  | nil => exact .nil
  | blank hblank hrow _ ih =>
      exact .blank (Text.isBlank_withoutReturn hblank) (mt Text.mem_of_mem_withoutReturn hrow) ih
  | @entry lines entries rows hlines _ ih =>
      have hkept : lines.map withoutReturn = lines :=
        (List.map_congr_left fun row hr =>
          Text.withoutReturn_of_getLast? (hlines.isRow row hr).returnless).trans (List.map_id lines)
      rw [List.map_append, hkept]
      exact .entry hlines ih

theorem parse_join (h : ∀ row ∈ rows, '\n' ∉ row.toList)
    (ha : Arranged entries (rows.map withoutReturn)) :
    parse (String.join (rows.map (· ++ "\n"))) = .ofEntries entries := by
  have hclose := ha.close_foldl .empty
  rw [parse, Text.lines_join h, hclose]
  rfl

/-- The rows of a text are found again if all of them end in the same way. -/
theorem Arranged.parse (h : Arranged entries rows) {ending : String}
    (he : ending = "\n" ∨ ending = "\r\n") :
    Catalogue.parse (String.join (rows.map (· ++ ending))) = .ofEntries entries := by
  rcases he with rfl | rfl
  · exact parse_join h.feedless h.map_withoutReturn
  · have hreturn : rows.map (· ++ "\r\n") = (rows.map (· ++ "\r")).map (· ++ "\n") := by
      have hsplit : "\r\n" = "\r" ++ "\n" := rfl
      rw [List.map_map]
      refine List.map_congr_left fun row _ => ?_
      rw [Function.comp_apply, hsplit, String.append_assoc]
    have hkept : (rows.map (· ++ "\r")).map withoutReturn = rows := by
      rw [List.map_map]
      exact List.map_id'' (fun row => Text.withoutReturn_append row) rows
    rw [hreturn]
    refine parse_join ?_ (hkept.symm ▸ h)
    intro row hr
    obtain ⟨bare, hb, rfl⟩ := List.mem_map.mp hr
    rw [String.toList_append, List.mem_append, not_or]
    exact ⟨h.feedless bare hb, by decide⟩

end RecordSchema.Catalogue
