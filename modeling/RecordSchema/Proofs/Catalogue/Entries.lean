import RecordSchema.Proofs.Catalogue.Rows

/-! Which lines of a text its entries hold, and which of them begin an entry. No line that is not
blank is lost, whatever stands around it, and a line opens an entry if it does not continue one or
has none before it to continue (`parse_divides`). -/

namespace RecordSchema.Catalogue
open Text (isBlank lines withReturns)

/-! ## Entries as marked lines -/

def entryLines (entry : String) : List String := (entry.split '\n').toList.map (·.copy)

/-- The lines of an entry, each with whether it is the first one. -/
def markedLines (entry : String) : List (String × Bool) :=
  match entryLines entry with
  | [] => []
  | first :: others => (first, true) :: others.map (·, false)

/-- The lines that are not blank, each with whether it opens an entry. Behind a blank line every
line does. -/
def markedOpenings (afterBlank : Bool) : List String → List (String × Bool)
  | [] => []
  | line :: rest =>
      if isBlank line then markedOpenings true rest
      else (line, afterBlank || !continues line) :: markedOpenings false rest

/-- A line opens an entry if those before it hold exactly what is not blank of the lines before. -/
def OpensAt (entries lines : List String) (i : Nat) : Prop :=
  ∃ front entry back, entries = front ++ entry :: back ∧
    front.flatMap entryLines = (lines.take i).filter (!isBlank ·) ∧
    (entryLines entry).head? = lines[i]?

/-- What the entries of a text hold of its lines, and where they begin. -/
structure Divides (lines entries : List String) : Prop where
  held : entries.flatMap entryLines = lines.filter (!isBlank ·)
  nonempty : ∀ entry ∈ entries, entry ≠ ""
  opens : ∀ i line, lines[i]? = some line → isBlank line = false →
    (OpensAt entries lines i ↔ continues line = false ∨ i = 0 ∨
      ∃ before, lines[i - 1]? = some before ∧ isBlank before = true)

variable {line entry : String} {rest entries : List String}

theorem entryLines_eq (entry : String) :
    entryLines entry = (entry.toList.splitOn '\n').map String.ofList := Text.pieces_eq entry

theorem entryLines_ne_nil (entry : String) : entryLines entry ≠ [] := by
  rw [entryLines_eq]
  exact mt List.map_eq_nil_iff.mp (List.splitOn_ne_nil '\n' _)

theorem entryLines_line (h : '\n' ∉ line.toList) : entryLines line = [line] := by
  rw [entryLines_eq, List.splitOn_eq_singleton h, List.map_singleton, String.ofList_toList]

theorem entryLines_extended (entry : String) (h : '\n' ∉ line.toList) :
    entryLines (entry ++ "\n" ++ line) = entryLines entry ++ [line] := by
  have hfeed : (entry ++ "\n" ++ line).toList = entry.toList ++ '\n' :: line.toList := by simp
  rw [entryLines_eq, entryLines_eq, hfeed, List.splitOn_append_cons_self,
    List.splitOn_eq_singleton h, List.map_append, List.map_singleton, String.ofList_toList]

theorem map_fst_markedLines (entry : String) : (markedLines entry).map (·.1) = entryLines entry := by
  unfold markedLines
  cases entryLines entry with
  | nil => rfl
  | cons first others => simp [Function.comp_def]

theorem markedLines_line (h : '\n' ∉ line.toList) : markedLines line = [(line, true)] := by
  rw [markedLines, entryLines_line h]
  rfl

theorem markedLines_extended (entry : String) (h : '\n' ∉ line.toList) :
    markedLines (entry ++ "\n" ++ line) = markedLines entry ++ [(line, false)] := by
  obtain ⟨first, others, hentry⟩ := List.exists_cons_of_ne_nil (entryLines_ne_nil entry)
  simp [markedLines, entryLines_extended entry h, hentry]

theorem map_fst_flatMap_markedLines (entries : List String) :
    (entries.flatMap markedLines).map (·.1) = entries.flatMap entryLines := by
  simp only [List.map_flatMap, map_fst_markedLines]

theorem map_fst_markedOpenings (afterBlank : Bool) (lines : List String) :
    (markedOpenings afterBlank lines).map (·.1) = lines.filter (!isBlank ·) := by
  induction lines generalizing afterBlank with
  | nil => rfl
  | cons line rest ih =>
      rw [markedOpenings]
      cases h : isBlank line <;> simp [h, ih]

/-! ## Lines as they are split -/

/-- The marks of what is closed and of what is still open. -/
def Splitting.marks (splitting : Splitting) : List (String × Bool) :=
  splitting.close.toList.flatMap markedLines

theorem Splitting.marks_some (closed : Array String) (entry : String) :
    Splitting.marks ⟨closed, some entry⟩ = closed.toList.flatMap markedLines ++ markedLines entry := by
  simp [Splitting.marks, Splitting.close]

theorem marks_addLine_blank (splitting : Splitting) (h : isBlank line = true) :
    (addLine splitting line).marks = splitting.marks ∧
      (addLine splitting line).current.isNone = true := by
  rw [addLine_blank h]
  exact ⟨rfl, rfl⟩

/-- An open entry is extended or closed; without one the line opens an entry in any case. -/
theorem marks_addLine_shown (splitting : Splitting) (h : isBlank line = false)
    (hfeed : '\n' ∉ line.toList) :
    (addLine splitting line).marks =
        splitting.marks ++ [(line, splitting.current.isNone || !continues line)] ∧
      (addLine splitting line).current.isNone = false := by
  cases hc : continues line with
  | false =>
      rw [addLine_first h hc, Splitting.marks_some, markedLines_line hfeed, Bool.not_false,
        Bool.or_true]
      exact ⟨rfl, rfl⟩
  | true =>
      obtain ⟨closed, current⟩ := splitting
      rw [addLine.eq_def, if_neg (Bool.eq_false_iff.mp h)]
      cases current with
      | none =>
          rw [Splitting.marks_some, markedLines_line hfeed]
          exact ⟨rfl, rfl⟩
      | some entry =>
          simp only [if_pos hc, Splitting.marks_some, markedLines_extended entry hfeed]
          exact ⟨(List.append_assoc ..).symm, rfl⟩

/-- The marks grow by those of the lines; only whether an entry is open is carried along. -/
theorem marks_foldl_addLine (h : ∀ line ∈ rest, '\n' ∉ line.toList) (splitting : Splitting) :
    (rest.foldl addLine splitting).marks =
      splitting.marks ++ markedOpenings splitting.current.isNone rest := by
  induction rest generalizing splitting with
  | nil => exact (List.append_nil _).symm
  | cons line rest ih =>
      obtain ⟨hline, hrest⟩ := List.forall_mem_cons.mp h
      rw [List.foldl_cons, ih hrest, markedOpenings]
      cases hb : isBlank line with
      | true =>
          obtain ⟨hmarks, hopen⟩ := marks_addLine_blank splitting hb
          rw [hmarks, hopen, if_pos rfl]
      | false =>
          obtain ⟨hmarks, hopen⟩ := marks_addLine_shown splitting hb hline
          rw [hmarks, hopen, if_neg Bool.false_ne_true, List.append_assoc]
          rfl

theorem flatMap_markedLines_parse (text : String) :
    (parse text).entries.flatMap markedLines = markedOpenings true (lines text) :=
  marks_foldl_addLine (fun _ h => Text.not_mem_lines h) .empty

/-! ## Where entries begin -/

theorem markedOpenings_append (afterBlank : Bool) (front back : List String) :
    markedOpenings afterBlank (front ++ back) = markedOpenings afterBlank front ++
      markedOpenings ((front.getLast?.map isBlank).getD afterBlank) back := by
  induction front generalizing afterBlank with
  | nil => rfl
  | cons line front ih =>
      have hlast : ((line :: front).getLast?.map isBlank).getD afterBlank =
          (front.getLast?.map isBlank).getD (isBlank line) := by
        rw [List.getLast?_cons]
        cases front.getLast? <;> rfl
      rw [hlast, List.cons_append, markedOpenings, markedOpenings]
      cases isBlank line <;> simp [ih]

/-- A marked line has whole entries before it. -/
theorem exists_entry_of_mark {entries : List String} {front back : List (String × Bool)}
    (h : entries.flatMap markedLines = front ++ (line, true) :: back) :
    ∃ before entry after, entries = before ++ entry :: after ∧
      before.flatMap markedLines = front ∧ (entryLines entry).head? = some line := by
  induction entries generalizing front with
  | nil => simp at h
  | cons entry entries ih =>
      obtain ⟨first, others, hentry⟩ := List.exists_cons_of_ne_nil (entryLines_ne_nil entry)
      have hmarked : markedLines entry = (first, true) :: others.map (·, false) := by
        rw [markedLines, hentry]
      rw [List.flatMap_cons] at h
      cases front with
      | nil =>
          rw [hmarked] at h
          obtain ⟨hfirst, -⟩ := List.cons.inj h
          rw [← (Prod.mk.inj hfirst).1]
          exact ⟨[], entry, entries, rfl, rfl, by rw [hentry]; rfl⟩
      | cons mark front =>
          have hfront : ∃ front', mark :: front = markedLines entry ++ front' ∧
              entries.flatMap markedLines = front' ++ (line, true) :: back := by
            rcases List.append_eq_append_iff.mp h with ⟨front', hf, hb⟩ | ⟨own, hf, hb⟩
            · exact ⟨front', hf, hb⟩
            · cases own with
              | nil => exact ⟨[], by simpa using hf.symm, by simpa using hb.symm⟩
              | cons own rest =>
                  rw [hmarked, List.cons_append] at hf
                  obtain ⟨rfl, -⟩ := List.cons.inj hb
                  have hown : (line, true) ∈ others.map (·, false) := by
                    rw [(List.cons.inj hf).2]
                    exact List.mem_append_right _ List.mem_cons_self
                  simp at hown
          obtain ⟨front', hf, hb⟩ := hfront
          obtain ⟨before, next, after, rfl, hbefore, hnext⟩ := ih hb
          exact ⟨entry :: before, next, after, rfl, by rw [List.flatMap_cons, hbefore, hf], hnext⟩

/-- An entry begins with a marked line. -/
theorem flatMap_markedLines_entry (front back : List String) {entry line : String}
    (h : (entryLines entry).head? = some line) :
    ∃ after, (front ++ entry :: back).flatMap markedLines =
      front.flatMap markedLines ++ (line, true) :: after := by
  obtain ⟨others, hentry⟩ := List.head?_eq_some_iff.mp h
  rw [List.flatMap_append, List.flatMap_cons, markedLines, hentry]
  exact ⟨_, rfl⟩

/-- The marks on both sides are the same list, in which the line has one place. -/
theorem opensAt_iff {lines : List String} {i : Nat}
    (h : entries.flatMap markedLines = markedOpenings true lines) (hline : lines[i]? = some line)
    (hshown : isBlank line = false) :
    OpensAt entries lines i ↔
      ((lines.take i).getLast?.map isBlank).getD true = true ∨ continues line = false := by
  have hi : i < lines.length := (List.getElem?_eq_some_iff.mp hline).1
  have hmarks : entries.flatMap markedLines = markedOpenings true (lines.take i) ++
      (line, ((lines.take i).getLast?.map isBlank).getD true || !continues line) ::
        markedOpenings false (lines.drop (i + 1)) := by
    have hsplit : lines.take i ++ line :: lines.drop (i + 1) = lines := by
      rw [← (List.getElem?_eq_some_iff.mp hline).2, ← List.drop_eq_getElem_cons hi,
        List.take_append_drop]
    calc
      entries.flatMap markedLines
        = markedOpenings true (lines.take i ++ line :: lines.drop (i + 1)) := by rw [h, hsplit]
      _ = _ := by
        rw [markedOpenings_append, markedOpenings, hshown, if_neg Bool.false_ne_true]
  have hfront : (markedOpenings true (lines.take i)).map (·.1) =
      (lines.take i).filter (!isBlank ·) := map_fst_markedOpenings true _
  constructor
  · rintro ⟨front, entry, back, rfl, hheld, hhead⟩
    obtain ⟨after, hentry⟩ := flatMap_markedLines_entry front back (hhead.trans hline)
    have hlength : (front.flatMap markedLines).length =
        (markedOpenings true (lines.take i)).length := by
      rw [← List.length_map (·.1), map_fst_flatMap_markedLines, hheld, ← hfront, List.length_map]
    rw [hentry] at hmarks
    have hmark := (List.cons.inj (List.append_inj_right hmarks hlength)).1
    have hopens := (Prod.mk.inj hmark).2
    simpa using hopens.symm
  · intro hopens
    have htrue : (((lines.take i).getLast?.map isBlank).getD true || !continues line) = true := by
      simpa using hopens
    rw [htrue] at hmarks
    obtain ⟨before, entry, after, rfl, hbefore, hhead⟩ := exists_entry_of_mark hmarks
    refine ⟨before, entry, after, rfl, ?_, hhead.trans hline.symm⟩
    rw [← map_fst_flatMap_markedLines, hbefore, hfront]

theorem afterBlank_iff {lines : List String} {i : Nat} (hi : i < lines.length) :
    ((lines.take i).getLast?.map isBlank).getD true = true ↔
      i = 0 ∨ ∃ before, lines[i - 1]? = some before ∧ isBlank before = true := by
  cases i with
  | zero => simp
  | succ i =>
      have hget : lines[i]? = some lines[i] := List.getElem?_eq_getElem (Nat.lt_of_succ_lt hi)
      have hlast : (lines.take (i + 1)).getLast? = some lines[i] := by
        rw [List.getLast?_take, if_neg (Nat.succ_ne_zero i), Nat.add_sub_cancel, hget]
        rfl
      simp [hlast, hget]

/-- The entries of a text hold its lines that are not blank, in order, and begin at the right ones.
Carriage returns at the ends of the lines change nothing. -/
theorem parse_divides (text : String) :
    Divides (lines text) (parse text).entries ∧
      ('\r' ∉ text.toList → parse (withReturns text) = parse text) := by
  have hmarks := flatMap_markedLines_parse text
  have hheld : (parse text).entries.flatMap entryLines = (lines text).filter (!isBlank ·) := by
    rw [← map_fst_flatMap_markedLines, hmarks, map_fst_markedOpenings]
  refine ⟨⟨hheld, ?_, ?_⟩, ?_⟩
  · rintro entry he rfl
    have hempty : "" ∈ (lines text).filter (!isBlank ·) := by
      rw [← hheld]
      exact List.mem_flatMap.mpr ⟨"", he, by simp [entryLines_eq]⟩
    have hblank : isBlank "" = true := Text.isBlank_iff.mpr (List.forall_mem_nil _)
    rw [List.mem_filter, hblank] at hempty
    exact Bool.false_ne_true hempty.2
  · intro i line hline hshown
    rw [opensAt_iff hmarks hline hshown, afterBlank_iff (List.getElem?_eq_some_iff.mp hline).1,
      or_comm]
  · intro hreturn
    rw [parse, Text.lines_withReturns hreturn, parse]

/-- An indented line behind a blank one, and a brace behind an indented line. -/
def looseText : String := "a \x7b\n int x;\n\x7d\n\n b\nc"

theorem parse_divides_looseText :
    '\r' ∉ looseText.toList ∧ parse (withReturns looseText) = parse looseText := by
  have hreturn : '\r' ∉ looseText.toList := by decide
  exact ⟨hreturn, (parse_divides looseText).2 hreturn⟩

end RecordSchema.Catalogue
