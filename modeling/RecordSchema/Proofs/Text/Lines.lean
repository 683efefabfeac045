import RecordSchema.Text

/-! Texts put together from lines, each with its end, are taken apart into the same lines. Carriage
returns before the line feeds change none of them (`lines_withReturns`). -/

namespace RecordSchema.Text

theorem pieces_eq (text : String) :
    (text.split '\n').toList.map (·.copy) = (text.toList.splitOn '\n').map String.ofList :=
  String.toList_split_char

theorem lines_empty : lines "" = [] := by
  rw [lines, pieces_eq]
  rfl

theorem lines_cons {line : String} (h : '\n' ∉ line.toList) (rest : String) :
    lines (line ++ "\n" ++ rest) = withoutReturn line :: lines rest := by
  have hsplit : (line ++ "\n" ++ rest).toList.splitOn '\n' =
      line.toList :: rest.toList.splitOn '\n' := by
    rw [String.toList_append, String.toList_append, List.append_assoc]
    exact List.splitOn_append_cons_self_of_not_mem h rest.toList
  obtain ⟨first, others, hrest⟩ :=
    List.exists_cons_of_ne_nil (List.splitOn_ne_nil '\n' rest.toList)
  simp only [lines, pieces_eq, hsplit, hrest, List.map_cons, String.ofList_toList]
  rw [List.dropLast_cons_of_ne_nil (List.cons_ne_nil _ _), List.getLast?_cons_cons]
  rfl

/-- Every text is one line without an end, or a line with its line feed and another text. -/
theorem induction_on_lines {motive : String → Prop} (text : String)
    (last : ∀ line, '\n' ∉ line.toList → motive line)
    (next : ∀ line rest, '\n' ∉ line.toList → motive rest → motive (line ++ "\n" ++ rest)) :
    motive text := by
  induction hn : text.length using Nat.strongRecOn generalizing text with
  | ind n ih =>
      by_cases hm : '\n' ∈ text.toList
      · obtain ⟨line, rest, hsplit, hline⟩ := List.eq_append_cons_of_mem hm
        have htext : text = String.ofList line ++ "\n" ++ String.ofList rest := by
          rw [← String.toList_inj, hsplit]
          simp
        have hshorter : (String.ofList rest).length < n := by
          rw [← hn, htext, String.length_append, String.length_append]
          have hfeed : "\n".length = 1 := rfl
          omega
        rw [htext]
        exact next _ _ (by simpa using hline) (ih _ hshorter _ rfl)
      · exact last text hm

theorem lines_last {line : String} (h : '\n' ∉ line.toList) :
    lines line = if line = "" then [] else [line] := by
  rw [lines, pieces_eq, List.splitOn_eq_singleton h]
  by_cases hline : line = "" <;> simp [hline]

/-- Every line ends in a line feed. -/
theorem lines_join {rows : List String} (h : ∀ row ∈ rows, '\n' ∉ row.toList) :
    lines (String.join (rows.map (· ++ "\n"))) = rows.map withoutReturn := by
  induction rows with
  | nil => exact lines_empty
  | cons row rows ih =>
      obtain ⟨hrow, hrows⟩ := List.forall_mem_cons.mp h
      rw [List.map_cons, String.join_cons, lines_cons hrow, ih hrows, List.map_cons]

theorem withoutReturn_append (row : String) : withoutReturn (row ++ "\r") = row := by
  have hends : (row ++ "\r").endsWith '\r' = true := by
    rw [String.endsWith_char_eq_getLast?]
    simp
  rw [withoutReturn, if_pos hends, ← String.toList_inj, String.toList_copy_dropEnd,
    String.toList_append, ← List.dropLast_eq_take]
  exact List.dropLast_concat

theorem withoutReturn_of_getLast? {row : String} (h : row.toList.getLast? ≠ some '\r') :
    withoutReturn row = row := by
  refine if_neg ?_
  rw [String.endsWith_char_eq_getLast?]
  exact mt beq_iff_eq.mp h

theorem isBlank_iff {text : String} :
    isBlank text = true ↔ ∀ c ∈ text.toList, isWhiteSpace c = true := by
  rw [isBlank, String.all_bool_eq, List.all_eq_true]

theorem mem_of_mem_withoutReturn {row : String} {c : Char} (h : c ∈ (withoutReturn row).toList) :
    c ∈ row.toList := by
  rw [withoutReturn] at h
  split at h
  · rw [String.toList_copy_dropEnd] at h
    exact List.mem_of_mem_take h
  · exact h

theorem isBlank_withoutReturn {row : String} (h : isBlank row = true) :
    isBlank (withoutReturn row) = true := by
  rw [isBlank_iff] at h ⊢
  exact fun c hc => h c (mem_of_mem_withoutReturn hc)

theorem not_mem_lines {text line : String} (h : line ∈ lines text) : '\n' ∉ line.toList := by
  induction text using induction_on_lines with
  | last piece hpiece =>
      rw [lines_last hpiece] at h
      split at h
      · exact absurd h List.not_mem_nil
      · exact List.mem_singleton.mp h ▸ hpiece
  | next piece rest hpiece ih =>
      rw [lines_cons hpiece] at h
      rcases List.mem_cons.mp h with rfl | h
      · exact mt mem_of_mem_withoutReturn hpiece
      · exact ih h

/-- Every line feed with a carriage return before it. -/
def withReturns (text : String) : String :=
  String.ofList (text.toList.flatMap fun c => if c = '\n' then ['\r', '\n'] else [c])

theorem flatMap_of_feedless {line : List Char} (h : '\n' ∉ line) :
    (line.flatMap fun c => if c = '\n' then ['\r', '\n'] else [c]) = line := by
  induction line with
  | nil => rfl
  | cons c rest ih =>
      rw [List.mem_cons, not_or] at h
      rw [List.flatMap_cons, if_neg (Ne.symm h.1), ih h.2]
      rfl

theorem withReturns_last {line : String} (h : '\n' ∉ line.toList) : withReturns line = line := by
  rw [withReturns, flatMap_of_feedless h, String.ofList_toList]

theorem withReturns_cons {line : String} (h : '\n' ∉ line.toList) (rest : String) :
    withReturns (line ++ "\n" ++ rest) = line ++ "\r" ++ "\n" ++ withReturns rest := by
  rw [← String.toList_inj]
  simp [withReturns, flatMap_of_feedless h]

/-- A text without carriage returns has the same lines with them. -/
theorem lines_withReturns {text : String} (h : '\r' ∉ text.toList) :
    lines (withReturns text) = lines text := by
  induction text using induction_on_lines with
  | last line hline => rw [withReturns_last hline]
  | next line rest hline ih =>
      simp only [String.toList_append, List.mem_append, not_or] at h
      obtain ⟨⟨hreturn, -⟩, hrest⟩ := h
      have hended : '\n' ∉ (line ++ "\r").toList := by
        rw [String.toList_append, List.mem_append, not_or]
        exact ⟨hline, by decide⟩
      have hkept : withoutReturn line = line :=
        withoutReturn_of_getLast? fun hlast => hreturn (List.mem_of_getLast? hlast)
      rw [withReturns_cons hline, lines_cons hended, lines_cons hline, ih hrest,
        withoutReturn_append, hkept]

end RecordSchema.Text
