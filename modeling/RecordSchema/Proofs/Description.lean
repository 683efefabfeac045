import RecordSchema.Description
import RecordSchema.Proofs.Outcome
import RecordSchema.Proofs.Token.Lexer

/-! What a description declares, and how its compilation can fail. -/

namespace RecordSchema.Description

/-- The name that the header of a description gives, with the tokens of the body. -/
def opening (source : String) : Except Error (Option (String × List Token)) :=
  Lexer.tokenize source >>= fun tokens => header (Token.significant tokens)

/-- The name of a description whose header can be read. -/
def declares? (source : String) : Option String :=
  match opening source with
  | .ok (some (name, _)) => some name
  | _ => none

theorem parse_eq (source : String) :
    parse source = (opening source >>= fun
      | none => .ok none
      | some (name, rest) => some <$> body name rest) := by
  unfold parse opening
  cases Lexer.tokenize source with
  | error e => rfl
  | ok tokens => rfl

theorem name_of_body {name : String} {tokens : List Token} {d : Descriptor}
    (h : body name tokens = .ok d) : d.name = name := by
  obtain ⟨fs, _, hd⟩ := bind_eq_ok.mp h
  rw [← Except.ok.inj hd]

theorem declares?_of_parse_some {source : String} {d : Descriptor}
    (h : parse source = .ok (some d)) : declares? source = some d.name := by
  rw [parse_eq, bind_eq_ok] at h
  obtain ⟨opened, ho, h⟩ := h
  cases opened with
  | none => cases h
  | some found =>
      obtain ⟨d', hb, hd⟩ := map_eq_ok.mp h
      obtain rfl : d' = d := Option.some.inj hd
      simp only [declares?, ho, name_of_body hb]

theorem declares?_of_parse_none {source : String} (h : parse source = .ok none) :
    declares? source = none := by
  rw [parse_eq, bind_eq_ok] at h
  obtain ⟨opened, ho, h⟩ := h
  cases opened with
  | none => simp only [declares?, ho]
  | some found =>
      obtain ⟨d, _, hd⟩ := map_eq_ok.mp h
      cases hd

/-! ## Failures

A description without tokens is empty. Every other failure of the grammar is found at a token or
for want of one, and the lexer has none. -/

/-- The failures of a description that has tokens. -/
structure Malformed (e : Error) : Prop where
  grammar : e.errorClass = .grammar
  notEmpty : e ≠ .emptyDescription

theorem expect_error {kind : TokenKind} {owner : Option String} {expected : Expected}
    {position : Nat} {tokens : List Token} {e : Error}
    (h : expect kind owner expected position tokens = .error e) : Malformed e := by
  cases tokens with
  | nil =>
      rw [expect] at h
      exact Except.error.inj h ▸ ⟨rfl, nofun⟩
  | cons token rest =>
      simp only [expect] at h
      split at h
      · cases h
      · exact Except.error.inj h ▸ ⟨rfl, nofun⟩

theorem header_error {tokens : List Token} {e : Error} (h : header tokens = .error e) :
    (tokens = [] ∧ e = .emptyDescription) ∨ Malformed e := by
  cases tokens with
  | nil =>
      rw [header] at h
      exact .inl ⟨rfl, (Except.error.inj h).symm⟩
  | cons keyword rest =>
      simp only [header] at h
      split at h
      · rcases bind_eq_error.mp h with h | ⟨⟨name, rest⟩, _, h⟩
        · exact .inr (expect_error h)
        · rcases bind_eq_error.mp h with h | ⟨_, _, h⟩
          · exact .inr (expect_error h)
          · cases h
      · cases h

theorem trailer_error {owner : String} {position : Nat} {tokens : List Token} {e : Error}
    (h : trailer owner position tokens = .error e) : Malformed e := by
  induction tokens generalizing position with
  | nil => cases h
  | cons token rest ih =>
      simp only [trailer] at h
      split at h
      · exact ih h
      · exact Except.error.inj h ▸ ⟨rfl, nofun⟩

theorem fields_error {owner : String} {seen : List Field} {position : Nat} {tokens : List Token}
    {e : Error} (h : fields owner seen position tokens = .error e) : Malformed e := by
  fun_induction fields owner seen position tokens with
  | case2 =>
      rcases bind_eq_error.mp h with h | ⟨_, _, h⟩
      · exact trailer_error h
      · cases h
  | case3 _ _ _ _ _ ih => exact ih h
  | case4 _ _ _ _ _ ih => exact ih h
  | case7 _ _ _ _ _ _ _ _ ih => exact ih h
  | case11 _ _ _ _ _ _ _ _ ih => exact ih h
  | _ => exact Except.error.inj h ▸ ⟨rfl, nofun⟩

theorem body_error {name : String} {tokens : List Token} {e : Error}
    (h : body name tokens = .error e) : Malformed e := by
  rcases bind_eq_error.mp h with h | ⟨_, _, h⟩
  · exact fields_error h
  · cases h

theorem ofTokens_error {tokens : List Token} {e : Error} (h : ofTokens tokens = .error e) :
    (Token.significant tokens = [] ∧ e = .emptyDescription) ∨ Malformed e := by
  rcases bind_eq_error.mp h with h | ⟨opened, _, h⟩
  · exact header_error h
  · cases opened with
    | none => cases h
    | some found =>
        exact .inr (body_error (map_eq_error.mp h))

theorem parse_error {source : String} {e : Error} (h : parse source = .error e) :
    e.errorClass = .grammar := by
  obtain ⟨tokens, ht⟩ := Lexer.exists_tokenize source
  rw [parse, ht, ok_bind] at h
  rcases ofTokens_error h with ⟨_, rfl⟩ | he
  · rfl
  · exact he.grammar

end RecordSchema.Description
