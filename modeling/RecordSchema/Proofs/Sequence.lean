import RecordSchema.Proofs.Outcome
import RecordSchema.Sequence

/-! The records of a reply. Which of them a sequence holds is said of the value that the path leads
to, and a path with one index more leads to one record of the sequence or to none
(`ofReply_normalizes`). -/

namespace RecordSchema

/-! ## Where a path leads -/

namespace Path

/-- The steps lead from one value to another, a name into a record and an index into an array. -/
inductive Leads : List PathStep → Value → Value → Prop
  | done {value : Value} : Leads [] value value
  | field {name : String} {rest : List PathStep} {r : Record} {inner value : Value} :
      r.field? name = some inner → Leads rest inner value →
      Leads (.field name :: rest) (.record r) value
  | index {i : UInt64} {rest : List PathStep} {items : List Value} {inner value : Value} :
      items[i.toNat]? = some inner → Leads rest inner value →
      Leads (.index i :: rest) (.array items) value

theorem follow_field (name : String) (rest : List PathStep) (start : Value) :
    follow (.field name :: rest) start =
      (start.record?.bind fun r => r.field? name).bind (follow rest) := by
  cases start <;> rfl

theorem follow_index (i : UInt64) (rest : List PathStep) (start : Value) :
    follow (.index i :: rest) start =
      (start.items?.bind fun items => items[i.toNat]?).bind (follow rest) := by
  cases start <;> rfl

theorem follow_append (front back : List PathStep) (start : Value) :
    follow (front ++ back) start = (follow front start).bind (follow back) := by
  induction front generalizing start with
  | nil => rfl
  | cons step front ih =>
      have hback : follow (front ++ back) = fun inner => (follow front inner).bind (follow back) :=
        funext ih
      cases step with
      | field name =>
          rw [List.cons_append, follow_field, follow_field, hback]
          exact (Option.bind_assoc _ _ _).symm
      | index i =>
          rw [List.cons_append, follow_index, follow_index, hback]
          exact (Option.bind_assoc _ _ _).symm

theorem leads_of_follow {steps : List PathStep} {start value : Value}
    (h : follow steps start = some value) : Leads steps start value := by
  induction steps generalizing start with
  | nil =>
      obtain rfl := Option.some.inj h
      exact .done
  | cons step rest ih =>
      cases step with
      | field name =>
          cases start with
          | record r =>
              obtain ⟨inner, hinner, hrest⟩ := Option.bind_eq_some_iff.mp h
              exact .field hinner (ih hrest)
          | _ => cases h
      | index i =>
          cases start with
          | array items =>
              obtain ⟨inner, hinner, hrest⟩ := Option.bind_eq_some_iff.mp h
              exact .index hinner (ih hrest)
          | _ => cases h

theorem follow_eq_some_iff {steps : List PathStep} {start value : Value} :
    follow steps start = some value ↔ Leads steps start value := by
  refine ⟨leads_of_follow, fun h => ?_⟩
  induction h with
  | done => rfl
  | field hinner _ ih => rw [follow, hinner, Option.bind_some, ih]
  | index hinner _ ih => rw [follow, hinner, Option.bind_some, ih]

theorem resolve_eq_some_iff {path : Path} {root : Record} {value : Value} :
    path.resolve root = some value ↔ path.steps ≠ [] ∧ Leads path.steps (.record root) value := by
  rw [resolve, ← follow_eq_some_iff]
  cases path.steps <;> simp

/-- One step more is taken from where the path leads. -/
theorem resolve_append {path : Path} {root : Record} {value : Value}
    (h : path.resolve root = some value) (step : PathStep) (source : String) :
    resolve ⟨path.steps ++ [step], source⟩ root = follow [step] value := by
  obtain ⟨-, hleads⟩ := resolve_eq_some_iff.mp h
  rw [resolve, if_neg (by simp), follow_append, follow_eq_some_iff.mpr hleads, Option.bind_some]

end Path

/-! ## What a value holds -/

namespace Sequence

/-- The records of what a path leads to, if it leads anywhere. -/
inductive Holds : Option Value → List Record → Prop
  | nothing : Holds none []
  | null : Holds (some .null) []
  | record (r : Record) : Holds (some (.record r)) [r]
  | array (records : List Record) : Holds (some (.array (records.map .record))) records

/-- The value is neither null nor a record nor an array; or it is an array, and the item of this
kind is the first of it that is no record. -/
inductive Misfit : Value → Kind → Prop
  | scalar {value : Value} : value ≠ .null → (∀ r, value ≠ .record r) →
      (∀ items, value ≠ .array items) → Misfit value value.kind
  | item {front : List Record} {item : Value} {back : List Value} : (∀ r, item ≠ .record r) →
      Misfit (.array (front.map .record ++ item :: back)) item.kind

variable {path : String} {records : List Record} {value : Value} {error : Error}

theorem recordOf_eq_ok {r : Record} : recordOf path value = .ok r ↔ value = .record r := by
  cases value <;> simp [recordOf]

theorem recordOf_eq_error :
    recordOf path value = .error error ↔
      (∀ r, value ≠ .record r) ∧ error = .replyShape path value.kind := by
  cases value <;> simp [recordOf, eq_comm]

theorem forall₂_recordOf {items : List Value} :
    List.Forall₂ (fun item r => recordOf path item = .ok r) items records ↔
      items = records.map .record := by
  simp only [recordOf_eq_ok]
  rw [← List.forall₂_map_right_iff, List.forall₂_eq_eq_eq]

theorem normalize_eq_ok : normalize path value = .ok records ↔ Holds (some value) records := by
  constructor
  · intro h
    cases value with
    | null =>
        obtain rfl := Except.ok.inj h
        exact .null
    | record r =>
        obtain rfl := Except.ok.inj h
        exact .record r
    | array items =>
        obtain rfl := forall₂_recordOf.mp (mapM_eq_ok.mp h)
        exact .array records
    | _ => cases h
  · intro h
    cases h with
    | null => rfl
    | record r => rfl
    | array => exact mapM_eq_ok.mpr (forall₂_recordOf.mpr rfl)

theorem normalize_array_eq_error {items : List Value} :
    normalize path (.array items) = .error error ↔
      ∃ kind, Misfit (.array items) kind ∧ error = .replyShape path kind := by
  rw [normalize, mapM_eq_error]
  constructor
  · rintro ⟨front, item, back, records, rfl, hfront, hitem⟩
    obtain ⟨hno, rfl⟩ := recordOf_eq_error.mp hitem
    obtain rfl := forall₂_recordOf.mp hfront
    exact ⟨item.kind, .item hno, rfl⟩
  · rintro ⟨kind, hmisfit, rfl⟩
    cases hmisfit with
    | scalar _ _ harray => exact absurd rfl (harray items)
    | @item front item back hno =>
        exact ⟨front.map .record, item, back, front, rfl, forall₂_recordOf.mpr rfl,
          recordOf_eq_error.mpr ⟨hno, rfl⟩⟩

theorem normalize_scalar (hnull : value ≠ .null) (hrecord : ∀ r, value ≠ .record r)
    (harray : ∀ items, value ≠ .array items) :
    normalize path value = .error (.replyShape path value.kind) := by
  cases value with
  | null => exact absurd rfl hnull
  | record r => exact absurd rfl (hrecord r)
  | array items => exact absurd rfl (harray items)
  | _ => rfl

theorem normalize_eq_error :
    normalize path value = .error error ↔
      ∃ kind, Misfit value kind ∧ error = .replyShape path kind := by
  constructor
  · intro h
    cases value with
    | array items => exact normalize_array_eq_error.mp h
    | null => cases h
    | record r => cases h
    | _ =>
        obtain rfl := Except.error.inj h
        exact ⟨_, .scalar nofun nofun nofun, rfl⟩
  · rintro ⟨kind, hmisfit, rfl⟩
    cases hmisfit with
    | scalar hnull hrecord harray => exact normalize_scalar hnull hrecord harray
    | item hno => exact normalize_array_eq_error.mpr ⟨_, .item hno, rfl⟩

/-! ## Replies -/

variable {reply : Record} {target : Path} {s : Sequence}

theorem ofReply_of_none (h : target.resolve reply = none) :
    ofReply reply target = .ok ⟨[], some reply⟩ := by
  rw [ofReply, h]
  rfl

theorem ofReply_of_some (h : target.resolve reply = some value) :
    ofReply reply target = normalize target.source value >>= fun records =>
      .ok ⟨records, some reply⟩ := by
  rw [ofReply, h]
  rfl

theorem ofReply_eq_ok :
    ofReply reply target = .ok s ↔
      Holds (target.resolve reply) s.records ∧ s.reply? = some reply := by
  obtain ⟨records, reply?⟩ := s
  cases h : target.resolve reply with
  | none =>
      rw [ofReply_of_none h]
      constructor
      · intro hs
        cases hs
        exact ⟨.nothing, rfl⟩
      · rintro ⟨hholds, rfl⟩
        cases hholds
        rfl
  | some value =>
      rw [ofReply_of_some h, bind_eq_ok]
      constructor
      · rintro ⟨records, hnormalize, hs⟩
        cases hs
        exact ⟨normalize_eq_ok.mp hnormalize, rfl⟩
      · rintro ⟨hholds, rfl⟩
        exact ⟨records, normalize_eq_ok.mpr hholds, rfl⟩

theorem ofReply_eq_error :
    ofReply reply target = .error error ↔
      ∃ value kind, target.resolve reply = some value ∧ Misfit value kind ∧
        error = .replyShape target.source kind := by
  cases h : target.resolve reply with
  | none => simp [ofReply_of_none h]
  | some value =>
      have hok : ∀ records : List Record,
          (Except.ok ⟨records, some reply⟩ : Except Error Sequence) ≠ .error error := nofun
      rw [ofReply_of_some h, bind_eq_error]
      simp [normalize_eq_error]

theorem holds_toList (record? : Option Record) :
    Holds (record?.map .record) record?.toList := by
  cases record? with
  | none => exact .nothing
  | some r => exact .record r

/-- One index more leads to one record of the array, or to nothing. -/
theorem ofReply_index {records : List Record}
    (h : target.resolve reply = some (.array (records.map .record))) (i : UInt64)
    (source : String) :
    ofReply reply ⟨target.steps ++ [.index i], source⟩ =
      .ok ⟨records[i.toNat]?.toList, some reply⟩ := by
  have hitem : Path.resolve ⟨target.steps ++ [.index i], source⟩ reply =
      records[i.toNat]?.map .record := by
    rw [Path.resolve_append h, Path.follow, List.getElem?_map]
    exact Option.bind_fun_some _
  exact ofReply_eq_ok.mpr ⟨hitem ▸ holds_toList _, rfl⟩

/-- A sequence holds what its path leads to: nothing or null for no record, a record for itself, and
an array for its items, which must all be records. Any other value is refused by its kind, an array
by the kind of its first item that is no record. One index more leads to that record of the
sequence. -/
theorem ofReply_normalizes (reply : Record) (path : Path) :
    (∀ value, path.resolve reply = some value ↔
      path.steps ≠ [] ∧ Path.Leads path.steps (.record reply) value) ∧
    (∀ s, ofReply reply path = .ok s ↔
      Holds (path.resolve reply) s.records ∧ s.reply? = some reply) ∧
    (∀ error, ofReply reply path = .error error ↔
      ∃ value kind, path.resolve reply = some value ∧ Misfit value kind ∧
        error = .replyShape path.source kind) ∧
    ∀ items s, path.resolve reply = some (.array items) → ofReply reply path = .ok s →
      ∀ i source, ofReply reply ⟨path.steps ++ [.index i], source⟩ =
        .ok ⟨(s.get? i.toNat).toList, some reply⟩ := by
  refine ⟨fun value => Path.resolve_eq_some_iff, fun s => ofReply_eq_ok,
    fun error => ofReply_eq_error, ?_⟩
  intro items s hresolve hs i source
  obtain ⟨hholds, -⟩ := ofReply_eq_ok.mp hs
  obtain ⟨records, reply?⟩ := s
  rw [hresolve] at hholds
  cases hholds with
  | array => exact ofReply_index hresolve i source

/-- Records beside a number are refused by the number; alone they are all held, and each has an
index of its own. -/
theorem ofReply_normalizes_mixed :
    let items : List Value := [.record (.struct "A"), .record (.asset "B")]
    let reply : Record := ⟨"Reply", .struct, none, [("Items", .array items), ("Mixed", .array
      [.record (.struct "A"), .int 7, .null])]⟩
    ofReply reply ⟨[.field "Mixed"], "Mixed"⟩ = .error (.replyShape "Mixed" .int) ∧
      ofReply reply ⟨[.field "Items", .index 1], "Items[1]"⟩ = .ok ⟨[.asset "B"], some reply⟩ ∧
      ofReply reply ⟨[.field "Items", .index 2], "Items[2]"⟩ = .ok ⟨[], some reply⟩ := by
  intro items reply
  let whole : Path := ⟨[.field "Items"], "Items"⟩
  have hmixed := (ofReply_normalizes reply ⟨[.field "Mixed"], "Mixed"⟩).2.2.1
  have hitems := (ofReply_normalizes reply whole).2.2.2 items ⟨[.struct "A", .asset "B"], some reply⟩
    rfl rfl
  have hmisfit : Misfit (.array [.record (.struct "A"), .int 7, .null]) .int :=
    @Misfit.item [.struct "A"] (.int 7) [.null] nofun
  exact ⟨(hmixed _).mpr ⟨_, _, rfl, hmisfit, rfl⟩, hitems 1 "Items[1]", hitems 2 "Items[2]"⟩

end Sequence
end RecordSchema
