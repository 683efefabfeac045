import RecordSchema.Proofs.Record.Encode
import RecordSchema.Proofs.Registry.Construct

/-! The records that a program can come to hold. New, instantiated and decoded records are well
formed and stay so under every edit, so that what is written of them has no key twice
(`made_record_proper`). -/

namespace RecordSchema
open Value (Within WellFormed)

/-! ## Producers -/

namespace Registry

variable {registry : Registry} {chain : List String} {name : String} {result : Record}

theorem fill_wellFormed {build : String → Except Error Record} {record : Record}
    {references : List (String × String)} (h : fill build record references = .ok result)
    (hr : WellFormed (.record record))
    (hb : ∀ {target nested}, build target = .ok nested → WellFormed (.record nested)) :
    WellFormed (.record result) :=
  fill_induction (P := fun r => WellFormed (.record r)) h hr
    fun _ hf hn hr => hr.set (hb hn) (Record.set_field hf _ _)

theorem construct_wellFormed (h : registry.construct chain name = .ok result) :
    WellFormed (.record result) :=
  construct_induction (P := fun _ _ result => WellFormed (.record result))
    (fun shape _ => .empty _ shape)
    (fun _ _ _ _ hfill ih => fill_wellFormed hfill (.empty _ _) ih) h

end Registry

namespace Reply

variable {registry : Registry} {limits : Limits}

theorem wellFormed_of_readable {place : Place} {value : Value}
    (h : Everywhere registry (Readable limits) place value) : WellFormed value := by
  induction h with
  | @intro place value here _ ih =>
      refine .intro ?_ ?_
      · rintro r rfl
        exact here.toProper
      · intro part hp
        cases value with
        | array items => exact ih _ part (.item hp)
        | record r =>
            obtain ⟨entry, he, rfl⟩ := List.mem_map.mp hp
            exact ih _ entry.2 (.field he)
        | _ => cases hp

theorem decode_wellFormed {typeName : String} {payload : Json} {r : Record}
    (h : decode registry limits typeName payload = .ok r) : WellFormed (.record r) := by
  have hr : Everywhere registry (Readable limits) ⟨typeName, 0⟩ (.record r) :=
    decodeValue_readable (decode_eq_ok.mp h)
  exact wellFormed_of_readable hr

end Reply

/-! ## Programs -/

/-- A value that a program can come to hold. Records are new, instantiated or decoded to begin
with; an edit brings in such values only, and whatever stands within such a value can be taken out
or copied. -/
inductive Made : Value → Prop where
  | plain {value : Value} : (∀ r, value ≠ .record r) → (∀ part ∈ value.parts, Made part) →
      Made value
  | empty (typeName : String) (shape : Shape) : Made (.record (.empty typeName shape))
  | instantiated {registry : Registry} {name : String} {r : Record} :
      registry.instantiate name = .ok r → Made (.record r)
  | decoded {registry : Registry} {limits : Reply.Limits} {typeName : String} {payload : Json}
      {r : Record} : Reply.decode registry limits typeName payload = .ok r → Made (.record r)
  | edited {r : Record} {edit : Edit} : Made (.record r) → (∀ value ∈ edit.value?, Made value) →
      Made (.record (edit.apply r))
  | taken {inner whole : Value} : Made whole → Within inner whole → Made inner

namespace Made

theorem wellFormed {value : Value} (h : Made value) : WellFormed value := by
  induction h with
  | plain hr _ ih => exact .intro (fun r heq => absurd heq (hr r)) ih
  | empty typeName shape => exact .empty typeName shape
  | instantiated h => exact Registry.construct_wellFormed h
  | decoded h => exact Reply.decode_wellFormed h
  | edited _ _ ih hv => exact ih.edit hv
  | taken _ hw ih => exact ih.within hw

theorem scalar {value : Value} (hr : ∀ r, value ≠ .record r) (hp : value.parts = []) :
    Made value := by
  refine .plain hr ?_
  rw [hp]
  exact fun _ h => absurd h List.not_mem_nil

theorem applyAll {r : Record} (h : Made (.record r)) {edits : List Edit}
    (hv : ∀ edit ∈ edits, ∀ value ∈ edit.value?, Made value) :
    Made (.record (Edit.applyAll edits r)) := by
  induction edits generalizing r with
  | nil => exact h
  | cons edit rest ih =>
      obtain ⟨hfirst, hrest⟩ := List.forall_mem_cons.mp hv
      exact ih (h.edited hfirst) hrest

end Made

/-- Whatever a program makes of a record, the stored names of every record within it are distinct
and none of them is the identity's, and no object of its JSON has two fields of one key. -/
theorem made_record_proper {r : Record} (h : Made (.record r)) :
    (∀ inner : Record, Within (.record inner) (.record r) → inner.Proper) ∧ r.toJson.Distinct :=
  ⟨fun _ hw => h.wellFormed.proper hw, h.wellFormed.distinct⟩

def newOrder : Record :=
  ⟨"Order", .struct, none, [("customer", .record ⟨"Customer", .struct, none, []⟩)]⟩

/-- Writes within the customer, one that is refused, a decoded record put in an array, and a field
that comes and goes. -/
def orderEdits : List Edit :=
  [.nested "customer" (.set "name" (.string "x")), .nested "customer" (.set "ID" (.int 3)),
    .set "ID" (.bool true), .set "reply" .null, .set "note" (.double ⟨0⟩),
    .replace "reply" (.array [.record Reply.orderReplyRecord, .null]), .remove "note",
    .setIdentity (some 7)]

def editedOrder : Record :=
  ⟨"Order", .struct, some 7,
    [("customer", .record ⟨"Customer", .struct, some 3, [("name", .string "x")]⟩),
     ("reply", .array [.record Reply.orderReplyRecord, .null])]⟩

theorem made_editedOrder : Made (.record editedOrder) := by
  have hnew : Reply.orderRegistry.instantiate "Order" = .ok newOrder := by cbv
  have hreply : Reply.decode Reply.orderRegistry {} "Order" Reply.orderReply =
      .ok Reply.orderReplyRecord := by rfl
  have hnull : Made .null := .scalar (by simp) rfl
  have hreplies : Made (.array [.record Reply.orderReplyRecord, .null]) := by
    refine .plain (by simp) ?_
    simp only [Value.parts, List.forall_mem_cons, List.not_mem_nil, false_implies, implies_true,
      and_true]
    exact ⟨.decoded hreply, hnull⟩
  have hedited : Edit.applyAll orderEdits newOrder = editedOrder := by rfl
  rw [← hedited]
  refine (Made.instantiated hnew).applyAll ?_
  simp only [orderEdits, List.forall_mem_cons, Edit.value?, Option.mem_some_iff, forall_eq',
    Option.not_mem_none, List.not_mem_nil, false_implies, implies_true, and_true]
  exact ⟨.scalar (by simp) rfl, .scalar (by simp) rfl, .scalar (by simp) rfl, hnull,
    .scalar (by simp) rfl, hreplies⟩

theorem made_record_proper_editedOrder :
    Made (.record editedOrder) ∧
      (∀ inner : Record, Within (.record inner) (.record editedOrder) → inner.Proper) ∧
      editedOrder.toJson.Distinct :=
  ⟨made_editedOrder, made_record_proper made_editedOrder⟩

end RecordSchema
