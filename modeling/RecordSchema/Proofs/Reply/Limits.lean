import RecordSchema.Proofs.Reply.Held
import RecordSchema.Proofs.Reply.Readable

/-! The limits of decoding. They decide whether a reply is decoded and never what it is decoded to:
under every limits a reply that some limits let pass is decoded alike or refused for an object too
deep in it or a list too long (`decode_limits`). -/

namespace RecordSchema.Reply

/-! ## What is counted -/

/-- One value directly within another that is decoded with it. Of a wrapper only the values of its
entries are. -/
inductive Visits : Json → Json → Prop
  | item {items : List Json} {item : Json} : item ∈ items → Visits (.array items) item
  | field {fields : List (String × Json)} {name : String} {value : Json} :
      (∀ wrapper, ¬IsWrapper wrapper fields) → (name, value) ∈ fields →
      Visits (.object fields) value
  | entry {fields entry : List (String × Json)} {wrapper : Wrapper} {value : Json} :
      IsWrapper wrapper fields → .object entry ∈ listed wrapper fields →
      Fields.lookup Wrapper.entryValueKey entry = some value → Visits (.object fields) value

/-- The values that decoding comes to from one that stands at the depth `start`, each with its own
depth: arrays and objects count one each. -/
inductive Visited (start : Nat) (json : Json) : Nat → Json → Prop
  | root : Visited start json start json
  | inner {depth : Nat} {outer part : Json} :
      Visited start json depth outer → Visits outer part → Visited start json (depth + 1) part

/-- The array or the wrapper has so many elements. -/
inductive Lists : Json → Nat → Prop
  | array (items : List Json) : Lists (.array items) items.length
  | entries {wrapper : Wrapper} {fields : List (String × Json)} :
      IsWrapper wrapper fields → Lists (.object fields) (listed wrapper fields).length

/-- What a value must not be under the limits, and how it is refused. -/
inductive Breaks (limits : Limits) (depth : Nat) : Json → Error → Prop
  | deep {fields : List (String × Json)} :
      limits.maxDepth ≤ depth → Breaks limits depth (.object fields) (.depthExceeded limits.maxDepth)
  | long {json : Json} {count : Nat} : Lists json count → limits.maxItems < count →
      Breaks limits depth json (.arrayTooLarge count limits.maxItems)

/-- Every object that is visited stands above the limit, and no list that is visited is longer than
it may be. -/
structure Fits (limits : Limits) (payload : Json) : Prop where
  shallow : ∀ depth fields, Visited 0 payload depth (.object fields) → depth < limits.maxDepth
  short : ∀ depth json count, Visited 0 payload depth json → Lists json count →
    count ≤ limits.maxItems

/-! ## Judgements -/

/-- A run gives the value and nothing among the nodes breaks the limits, or it fails for one of them
that does. -/
def Judged {α : Type} (limits : Limits) (nodes : Nat → Json → Prop) (value : α)
    (run : Except Error α) : Prop :=
  (run = .ok value ∧ ∀ depth json e, nodes depth json → ¬Breaks limits depth json e) ∨
    ∃ e depth json, run = .error e ∧ nodes depth json ∧ Breaks limits depth json e

namespace Judged
variable {α β : Type} {limits : Limits} {nodes nodes' : Nat → Json → Prop} {a : α} {b : β}

theorem bind {x : Except Error α} {f : α → Except Error β} (hx : Judged limits nodes a x)
    (hf : Judged limits nodes' b (f a)) :
    Judged limits (fun depth json => nodes depth json ∨ nodes' depth json) b (x >>= f) := by
  rcases hx with ⟨rfl, hx⟩ | ⟨e, depth, json, rfl, hn, hb⟩
  · rw [ok_bind]
    rcases hf with ⟨hr, hf⟩ | ⟨e, depth, json, hr, hn, hb⟩
    · exact .inl ⟨hr, fun depth json e hn => hn.elim (hx depth json e) (hf depth json e)⟩
    · exact .inr ⟨e, depth, json, hr, .inr hn, hb⟩
  · exact .inr ⟨e, depth, json, rfl, .inl hn, hb⟩

theorem map {x : Except Error α} (hx : Judged limits nodes a x) (f : α → β) :
    Judged limits nodes (f a) (x >>= fun a => .ok (f a)) := by
  rcases hx with ⟨rfl, hx⟩ | ⟨e, depth, json, rfl, hn, hb⟩
  · exact .inl ⟨rfl, hx⟩
  · exact .inr ⟨e, depth, json, rfl, hn, hb⟩

/-- Only nodes that break the limits make a difference. -/
theorem congr {run : Except Error α} (h : Judged limits nodes a run)
    (same : ∀ depth json e, Breaks limits depth json e → (nodes depth json ↔ nodes' depth json)) :
    Judged limits nodes' a run := by
  rcases h with ⟨hr, h⟩ | ⟨e, depth, json, hr, hn, hb⟩
  · exact .inl ⟨hr, fun depth json e hn hb => h depth json e ((same depth json e hb).mpr hn) hb⟩
  · exact .inr ⟨e, depth, json, hr, (same depth json e hb).mp hn, hb⟩

variable {γ : Type} {V : γ → Nat → Json → Prop}

theorem nil (a : α) : Judged limits (fun depth json => ∃ part ∈ [], V part depth json) a
    (.ok a) :=
  .inl ⟨rfl, fun _ _ _ ⟨_, hm, _⟩ => absurd hm List.not_mem_nil⟩

/-- A run over the parts of a list, one after the other. -/
theorem cons {first : γ} {rest : List γ} {x : Except Error α} {f : α → Except Error β}
    (hx : Judged limits (V first) a x)
    (hf : Judged limits (fun depth json => ∃ part ∈ rest, V part depth json) b (f a)) :
    Judged limits (fun depth json => ∃ part ∈ first :: rest, V part depth json) b
      (x >>= f) :=
  (hx.bind hf).congr fun depth json _ _ => by simp

end Judged

/-! ## Visits -/

variable {registry : Registry} {limits limits' : Limits} {start depth : Nat} {json inner : Json}

theorem Visited.head {part : Json} (hv : Visits json part)
    (h : Visited (start + 1) part depth inner) : Visited start json depth inner := by
  induction h with
  | root => exact .inner .root hv
  | inner _ hp ih => exact .inner ih hp

theorem visited_iff : Visited start json depth inner ↔
    (depth = start ∧ inner = json) ∨
      ∃ part, Visits json part ∧ Visited (start + 1) part depth inner := by
  constructor
  · intro h
    induction h with
    | root => exact .inl ⟨rfl, rfl⟩
    | inner _ hp ih =>
        rcases ih with ⟨rfl, rfl⟩ | ⟨part, hv, h⟩
        · exact .inr ⟨_, hp, .root⟩
        · exact .inr ⟨part, hv, .inner h hp⟩
  · rintro (⟨rfl, rfl⟩ | ⟨part, hv, h⟩)
    · exact .root
    · exact h.head hv

theorem visits_array {items : List Json} {part : Json} :
    Visits (.array items) part ↔ part ∈ items :=
  ⟨fun h => by cases h with | item hm => exact hm, .item⟩

/-- Nothing is within a value that is neither an array nor an object, and it breaks no limit. -/
theorem not_breaks_leaf {e : Error} (ha : ∀ items, json ≠ .array items)
    (ho : ∀ fields, json ≠ .object fields) (h : Visited start json depth inner) :
    ¬Breaks limits depth inner e := by
  have hleaf : inner = json := by
    rcases visited_iff.mp h with ⟨_, rfl⟩ | ⟨part, hv, _⟩
    · rfl
    · cases hv with
      | item => exact absurd rfl (ha _)
      | field => exact absurd rfl (ho _)
      | entry => exact absurd rfl (ho _)
  rintro (_ | ⟨hl, _⟩)
  · exact ho _ hleaf.symm
  · cases hl with
    | array => exact ha _ hleaf.symm
    | entries => exact ho _ hleaf.symm

/-- What is visited within an object whose contents can be found. A missing value is no part. -/
theorem visits_object {place : Place} {fields : List (String × Json)} {contained : Contents}
    (h : contents registry limits place fields = .ok contained) {part : Json}
    (hp : part ≠ .null) :
    Visits (.object fields) part ↔ ∃ name, (name, part) ∈ contained.fields := by
  rcases contents_cases h with
    ⟨_, hw, rfl⟩ | ⟨wrapper, record, entries, pairs, _, hw, he, hpairs, rfl⟩
  · have hplain := wrapper?_eq_none.mp hw
    constructor
    · rintro (_ | ⟨_, hm⟩ | ⟨hwrapper, _, _⟩)
      · exact ⟨_, hm⟩
      · exact absurd hwrapper (hplain _)
    · rintro ⟨name, hm⟩
      exact .field hplain hm
  · constructor
    · rintro (_ | ⟨hplain, _⟩ | ⟨hwrapper, hm, hvalue⟩)
      · exact absurd (wrapper?_eq_some_iff.mp hw) (hplain wrapper)
      · obtain rfl := Option.some.inj ((wrapper?_eq_some_iff.mpr hwrapper).symm.trans hw)
        rw [← entryList_eq_listed he] at hm
        obtain ⟨⟨name, value⟩, hpair, hentry⟩ := exists_of_mem_of_mapM hpairs hm
        obtain ⟨_, heq, _, rfl⟩ := entryPair_eq_ok.mp hentry
        rw [← Json.object.inj heq, hvalue] at hpair
        exact ⟨name, hpair⟩
    · rintro ⟨name, hm⟩
      obtain ⟨_, hentry, hpair⟩ := exists_of_mem_mapM hpairs hm
      obtain ⟨fields, rfl, _, rfl⟩ := entryPair_eq_ok.mp hpair
      rw [entryList_eq_listed he] at hentry
      refine .entry (wrapper?_eq_some_iff.mp hw) hentry ?_
      cases hvalue : Fields.lookup Wrapper.entryValueKey fields with
      | none => exact absurd (by rw [hvalue]; rfl) hp
      | some value => rfl

/-! ## Runs -/

/-- A value that some limits let pass, under others. -/
def Relimited (registry : Registry) (limits limits' : Limits) (depth : Nat) (json : Json) : Prop :=
  ∀ hint value, decodeValue registry limits hint depth json = .ok value →
    Judged limits' (Visited depth json) value (decodeValue registry limits' hint depth json)

theorem decodeItems_judged {hint : String} {items : List Json} {values : List Value}
    (h : decodeItems registry limits hint depth items = .ok values)
    (within : ∀ item ∈ items, Relimited registry limits limits' depth item) :
    Judged limits' (fun d j => ∃ item ∈ items, Visited depth item d j) values
      (decodeItems registry limits' hint depth items) := by
  induction items generalizing values with
  | nil =>
      obtain rfl : [] = values := Except.ok.inj h
      exact .nil []
  | cons item rest ih =>
      obtain ⟨hitem, hrest⟩ := List.forall_mem_cons.mp within
      simp only [decodeItems, bind_eq_ok] at h
      obtain ⟨value, hvalue, others, hothers, h⟩ := h
      rw [← Except.ok.inj h]
      exact (hitem _ _ hvalue).cons ((ih hothers hrest).map _)

theorem decodeFields_judged (limits' : Limits) {descriptor : Option Descriptor}
    {record result : Record} {fields : List (String × Json)}
    (h : decodeFields registry limits descriptor depth record fields = .ok result)
    (within : ∀ field ∈ fields, Relimited registry limits limits' depth field.2) :
    Judged limits' (fun d j => ∃ field ∈ fields, Visited depth field.2 d j) result
      (decodeFields registry limits' descriptor depth record fields) := by
  induction fields generalizing record with
  | nil =>
      rw [decodeFields] at h ⊢
      obtain rfl := Except.ok.inj h
      exact .nil record
  | cons field rest ih =>
      obtain ⟨name, json⟩ := field
      obtain ⟨hfield, hrest⟩ := List.forall_mem_cons.mp within
      simp only [decodeFields, bind_eq_ok] at h
      obtain ⟨value, hvalue, written, hset, h⟩ := h
      have hrun : Judged limits' (fun d j => ∃ field ∈ rest, Visited depth field.2 d j) result
          (record.set name value >>= fun record =>
            decodeFields registry limits' descriptor depth record rest) := by
        rw [hset, ok_bind]
        exact ih h hrest
      rw [decodeFields]
      exact Judged.cons (V := fun (field : String × Json) => Visited depth field.2)
        (hfield _ _ hvalue) hrun

theorem checkCount_judged (limits' : Limits) (depth : Nat) (items : List Json) :
    Judged limits' (fun d j => d = depth ∧ j = .array items) ()
      (checkCount limits' items.length) := by
  unfold checkCount
  split
  · rename_i hcount
    exact .inr ⟨_, _, _, rfl, ⟨rfl, rfl⟩, .long (.array items) hcount⟩
  · rename_i hcount
    refine .inl ⟨rfl, ?_⟩
    rintro _ _ e ⟨rfl, rfl⟩ (_ | ⟨_ | _, hlong⟩)
    exact hcount hlong

theorem contents_judged {place : Place} {fields : List (String × Json)} {contained : Contents}
    (h : contents registry limits place fields = .ok contained) (limits' : Limits) :
    Judged limits' (fun d j => d = place.depth ∧ j = .object fields) contained
      (contents registry limits' place fields) := by
  rw [contents_of_ok h limits']
  split
  · rename_i hd
    exact .inr ⟨_, _, _, rfl, ⟨rfl, rfl⟩, .deep hd⟩
  · rename_i hd
    split
    · rename_i hw
      refine .inl ⟨rfl, ?_⟩
      rintro _ _ e ⟨rfl, rfl⟩ (hdeep | ⟨_ | hwrapper, _⟩)
      · exact hd hdeep
      · exact wrapper?_eq_none.mp hw _ hwrapper
    · rename_i wrapper hw
      unfold checkCount
      split
      · rename_i hcount
        exact .inr ⟨_, _, _, rfl, ⟨rfl, rfl⟩, .long (.entries (wrapper?_eq_some_iff.mp hw)) hcount⟩
      · rename_i hcount
        refine .inl ⟨rfl, ?_⟩
        rintro _ _ e ⟨rfl, rfl⟩ (hdeep | ⟨_ | hwrapper, hlong⟩)
        · exact hd hdeep
        · obtain rfl := Option.some.inj ((wrapper?_eq_some_iff.mpr hwrapper).symm.trans hw)
          exact hcount hlong

theorem decodeObject_judged (place : Place) {fields : List (String × Json)} {r : Record}
    (h : decodeObject registry limits place.hint place.depth fields = .ok r)
    (within : ∀ {json : Json}, sizeOf json < sizeOf (Json.object fields) →
      Relimited registry limits limits' (place.depth + 1) json) :
    Judged limits' (Visited place.depth (.object fields)) r
      (decodeObject registry limits' place.hint place.depth fields) := by
  obtain ⟨contained, hc, h⟩ := decodeObject_eq_ok.mp h
  have found := contained.found hc
  have hfields := decodeFields_judged limits' h
    fun field hm => within (found.smaller field hm)
  rw [decodeObject_eq_bind hc limits']
  refine ((contents_judged hc limits').bind hfields).congr ?_
  intro depth json e hb
  rw [visited_iff]
  have hnull : ∀ {part}, Visited (place.depth + 1) part depth json → part ≠ .null := by
    rintro _ hv rfl
    exact not_breaks_leaf (by simp) (by simp) hv hb
  refine or_congr Iff.rfl ⟨?_, ?_⟩
  · rintro ⟨⟨name, part⟩, hm, hv⟩
    exact ⟨part, (visits_object hc (hnull hv)).mpr ⟨name, hm⟩, hv⟩
  · rintro ⟨part, hp, hv⟩
    obtain ⟨name, hm⟩ := (visits_object hc (hnull hv)).mp hp
    exact ⟨(name, part), hm, hv⟩

/-- The induction is on the size of the JSON value, as what is decoded within a wrapper lies several
objects deep. -/
theorem decodeValue_judged (registry : Registry) (limits limits' : Limits) (depth : Nat)
    (json : Json) : Relimited registry limits limits' depth json := by
  induction hsize : sizeOf json using Nat.strongRecOn generalizing depth json with
  | ind size ih =>
      intro hint value h
      have leaf : (∀ items, json ≠ .array items) → (∀ fields, json ≠ .object fields) →
          decodeValue registry limits' hint depth json = .ok value →
          Judged limits' (Visited depth json) value
            (decodeValue registry limits' hint depth json) :=
        fun ha ho hsame => .inl ⟨hsame, fun _ _ _ hv => not_breaks_leaf ha ho hv⟩
      cases json with
      | array items =>
          simp only [decodeValue, bind_eq_ok] at h ⊢
          obtain ⟨_, _, values, hvalues, h⟩ := h
          have within : ∀ item ∈ items, Relimited registry limits limits' (depth + 1) item := by
            intro item hi
            have hlt := List.sizeOf_lt_of_mem hi
            refine ih _ ?_ (depth + 1) item rfl
            rw [← hsize, Json.array.sizeOf_spec]
            omega
          have hitems := (decodeItems_judged hvalues within).map Value.array
          rw [← Except.ok.inj h]
          refine ((checkCount_judged limits' depth items).bind hitems).congr ?_
          intro d j e _
          rw [visited_iff]
          simp only [visits_array]
      | object fields =>
          rw [decodeValue_object, map_eq_ok] at h
          obtain ⟨r, hr, rfl⟩ := h
          rw [decodeValue_object]
          refine (decodeObject_judged ⟨hint, depth⟩ hr ?_).map Value.record
          intro json hlt
          exact ih _ (hsize ▸ hlt) _ json rfl
      | _ =>
          refine leaf (by simp) (by simp) ?_
          simpa only [decodeValue] using h

theorem fits_iff {payload : Json} : Fits limits payload ↔
    ∀ depth json e, Visited 0 payload depth json → ¬Breaks limits depth json e := by
  constructor
  · rintro h depth json e hv (hdeep | ⟨hl, hlong⟩)
    · exact Nat.not_lt.mpr hdeep (h.shallow _ _ hv)
    · exact Nat.not_lt.mpr (h.short _ _ _ hv hl) hlong
  · intro h
    exact ⟨fun depth fields hv => Nat.not_le.mp fun hdeep => h _ _ _ hv (.deep hdeep),
      fun depth json count hv hl => Nat.not_lt.mp fun hlong => h _ _ _ hv (.long hl hlong)⟩

theorem Fits.mono {payload : Json} (h : Fits limits payload)
    (hdepth : limits.maxDepth ≤ limits'.maxDepth) (hitems : limits.maxItems ≤ limits'.maxItems) :
    Fits limits' payload where
  shallow depth fields hv := Nat.lt_of_lt_of_le (h.shallow depth fields hv) hdepth
  short depth json count hv hl := Nat.le_trans (h.short depth json count hv hl) hitems

theorem decode_judged {typeName : String} {payload : Json} {r : Record}
    (h : decode registry limits typeName payload = .ok r) (limits' : Limits) :
    Judged limits' (Visited 0 payload) r (decode registry limits' typeName payload) := by
  cases payload with
  | object fields =>
      exact decodeObject_judged ⟨typeName, 0⟩ h
        fun _ => decodeValue_judged registry limits limits' _ _
  | _ => cases h

/-- If no shorter lists are asked for, only depth can be at fault. -/
theorem decode_deepened {typeName : String} {payload : Json} {r : Record}
    (h : decode registry limits typeName payload = .ok r)
    (hitems : limits.maxItems ≤ limits'.maxItems) (hfits : ¬Fits limits' payload) :
    decode registry limits' typeName payload = .error (.depthExceeded limits'.maxDepth) := by
  rcases decode_judged h limits' with ⟨_, hkeeps⟩ | ⟨e, depth, json, he, hv, hb⟩
  · exact absurd (fits_iff.mpr hkeeps) hfits
  · cases hb with
    | deep _ => exact he
    | long hlists hlong =>
        rcases decode_judged h limits with ⟨_, hkeeps⟩ | ⟨_, _, _, hr, _, _⟩
        · exact absurd (.long hlists (Nat.lt_of_le_of_lt hitems hlong)) (hkeeps _ _ _ hv)
        · cases h.symm.trans hr

/-- Of a reply that some limits let pass, all others let pass the same record if the reply fits
them, and refuse it for something in it that breaks them if it does not. So raising the limits
never changes a record. -/
theorem decode_limits {typeName : String} {payload : Json} {r : Record}
    (h : decode registry limits typeName payload = .ok r) :
    (∀ limits',
      (Fits limits' payload → decode registry limits' typeName payload = .ok r) ∧
      (¬Fits limits' payload → ∃ e depth json,
        decode registry limits' typeName payload = .error e ∧ Visited 0 payload depth json ∧
          Breaks limits' depth json e)) ∧
    ∀ limits', limits.maxDepth ≤ limits'.maxDepth → limits.maxItems ≤ limits'.maxItems →
      decode registry limits' typeName payload = .ok r := by
  have exact : ∀ limits',
      (Fits limits' payload → decode registry limits' typeName payload = .ok r) ∧
      (¬Fits limits' payload → ∃ e depth json,
        decode registry limits' typeName payload = .error e ∧ Visited 0 payload depth json ∧
          Breaks limits' depth json e) := by
    intro limits'
    rcases decode_judged h limits' with ⟨hr, hkeeps⟩ | ⟨e, depth, json, hr, hv, hb⟩
    · exact ⟨fun _ => hr, fun hfits => absurd (fits_iff.mpr hkeeps) hfits⟩
    · exact ⟨fun hfits => absurd hb (fits_iff.mp hfits depth json e hv),
        fun _ => ⟨e, depth, json, hr, hv, hb⟩⟩
  have fits : Fits limits payload := by
    by_contra hfits
    obtain ⟨e, _, _, he, _⟩ := (exact limits).2 hfits
    cases he.symm.trans h
  exact ⟨exact, fun limits' hdepth hitems => (exact limits').1 (fits.mono hdepth hitems)⟩

/-- An object three deep and a list of two, and a wrapper with one entry and a key that is not
decoded. -/
def visitReply : Json :=
  .object [("lines", .array [.array [.object [("text", .string "x")]], .null]),
    ("owner", .object [("EntityType", .object [("Name", .string "Person")]),
      ("more", .array [.array [.array [.array []]], .null, .null]),
      ("FieldValueCollection", .object [("EntityFields",
        .object [("InternalName", .string "home"), ("Value", .object [("ID", .ofInt64 4)])])])])]

def visitRecord : Record :=
  ⟨"Visit", .struct, none,
    [("lines", .array [.array [.record ⟨"lines", .struct, none, [("text", .string "x")]⟩], .null]),
     ("owner", .record ⟨"Person", .entity "Base", none,
      [("home", .record ⟨"home", .struct, some 4, []⟩)]⟩)]⟩

theorem decode_limits_visit :
    decode .empty ⟨4, 2⟩ "Visit" visitReply = .ok visitRecord ∧
    (∀ limits',
      (Fits limits' visitReply → decode .empty limits' "Visit" visitReply = .ok visitRecord) ∧
      (¬Fits limits' visitReply → ∃ e depth json,
        decode .empty limits' "Visit" visitReply = .error e ∧ Visited 0 visitReply depth json ∧
          Breaks limits' depth json e)) ∧
    ∀ limits' : Limits, 4 ≤ limits'.maxDepth → 2 ≤ limits'.maxItems →
      decode .empty limits' "Visit" visitReply = .ok visitRecord := by
  have h : decode .empty ⟨4, 2⟩ "Visit" visitReply = .ok visitRecord := by rfl
  exact ⟨h, decode_limits h⟩

example : decode .empty ⟨3, 2⟩ "Visit" visitReply = .error (.depthExceeded 3) ∧
    decode .empty ⟨4, 1⟩ "Visit" visitReply = .error (.arrayTooLarge 2 1) := by
  constructor <;> rfl

end RecordSchema.Reply
