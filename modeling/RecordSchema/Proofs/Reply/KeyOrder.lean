import RecordSchema.Proofs.Reply.Held
import RecordSchema.Proofs.Reply.Readable

/-! The order of keys in a reply makes no difference to what it is decoded to, but for the order in
which structs store their fields. -/

namespace RecordSchema

/-- Two JSON values that differ only in the order of the keys of objects, at any depth. Where a key
is repeated, every two of its values have to be such. -/
inductive Json.Reordered : Json → Json → Prop
  | same (json : Json) : Reordered json json
  | array {items items' : List Json} : items.length = items'.length →
      (∀ item item', (item, item') ∈ items.zip items' → Reordered item item') →
      Reordered (.array items) (.array items')
  | object {fields fields' : List (String × Json)} :
      (Fields.names fields).Perm (Fields.names fields') →
      (∀ name value value', (name, value) ∈ fields → (name, value') ∈ fields' →
        Reordered value value') →
      Reordered (.object fields) (.object fields')

/-- Two values that differ only in the order of the fields of structs, at any depth. -/
inductive Value.Reordered : Value → Value → Prop
  | same (value : Value) : Reordered value value
  | array {items items' : List Value} : items.length = items'.length →
      (∀ item item', (item, item') ∈ items.zip items' → Reordered item item') →
      Reordered (.array items) (.array items')
  | record {r r' : Record} : r.typeName = r'.typeName → r.shape = r'.shape →
      r.identity = r'.identity → r.names.Perm r'.names →
      (r.shape ≠ .struct → r.names = r'.names) →
      (∀ name value value', (name, value) ∈ r.fields → (name, value') ∈ r'.fields →
        Reordered value value') →
      Reordered (.record r) (.record r')

namespace Json.Reordered

theorem symm {json json' : Json} (h : Reordered json json') : Reordered json' json := by
  induction h with
  | same json => exact .same json
  | array hlength _ ih =>
      have hflip := (List.forall₂_iff_zip.mpr ⟨hlength, fun {_ _} => ih _ _⟩).flip
      exact .array hlength.symm fun _ _ => (List.forall₂_iff_zip.mp hflip).2
  | object hnames _ ih =>
      exact .object hnames.symm fun name value value' hv hv' => ih name value' value hv' hv

/-- The keys of an object, if they are distinct, may stand in any order. -/
theorem of_perm {fields middle fields' : List (String × Json)}
    (distinct : (Fields.names fields).Nodup) (hp : fields.Perm middle)
    (hv : List.Forall₂ (fun a b => a.1 = b.1 ∧ Reordered a.2 b.2) middle fields') :
    Reordered (.object fields) (.object fields') := by
  have hmiddle : (Fields.names fields).Perm (Fields.names middle) := hp.map _
  have hnames : Fields.names middle = Fields.names fields' := Fields.names_eq_of_forall₂ hv
  refine .object (hnames ▸ hmiddle) ?_
  intro name value value' hm hm'
  have hd : (Fields.names middle).Nodup := hmiddle.nodup_iff.mp distinct
  have hrel := Fields.rel_lookup_of_forall₂ hv name
  rw [Fields.lookup_of_mem hd (hp.mem_iff.mp hm), Fields.lookup_of_mem (hnames ▸ hd) hm'] at hrel
  cases hrel with
  | some h => exact h

variable {fields fields' : List (String × Json)}

theorem array_iff {items items' : List Json} :
    Reordered (.array items) (.array items') ↔ List.Forall₂ Reordered items items' := by
  constructor
  · intro h
    cases h with
    | same => exact List.forall₂_same.mpr fun item _ => .same item
    | array hlength hitems => exact List.forall₂_iff_zip.mpr ⟨hlength, fun {_ _} => hitems _ _⟩
  · intro h
    obtain ⟨hlength, hitems⟩ := List.forall₂_iff_zip.mp h
    exact .array hlength fun _ _ => hitems

theorem lookup (h : Reordered (.object fields) (.object fields')) (name : String) :
    Option.Rel Reordered (Fields.lookup name fields) (Fields.lookup name fields') := by
  cases h with
  | same => exact rel_self .same _
  | object hnames hvalues => exact Fields.rel_lookup hnames.mem_iff (hvalues name)

end Json.Reordered

namespace Reply

open Json (Reordered)

/-! ## What two objects hold -/

/-- Two lists of fields that are written with the same effect: each field of the second has a mate
in the first, and the last fields of each name are mates. -/
structure Matched (fields fields' : List (String × Json)) : Prop where
  mate : ∀ {name json'}, (name, json') ∈ fields' →
    ∃ json, (name, json) ∈ fields ∧ Reordered json json'
  last : ∀ name, Option.Rel Reordered (Fields.lookup name fields.reverse)
    (Fields.lookup name fields'.reverse)

variable {registry : Registry} {limits : Limits} {wrapper : Wrapper}
  {fields fields' : List (String × Json)}

theorem matched_of_reordered (h : Reordered (.object fields) (.object fields')) :
    Matched fields fields' := by
  cases h with
  | same => exact ⟨fun hm => ⟨_, hm, .same _⟩, fun name => rel_self .same _⟩
  | object hnames hvalues =>
      constructor
      · intro name json' hm'
        obtain ⟨json, hm⟩ := Fields.mem_names.mp
          (hnames.mem_iff.mpr (Fields.mem_names.mpr ⟨json', hm'⟩))
        exact ⟨json, hm, hvalues name json json' hm hm'⟩
      · intro name
        refine Fields.rel_lookup ?_ ?_
        · simpa [Fields.names] using hnames.mem_iff (a := name)
        · intro json json' hm hm'
          exact hvalues name json json' (List.mem_reverse.mp hm) (List.mem_reverse.mp hm')

theorem matched_of_forall₂
    (h : List.Forall₂ (fun a b => a.1 = b.1 ∧ Reordered a.2 b.2) fields fields') :
    Matched fields fields' := by
  refine ⟨?_, Fields.rel_lookup_of_forall₂ (List.forall₂_reverse_iff.mpr h)⟩
  induction h with
  | nil => exact fun hm => absurd hm List.not_mem_nil
  | @cons first _ _ _ hfirst _ ih =>
      intro name json' hm'
      rcases List.mem_cons.mp hm' with rfl | hm'
      · obtain rfl : first.1 = name := hfirst.1
        exact ⟨first.2, List.mem_cons_self, hfirst.2⟩
      · obtain ⟨json, hm, hr⟩ := ih hm'
        exact ⟨json, List.mem_cons_of_mem _ hm, hr⟩

/-! ## Headers -/

theorem wrapper?_reordered (h : Reordered (.object fields) (.object fields')) :
    wrapper? fields = wrapper? fields' := by
  have hsome : ∀ key, (Fields.lookup key fields).isSome = (Fields.lookup key fields').isSome :=
    fun key => congr_of_rel (h.lookup key) Option.isSome fun _ => rfl
  simp only [wrapper?, hsome]

theorem wrapperIdentity_reordered (h : Reordered (.object fields) (.object fields')) :
    wrapperIdentity fields = wrapperIdentity fields' := by
  have hrel := h.lookup Wrapper.identityKey
  unfold wrapperIdentity
  generalize Fields.lookup Wrapper.identityKey fields = found,
    Fields.lookup Wrapper.identityKey fields' = found' at hrel ⊢
  cases hrel with
  | none => rfl
  | some hv => cases hv <;> rfl

theorem stringAt_reordered (h : Reordered (.object fields) (.object fields')) (key : String) :
    stringAt key fields = stringAt key fields' := by
  refine congr_of_rel (h.lookup key) (·.bind Json.string?) ?_
  intro json json' hv
  cases hv <;> rfl

theorem rel_object? {found found' : Option Json} (h : Option.Rel Reordered found found') :
    Option.Rel (fun a b => Reordered (.object a) (.object b)) (found.bind Json.object?)
      (found'.bind Json.object?) := by
  cases h with
  | none => exact .none
  | @some json _ hv =>
      cases hv with
      | same =>
          exact rel_self (fun _ => .same _) _
      | array => exact .none
      | object hnames hvalues => exact .some (.object hnames hvalues)

theorem wrapperHeader_reordered (h : Reordered (.object fields) (.object fields')) :
    wrapperHeader wrapper fields = wrapperHeader wrapper fields' := by
  have htype : Reordered
      (.object (((Fields.lookup wrapper.typeKey fields).bind Json.object?).getD []))
      (.object (((Fields.lookup wrapper.typeKey fields').bind Json.object?).getD [])) := by
    have hrel := rel_object? (h.lookup wrapper.typeKey)
    generalize (Fields.lookup wrapper.typeKey fields).bind Json.object? = found,
      (Fields.lookup wrapper.typeKey fields').bind Json.object? = found' at hrel ⊢
    cases hrel with
    | none => exact .same _
    | some hv => exact hv
  simp only [wrapperHeader, stringAt_reordered htype]

theorem opening_reordered (h : Reordered (.object fields) (.object fields')) (hint : String)
    (depth : Nat) : opening limits hint depth fields = opening limits hint depth fields' := by
  simp only [opening, wrapper?_reordered h, wrapperIdentity_reordered h, wrapperHeader_reordered h]

/-! ## Entries -/

theorem entries?_reordered (h : Reordered (.object fields) (.object fields')) :
    Option.Rel Reordered (entries? wrapper fields) (entries? wrapper fields') := by
  have hrel := rel_object? (h.lookup Wrapper.collectionKey)
  unfold entries?
  generalize (Fields.lookup Wrapper.collectionKey fields).bind Json.object? = found,
    (Fields.lookup Wrapper.collectionKey fields').bind Json.object? = found' at hrel ⊢
  cases hrel with
  | none => exact .none
  | some hv => exact hv.lookup wrapper.entriesKey

theorem entryList_reordered (h : Reordered (.object fields) (.object fields'))
    {entries : List Json} (he : entryList limits wrapper fields = .ok entries) :
    ∃ entries', entryList limits wrapper fields' = .ok entries' ∧
      List.Forall₂ Reordered entries entries' := by
  have hrel := @entries?_reordered wrapper _ _ h
  unfold entryList at he ⊢
  generalize entries? wrapper fields = found, entries? wrapper fields' = found' at hrel he ⊢
  cases hrel with
  | none => exact ⟨entries, he, List.forall₂_same.mpr fun entry _ => .same entry⟩
  | some hv =>
      cases hv with
      | same => exact ⟨entries, he, List.forall₂_same.mpr fun entry _ => .same entry⟩
      | @array items items' hlength hitems =>
          simp only [bind_eq_ok] at he ⊢
          obtain ⟨_, hcount, he⟩ := he
          rw [hlength] at hcount
          exact ⟨items', ⟨(), hcount, rfl⟩,
            Except.ok.inj he ▸ Reordered.array_iff.mp (.array hlength hitems)⟩
      | @object entry entry' hnames hvalues =>
          simp only [bind_eq_ok] at he ⊢
          obtain ⟨_, hcount, he⟩ := he
          exact ⟨[.object entry'], ⟨(), hcount, rfl⟩,
            Except.ok.inj he ▸ .cons (.object hnames hvalues) .nil⟩

theorem entryPair_reordered {entry entry' : Json} (h : Reordered entry entry')
    (pair : String × Json) (hp : entryPair wrapper entry = .ok pair) :
    ∃ pair', entryPair wrapper entry' = .ok pair' ∧
      pair.1 = pair'.1 ∧ Reordered pair.2 pair'.2 := by
  obtain ⟨name, json⟩ := pair
  obtain ⟨fields, rfl, hname, rfl⟩ := entryPair_eq_ok.mp hp
  cases h with
  | same => exact ⟨_, hp, rfl, .same _⟩
  | @object _ fields' hnames hvalues =>
      have h : Reordered (.object fields) (.object fields') := .object hnames hvalues
      rw [entryName_eq_ok, stringAt_reordered h, ← @entryName_eq_ok wrapper] at hname
      refine ⟨_, entryPair_eq_ok.mpr ⟨fields', rfl, hname, rfl⟩, rfl, ?_⟩
      have hrel := h.lookup Wrapper.entryValueKey
      generalize Fields.lookup Wrapper.entryValueKey fields = found,
        Fields.lookup Wrapper.entryValueKey fields' = found' at hrel ⊢
      cases hrel with
      | none => exact .same .null
      | some hv => exact hv

/-- Reordered objects open the same record and hold the same fields: a struct in another order, a
wrapper in the same order. -/
theorem contents_reordered {place : Place} {contained : Contents}
    (h : Reordered (.object fields) (.object fields'))
    (hc : contents registry limits place fields = .ok contained) :
    ∃ held', contents registry limits place fields' = .ok { contained with fields := held' } ∧
      Matched contained.fields held' ∧
      (contained.record.shape ≠ .struct →
        Fields.names contained.fields = Fields.names held') := by
  rw [contents, ← opening_reordered h]
  rcases contents_cases hc with
    ⟨ho, _, rfl⟩ | ⟨wrapper, record, entries, pairs, ho, _, he, hp, rfl⟩
  · rw [ho, ok_bind]
    exact ⟨fields', rfl, matched_of_reordered h, fun hs => absurd rfl hs⟩
  · obtain ⟨entries', he', hentries⟩ := entryList_reordered h he
    obtain ⟨pairs', hp', hpairs⟩ := exists_mapM hp
      (hentries.imp fun _ _ hentry => @entryPair_reordered wrapper _ _ hentry)
    refine ⟨pairs', ?_, matched_of_forall₂ hpairs, fun _ => Fields.names_eq_of_forall₂ hpairs⟩
    simp only [ho, he', hp', ok_bind]
    rfl

/-! ## What is decoded -/

/-- Whatever the first is decoded to, the second is decoded to the same but for the order of the
fields of structs. -/
def Follows (registry : Registry) (limits : Limits) (hint : String) (depth : Nat)
    (json json' : Json) : Prop :=
  ∀ value, decodeValue registry limits hint depth json = .ok value →
    ∃ value', decodeValue registry limits hint depth json' = .ok value' ∧
      Value.Reordered value value'

theorem takes_reordered {name : String} {value value' : Value} (h : Value.Reordered value value')
    (takes : Record.Takes name value) : Record.Takes name value' := by
  intro hi
  rcases takes hi with rfl | ⟨n, rfl⟩
  · cases h
    exact .inl rfl
  · cases h
    exact .inr ⟨n, rfl⟩

theorem shown_reordered {name : String} {value value' : Value}
    (h : Value.Reordered value value') :
    Option.Rel Value.Reordered (Record.shown name value) (Record.shown name value') := by
  have hnull : value.isNull = value'.isNull := by cases h <;> rfl
  unfold Record.shown
  rw [hnull]
  split
  · exact .none
  · exact .some h

/-- Records of one type and shape that show the same under each name differ in the order of
their fields, which for a wrapper has to be the same. -/
theorem record_reordered {r r' : Record} (hr : r.Proper) (hr' : r'.Proper)
    (htype : r.typeName = r'.typeName) (hshape : r.shape = r'.shape)
    (hseen : ∀ name, Option.Rel Value.Reordered (Record.get? r name) (Record.get? r' name))
    (horder : r.shape ≠ .struct → r.names = r'.names) :
    Value.Reordered (.record r) (.record r') := by
  have hstored : ∀ {name}, name ≠ RecordOf.identityName →
      Option.Rel Value.Reordered (r.field? name) (r'.field? name) := by
    intro name hi
    have hrel := hseen name
    rwa [Record.get?, Record.get?, if_neg hi, if_neg hi] at hrel
  refine .record htype hshape ?_ ?_ horder ?_
  · have hrel := hseen RecordOf.identityName
    simp only [Record.get?, if_true] at hrel
    generalize r.identity = identity, r'.identity = identity' at hrel ⊢
    cases identity <;> cases identity' <;> cases hrel
    · rfl
    · rename_i hv
      cases hv
      rfl
  · refine (List.perm_ext_iff_of_nodup hr.nodup hr'.nodup).mpr fun name => ?_
    by_cases hi : name = RecordOf.identityName
    · exact iff_of_false (hi ▸ hr.noIdentity) (hi ▸ hr'.noIdentity)
    · rw [RecordOf.names, RecordOf.names, ← Fields.isSome_lookup, ← Fields.isSome_lookup]
      exact iff_of_eq (congr_of_rel (hstored hi) (·.isSome = true) fun _ => rfl)
  · intro name value value' hv hv'
    have hi : name ≠ RecordOf.identityName := by
      rintro rfl
      exact hr.noIdentity (Fields.mem_names.mpr ⟨value, hv⟩)
    have hrel := hstored hi
    rw [RecordOf.field?, RecordOf.field?, Fields.lookup_of_mem hr.nodup hv,
      Fields.lookup_of_mem hr'.nodup hv'] at hrel
    cases hrel with
    | some h => exact h

/-- Writing matched fields shows the same under each name, if their values are decoded the same. -/
theorem decodeFields_reordered {descriptor : Option Descriptor} {depth : Nat}
    {record result : Record}
    (ih : ∀ {hint name json json'}, (name, json) ∈ fields → Reordered json json' →
      Follows registry limits hint depth json json')
    (matched : Matched fields fields')
    (h : decodeFields registry limits descriptor depth record fields = .ok result) :
    ∃ result', decodeFields registry limits descriptor depth record fields' = .ok result' ∧
      ∀ name, Option.Rel Value.Reordered (Record.get? result name) (Record.get? result' name) := by
  have hall := exists_decodeFields.mp ⟨result, h⟩
  obtain ⟨result', h'⟩ : ∃ result',
      decodeFields registry limits descriptor depth record fields' = .ok result' := by
    refine exists_decodeFields.mpr fun ⟨name, json'⟩ hm' => ?_
    obtain ⟨json, hm, hr⟩ := matched.mate hm'
    obtain ⟨value, hvalue, takes⟩ := hall _ hm
    obtain ⟨value', hvalue', hv⟩ := ih hm hr value hvalue
    exact ⟨value', hvalue', takes_reordered hv takes⟩
  refine ⟨result', h', fun name => ?_⟩
  have hlast := matched.last name
  rcases get?_decodeFields h name with ⟨json, value, hj, hvalue, hseen⟩ | ⟨hj, hseen⟩ <;>
    rcases get?_decodeFields h' name with ⟨json', value', hj', hvalue', hseen'⟩ | ⟨hj', hseen'⟩ <;>
    rw [hj, hj'] at hlast <;> rw [hseen, hseen']
  · cases hlast with
    | some hr =>
        have hm := List.mem_reverse.mp (Fields.mem_of_lookup hj)
        obtain ⟨found, hfound, hv⟩ := ih hm hr value hvalue
        obtain rfl : found = value' := Except.ok.inj (hfound.symm.trans hvalue')
        exact shown_reordered hv
  · cases hlast
  · cases hlast
  · exact rel_self .same _

theorem mapM_reordered {hint : String} {depth : Nat} {items items' : List Json}
    {values : List Value}
    (ih : ∀ {json json'}, sizeOf json < sizeOf (Json.array items) → Reordered json json' →
      Follows registry limits hint depth json json')
    (h : List.Forall₂ Reordered items items')
    (hvalues : items.mapM (decodeValue registry limits hint depth) = .ok values) :
    ∃ values', items'.mapM (decodeValue registry limits hint depth) = .ok values' ∧
      Value.Reordered (.array values) (.array values') := by
  have hsmaller : ∀ item ∈ items, sizeOf item < sizeOf (Json.array items) := by
    intro item hi
    have hlt := List.sizeOf_lt_of_mem hi
    rw [Json.array.sizeOf_spec]
    omega
  have hitems := (List.forall₂_and_left _ _).mpr ⟨hsmaller, h⟩
  have hfollows : List.Forall₂ (Follows registry limits hint depth) items items' :=
    hitems.imp fun _ _ hitem => ih hitem.1 hitem.2
  obtain ⟨values', hvalues', hv⟩ := exists_mapM hvalues hfollows
  obtain ⟨hlength, hzip⟩ := List.forall₂_iff_zip.mp hv
  exact ⟨values', hvalues', .array hlength fun _ _ => hzip⟩

theorem decodeObject_reordered {place : Place} {r : Record}
    (ih : ∀ {hint depth json json'}, sizeOf json < sizeOf (Json.object fields) →
      Reordered json json' → Follows registry limits hint depth json json')
    (h : Reordered (.object fields) (.object fields'))
    (hr : decodeObject registry limits place.hint place.depth fields = .ok r) :
    ∃ r', decodeObject registry limits place.hint place.depth fields' = .ok r' ∧
      Value.Reordered (.record r) (.record r') := by
  obtain ⟨contained, hc, hfields⟩ := decodeObject_eq_ok.mp hr
  have found := contained.found hc
  obtain ⟨held', hc', matched, horder⟩ := contents_reordered h hc
  obtain ⟨r', hfields', hseen⟩ := decodeFields_reordered
    (fun hm => ih (found.smaller _ hm)) matched hfields
  have decoded := found.decoded hfields
  have decoded' := (Contents.found hc').decoded hfields'
  refine ⟨r', decodeObject_eq_ok.mpr ⟨_, hc', hfields'⟩, ?_⟩
  refine record_reordered decoded.proper decoded'.proper
    (decoded.typeName.trans decoded'.typeName.symm) (decoded.shape.trans decoded'.shape.symm)
    hseen ?_
  intro hs
  exact names_decodeFields hfields hfields' rfl (horder (decoded.shape ▸ hs))

/-- The induction is on the size of the first value, since the entries of a wrapper lie several
objects deep. -/
theorem decodeValue_reordered {hint : String} {depth : Nat} {json json' : Json}
    (hr : Reordered json json') : Follows registry limits hint depth json json' := by
  induction hsize : sizeOf json using Nat.strongRecOn generalizing hint depth json json' with
  | ind size ih =>
      intro value h
      cases hr with
      | same => exact ⟨value, h, .same value⟩
      | @array items items' hlength hitems =>
          simp only [decodeValue, bind_eq_ok, decodeItems_eq_mapM] at h ⊢
          obtain ⟨_, hcount, values, hvalues, h⟩ := h
          rw [hlength] at hcount
          obtain ⟨values', hvalues', hv⟩ := mapM_reordered
            (fun hlt hr => ih _ (hsize ▸ hlt) hr rfl)
            (Reordered.array_iff.mp (.array hlength hitems)) hvalues
          exact ⟨.array values', ⟨(), hcount, values', hvalues', rfl⟩, Except.ok.inj h ▸ hv⟩
      | @object fields fields' hnames hvalues =>
          rw [decodeValue_object, map_eq_ok] at h
          obtain ⟨r, hr, rfl⟩ := h
          obtain ⟨r', hr', hv⟩ := @decodeObject_reordered registry limits fields fields'
            ⟨hint, depth⟩ r (fun hlt hr => ih _ (hsize ▸ hlt) hr rfl) (.object hnames hvalues) hr
          exact ⟨.record r', by rw [decodeValue_object, hr']; rfl, hv⟩

theorem exists_decode_of_reordered {typeName : String} {payload payload' : Json} {r : Record}
    (h : Reordered payload payload') (hr : decode registry limits typeName payload = .ok r) :
    ∃ r', decode registry limits typeName payload' = .ok r' ∧
      Value.Reordered (.record r) (.record r') := by
  obtain ⟨value, hvalue, hv⟩ := decodeValue_reordered h _ (decode_eq_ok.mp hr)
  cases hv with
  | same => exact ⟨r, decode_eq_ok.mpr hvalue, .same _⟩
  | @record _ r' htype hshape hidentity hnames horder hvalues =>
      exact ⟨r', decode_eq_ok.mpr hvalue,
        .record htype hshape hidentity hnames horder hvalues⟩

/-- Reordered replies are both accepted or both refused, and their records differ at most in the
order in which structs store their fields. -/
theorem decode_reordered {typeName : String} {payload payload' : Json}
    (h : Reordered payload payload') :
    ((∃ r, decode registry limits typeName payload = .ok r) ↔
      ∃ r', decode registry limits typeName payload' = .ok r') ∧
    ∀ r r', decode registry limits typeName payload = .ok r →
      decode registry limits typeName payload' = .ok r' →
      Value.Reordered (.record r) (.record r') := by
  refine ⟨⟨?_, ?_⟩, ?_⟩
  · rintro ⟨r, hr⟩
    obtain ⟨r', hr', _⟩ := exists_decode_of_reordered h hr
    exact ⟨r', hr'⟩
  · rintro ⟨r', hr'⟩
    obtain ⟨r, hr, _⟩ := exists_decode_of_reordered h.symm hr'
    exact ⟨r, hr⟩
  · intro r r' hr hr'
    obtain ⟨found, hfound, hv⟩ := exists_decode_of_reordered h hr
    obtain rfl : found = r' := Except.ok.inj (hfound.symm.trans hr')
    exact hv

/-- An identity before a wrapper's keys, which have their own order, and an array of objects. -/
def shelfReply : Json :=
  .object [("ID", .ofInt64 1),
    ("owner", .object [("Id", .ofInt64 7),
      ("EntityType", .object [("Name", .string "Person"), ("Type", .string "Main")]),
      ("FieldValueCollection", .object [("EntityFields", .array
        [.object [("InternalName", .string "home"), ("Value", .bool true)],
         .object [("InternalName", .string "age")]])])]),
    ("books", .array [.object [("title", .string "x"), ("ID", .ofInt64 4)], .null])]

/-- The same reply with the keys of every object in reverse. -/
def shelfReplyReversed : Json :=
  .object [("books", .array [.object [("ID", .ofInt64 4), ("title", .string "x")], .null]),
    ("owner", .object [("FieldValueCollection", .object [("EntityFields", .array
        [.object [("Value", .bool true), ("InternalName", .string "home")],
         .object [("InternalName", .string "age")]])]),
      ("EntityType", .object [("Type", .string "Main"), ("Name", .string "Person")]),
      ("Id", .ofInt64 7)]),
    ("ID", .ofInt64 1)]

def shelfOwner : Record :=
  ⟨"Person", .entity "Main", some 7, [("home", .bool true), ("age", .null)]⟩

def shelfBooks : Value :=
  .array [.record ⟨"books", .struct, some 4, [("title", .string "x")]⟩, .null]

theorem reordered_shelfReply : Reordered shelfReply shelfReplyReversed := by
  have reversed : ∀ {fields fields' : List (String × Json)}, (Fields.names fields).Nodup →
      List.Forall₂ (fun a b => a.1 = b.1 ∧ Reordered a.2 b.2) fields.reverse fields' →
      Reordered (.object fields) (.object fields') :=
    fun distinct hv => .of_perm distinct (List.reverse_perm _).symm hv
  have same : ∀ {name : String} {json : Json}, (name, json).1 = (name, json).1 ∧
      Reordered (name, json).2 (name, json).2 := ⟨rfl, .same _⟩
  refine reversed (by decide) (.cons ⟨rfl, ?books⟩ (.cons ⟨rfl, ?owner⟩ (.cons same .nil)))
  case books =>
    refine Reordered.array_iff.mpr (.cons ?_ (.cons (.same _) .nil))
    exact reversed (by decide) (.cons same (.cons same .nil))
  case owner =>
    refine reversed (by decide) (.cons ⟨rfl, ?_⟩ (.cons ⟨rfl, ?_⟩ (.cons same .nil)))
    · refine reversed (by decide) (.cons ⟨rfl, Reordered.array_iff.mpr ?_⟩ .nil)
      refine .cons ?_ (.cons (.same _) .nil)
      exact reversed (by decide) (.cons same (.cons same .nil))
    · exact reversed (by decide) (.cons same (.cons same .nil))

theorem decode_reordered_shelf :
    Reordered shelfReply shelfReplyReversed ∧
    ((∃ r, decode .empty {} "Shelf" shelfReply = .ok r) ↔
      ∃ r', decode .empty {} "Shelf" shelfReplyReversed = .ok r') ∧
    decode .empty {} "Shelf" shelfReply =
      .ok ⟨"Shelf", .struct, some 1, [("owner", .record shelfOwner), ("books", shelfBooks)]⟩ ∧
    decode .empty {} "Shelf" shelfReplyReversed =
      .ok ⟨"Shelf", .struct, some 1, [("books", shelfBooks), ("owner", .record shelfOwner)]⟩ ∧
    Value.Reordered
      (.record ⟨"Shelf", .struct, some 1, [("owner", .record shelfOwner), ("books", shelfBooks)]⟩)
      (.record ⟨"Shelf", .struct, some 1, [("books", shelfBooks), ("owner", .record shelfOwner)]⟩)
    := by
  obtain ⟨accepted, related⟩ := @decode_reordered .empty {} "Shelf" _ _ reordered_shelfReply
  exact ⟨reordered_shelfReply, accepted, by rfl, by rfl, related _ _ (by rfl) (by rfl)⟩

end Reply

end RecordSchema
