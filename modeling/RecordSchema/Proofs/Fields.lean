import Mathlib.Data.List.Dedup
import Mathlib.Data.List.Forall2
import Mathlib.Data.List.Induction
import Mathlib.Data.List.Nodup
import RecordSchema.Fields

/-! Laws of named entries: what is found, and what an assignment does to names and entries. -/

namespace RecordSchema.Fields
variable {α : Type}

@[simp] theorem names_nil : names ([] : List (String × α)) = [] := rfl

@[simp] theorem names_cons (entry : String × α) (rest : List (String × α)) :
    names (entry :: rest) = entry.1 :: names rest := rfl

@[simp] theorem names_append (front back : List (String × α)) :
    names (front ++ back) = names front ++ names back := by
  simp [names]

theorem length_names (fields : List (String × α)) : (names fields).length = fields.length := by
  simp [names]

/-- Distinct names are counted by the distinct ones among those that they are drawn from. -/
theorem length_eq_dedup {drawn others : List String} (distinct : drawn.Nodup)
    (same : ∀ name, name ∈ drawn ↔ name ∈ others) : drawn.length = others.dedup.length := by
  have perm : drawn.Perm others.dedup := by
    refine (List.perm_ext_iff_of_nodup distinct (List.nodup_dedup others)).mpr fun name => ?_
    rw [same, List.mem_dedup]
  exact perm.length_eq

theorem mem_names {name : String} {fields : List (String × α)} :
    name ∈ names fields ↔ ∃ value, (name, value) ∈ fields := by
  simp [names]

theorem isSome_lookup {name : String} {fields : List (String × α)} :
    (lookup name fields).isSome = true ↔ name ∈ names fields := by
  rw [Option.isSome_iff_ne_none, ne_eq, lookup_eq_none_iff, Decidable.not_not]

theorem mem_of_lookup {name : String} {fields : List (String × α)} {value : α}
    (h : lookup name fields = some value) : (name, value) ∈ fields := by
  induction fields with
  | nil => simp [lookup] at h
  | cons entry rest ih =>
      obtain ⟨key, old⟩ := entry
      simp only [lookup] at h
      split at h
      · rename_i hk
        obtain rfl := Option.some.inj h
        rw [hk]
        exact List.mem_cons_self
      · exact List.mem_cons_of_mem _ (ih h)

theorem lookup_of_mem {name : String} {fields : List (String × α)} {value : α}
    (h : (names fields).Nodup) (hm : (name, value) ∈ fields) :
    lookup name fields = some value := by
  induction fields with
  | nil => cases hm
  | cons entry rest ih =>
      obtain ⟨hname, hrest⟩ := List.nodup_cons.mp h
      rcases List.mem_cons.mp hm with rfl | hm
      · rw [lookup, if_pos rfl]
      · have hne : entry.1 ≠ name := by
          rintro rfl
          exact hname (mem_names.mpr ⟨value, hm⟩)
        rw [lookup, if_neg hne]
        exact ih hrest hm

theorem lookup_append (name : String) (front back : List (String × α)) :
    lookup name (front ++ back) = (lookup name front).or (lookup name back) := by
  induction front with
  | nil => rfl
  | cons entry rest ih =>
      by_cases hk : entry.1 = name
      · simp [lookup, hk]
      · simpa [lookup, hk] using ih

section
variable {β : Type} {R : α → β → Prop} {fields : List (String × α)} {others : List (String × β)}
  {name : String}

/-- What two lists have under one name is related if both or neither have it. -/
theorem rel_lookup (hn : name ∈ names fields ↔ name ∈ names others)
    (hv : ∀ a b, (name, a) ∈ fields → (name, b) ∈ others → R a b) :
    Option.Rel R (lookup name fields) (lookup name others) := by
  cases ha : lookup name fields with
  | none =>
      rw [lookup_eq_none_iff.mpr (mt hn.mpr (lookup_eq_none_iff.mp ha))]
      exact .none
  | some a =>
      have hname : name ∈ names others := hn.mp (mem_names.mpr ⟨a, mem_of_lookup ha⟩)
      obtain ⟨b, hb⟩ := Option.isSome_iff_exists.mp (isSome_lookup.mpr hname)
      rw [hb]
      exact .some (hv a b (mem_of_lookup ha) (mem_of_lookup hb))

theorem names_eq_of_forall₂
    (h : List.Forall₂ (fun a b => a.1 = b.1 ∧ R a.2 b.2) fields others) :
    names fields = names others := by
  induction h with
  | nil => rfl
  | cons hfirst _ ih => rw [names_cons, names_cons, hfirst.1, ih]

theorem rel_lookup_of_forall₂
    (h : List.Forall₂ (fun a b => a.1 = b.1 ∧ R a.2 b.2) fields others) (name : String) :
    Option.Rel R (lookup name fields) (lookup name others) := by
  induction h with
  | nil => exact .none
  | @cons first other rest others hfirst _ ih =>
      simp only [lookup, hfirst.1]
      split
      · exact .some hfirst.2
      · exact ih

end

/-- An assignment adds its own entry and no other. -/
theorem mem_of_mem_assign {name : String} {value : α} {fields : List (String × α)}
    {entry : String × α} (h : entry ∈ assign name value fields) :
    entry = (name, value) ∨ entry ∈ fields := by
  induction fields with
  | nil => exact .inl (List.mem_singleton.mp h)
  | cons first rest ih =>
      simp only [assign] at h
      split at h
      · rename_i hk
        rcases List.mem_cons.mp h with h | h
        · exact .inl (hk ▸ h)
        · exact .inr (List.mem_cons_of_mem _ h)
      · rcases List.mem_cons.mp h with h | h
        · exact .inr (h ▸ List.mem_cons_self)
        · exact (ih h).imp_right (List.mem_cons_of_mem _)

/-- A name that is taken keeps its place, and so does every entry around it. -/
theorem assign_of_mem {name : String} {fields : List (String × α)} (h : name ∈ names fields)
    (value : α) :
    ∃ front old back, fields = front ++ (name, old) :: back ∧
      assign name value fields = front ++ (name, value) :: back := by
  induction fields with
  | nil => cases h
  | cons entry rest ih =>
      obtain ⟨key, old⟩ := entry
      by_cases hk : key = name
      · subst hk
        exact ⟨[], old, rest, rfl, by rw [assign, if_pos rfl, List.nil_append]⟩
      · obtain ⟨front, found, back, rfl, ha⟩ := ih ((List.mem_cons.mp h).resolve_left (Ne.symm hk))
        refine ⟨(key, old) :: front, found, back, rfl, ?_⟩
        rw [assign, if_neg hk, ha, List.cons_append]

/-- A name that is taken keeps its place, a new one comes last. -/
theorem names_assign (name : String) (value : α) (fields : List (String × α)) :
    names (assign name value fields) =
      if name ∈ names fields then names fields else names fields ++ [name] := by
  split
  · rename_i h
    exact names_assign_of_mem h value
  · rename_i h
    rw [assign_of_not_mem h]
    simp

theorem mem_names_assign {name other : String} {value : α} {fields : List (String × α)} :
    other ∈ names (assign name value fields) ↔ other = name ∨ other ∈ names fields := by
  rw [names_assign]
  split
  · rename_i h
    exact ⟨.inr, fun ho => ho.elim (fun e => e ▸ h) id⟩
  · simp [or_comm]

theorem nodup_names_assign {name : String} {value : α} {fields : List (String × α)}
    (h : (names fields).Nodup) : (names (assign name value fields)).Nodup := by
  rw [names_assign]
  split
  · exact h
  · rename_i hn
    refine List.nodup_append.mpr ⟨h, by simp, ?_⟩
    rintro a ha b hb rfl
    exact hn (List.mem_singleton.mp hb ▸ ha)

/-- Of several assignments to one name the last one counts. -/
theorem lookup_foldl_assign (name : String) (entries fields : List (String × α)) :
    lookup name (entries.foldl (fun fields entry => assign entry.1 entry.2 fields) fields) =
      (lookup name entries.reverse).or (lookup name fields) := by
  induction entries generalizing fields with
  | nil => rfl
  | cons entry rest ih =>
      rw [List.foldl_cons, ih, List.reverse_cons, lookup_append, Option.or_assoc]
      congr 1
      by_cases hn : name = entry.1
      · subst hn
        simp [lookup]
      · rw [lookup_assign_of_ne hn]
        simp [lookup, Ne.symm hn]

/-- Names stand in the order in which they were first assigned. -/
theorem names_foldl_assign (entries : List (String × α)) :
    names (entries.foldl (fun fields entry => assign entry.1 entry.2 fields) []) =
      (names entries).eraseDups := by
  induction entries using List.reverseRecOn with
  | nil => rfl
  | append_singleton entries entry ih =>
      have hmem : entry.1 ∈ (names entries).eraseDups ↔ entry.1 ∈ names entries :=
        List.mem_eraseDups
      rw [List.foldl_append, List.foldl_cons, List.foldl_nil, names_assign, ih, names_append,
        List.eraseDups_append]
      by_cases h : entry.1 ∈ names entries
      · rw [if_pos (hmem.mpr h)]
        simp [List.removeAll, h]
      · rw [if_neg (mt hmem.mp h)]
        simp [List.removeAll, h, List.eraseDups_cons]

/-- Assignments to names of which each is new are appended. -/
theorem foldl_assign_of_nodup {entries fields : List (String × α)}
    (h : (names fields ++ names entries).Nodup) :
    entries.foldl (fun fields entry => assign entry.1 entry.2 fields) fields =
      fields ++ entries := by
  induction entries generalizing fields with
  | nil => exact (List.append_nil fields).symm
  | cons entry entries ih =>
      have hnew : entry.1 ∉ names fields := fun hm =>
        (List.nodup_append.mp h).2.2 entry.1 hm entry.1 List.mem_cons_self rfl
      have hrest : (names (fields ++ [entry]) ++ names entries).Nodup := by
        simpa using h
      rw [List.foldl_cons, assign_of_not_mem hnew, ih hrest, List.append_assoc]
      rfl

theorem ofEntries_of_nodup {fields : List (String × α)} (h : (names fields).Nodup) :
    ofEntries fields.toArray = fields := by
  rw [ofEntries, List.foldl_toArray]
  exact foldl_assign_of_nodup h

theorem names_update (name : String) (f : α → α) (fields : List (String × α)) :
    names (update name f fields) = names fields := by
  induction fields with
  | nil => rfl
  | cons entry rest ih =>
      simp only [update]
      split
      · rfl
      · rw [names_cons, names_cons, ih]

/-- An update changes an entry of its own name and no other. -/
theorem mem_of_mem_update {name : String} {f : α → α} {fields : List (String × α)}
    {entry : String × α} (h : entry ∈ update name f fields) :
    entry ∈ fields ∨ ∃ value, (name, value) ∈ fields ∧ entry = (name, f value) := by
  induction fields with
  | nil => cases h
  | cons first rest ih =>
      obtain ⟨key, old⟩ := first
      simp only [update] at h
      split at h
      · rename_i hk
        obtain rfl : key = name := hk
        rcases List.mem_cons.mp h with rfl | h
        · exact .inr ⟨old, List.mem_cons_self, rfl⟩
        · exact .inl (List.mem_cons_of_mem _ h)
      · rcases List.mem_cons.mp h with rfl | h
        · exact .inl List.mem_cons_self
        · rcases ih h with h | ⟨value, hv, rfl⟩
          · exact .inl (List.mem_cons_of_mem _ h)
          · exact .inr ⟨value, List.mem_cons_of_mem _ hv, rfl⟩

/-- Where no two items have the same name, each of them is the one found under its name. -/
theorem find?_eq_some_iff {nameOf : α → String} {items : List α} (h : (items.map nameOf).Nodup)
    {name : String} {item : α} :
    items.find? (nameOf · == name) = some item ↔ item ∈ items ∧ nameOf item = name := by
  have hself : ∀ {found}, items.find? (nameOf · == name) = some found →
      found ∈ items ∧ nameOf found = name := fun hf =>
    ⟨List.mem_of_find?_eq_some hf, by simpa using List.find?_some hf⟩
  refine ⟨hself, ?_⟩
  rintro ⟨hi, hname⟩
  have hfound : (items.find? (nameOf · == name)).isSome = true :=
    List.find?_isSome.mpr ⟨item, hi, by simpa using hname⟩
  obtain ⟨found, hf⟩ := Option.isSome_iff_exists.mp hfound
  obtain ⟨hm, hn⟩ := hself hf
  rw [hf, List.inj_on_of_nodup_map h hm hi (hn.trans hname.symm)]

theorem erase_sublist (name : String) (fields : List (String × α)) :
    (erase name fields).Sublist fields := by
  induction fields with
  | nil => exact .slnil
  | cons entry rest ih =>
      simp only [erase]
      split
      · exact List.sublist_cons_self _ _
      · exact ih.cons_cons _

theorem erase_of_not_mem {name : String} {fields : List (String × α)} (h : name ∉ names fields) :
    erase name fields = fields := by
  induction fields with
  | nil => rfl
  | cons entry rest ih =>
      rw [names_cons, List.mem_cons, not_or] at h
      rw [erase, if_neg (Ne.symm h.1), ih h.2]

theorem names_erase (name : String) (fields : List (String × α)) :
    names (erase name fields) = (names fields).erase name := by
  induction fields with
  | nil => rfl
  | cons entry rest ih =>
      by_cases hk : entry.1 = name
      · simp [erase, hk]
      · simp [erase, hk, ih]

theorem lookup_erase_of_ne {name other : String} (h : other ≠ name) (fields : List (String × α)) :
    lookup other (erase name fields) = lookup other fields := by
  induction fields with
  | nil => rfl
  | cons entry rest ih =>
      by_cases hk : entry.1 = name
      · simp [erase, lookup, hk, h.symm]
      · simp [erase, lookup, hk, ih]

/-- Only the first entry of a name is erased, so the name is gone if it stood there once. -/
theorem lookup_erase_self {fields : List (String × α)} (h : (names fields).Nodup) (name : String) :
    lookup name (erase name fields) = none := by
  rw [lookup_eq_none_iff, names_erase]
  exact h.not_mem_erase

end RecordSchema.Fields
