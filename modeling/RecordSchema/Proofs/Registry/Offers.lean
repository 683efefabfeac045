import Mathlib.Data.List.Induction
import RecordSchema.Proofs.Registry
import RecordSchema.Registry.Shared

/-! A builder after any history of offers. Of each name the first offer counts: its descriptor is
what the registry holds from then on, and the name is the host's if the host made that offer
(`first_offer_wins`). -/

namespace RecordSchema

/-- One call on a builder that brings a descriptor. -/
inductive Offer where
  | register (descriptor : Descriptor)
  | seedHost (descriptor : Descriptor)
  deriving DecidableEq, Repr

namespace Offer

def descriptor : Offer → Descriptor
  | register d | seedHost d => d

def name (offer : Offer) : String := offer.descriptor.name

def isSeed : Offer → Bool
  | register _ => false
  | seedHost _ => true

/-- The builder's answer, and the builder after it. -/
def apply : Offer → Builder → Registration × Builder
  | register d, builder => builder.register d
  | seedHost d, builder => builder.seedHost d

end Offer

namespace Builder

variable {builder : Builder} {offers : List Offer} {offer : Offer} {name : String}

/-- A fresh builder after the offers, in order. -/
def afterOffers (offers : List Offer) : Builder :=
  offers.foldl (fun builder offer => (offer.apply builder).2) .empty

/-- The offer is made, and none before it is of its name. -/
def IsFirst (offers : List Offer) (offer : Offer) : Prop :=
  ∃ before after, offers = before ++ offer :: after ∧ ∀ earlier ∈ before, earlier.name ≠ offer.name

/-- What a builder knows is settled by the first offer of each name. -/
structure Settled (offers : List Offer) (builder : Builder) : Prop where
  lookup : ∀ name d, builder.registry.lookup name = some d ↔
    ∃ offer, IsFirst offers offer ∧ offer.name = name ∧ offer.descriptor = d
  known : ∀ name, builder.isKnown name = true ↔ ∃ offer ∈ offers, offer.name = name
  host : ∀ name, builder.isHostDefined name = true ↔
    ∃ d, IsFirst offers (.seedHost d) ∧ d.name = name
  hostKnown : ∀ name, builder.isHostDefined name = true → builder.isKnown name = true
  distinct : builder.registry.names.Nodup
  size : builder.registry.size = (offers.map Offer.name).dedup.length

/-! ## One offer -/

theorem seedHost_eq (builder : Builder) (d : Descriptor) :
    builder.seedHost d = if builder.isKnown d.name then (.alreadyKnown, builder)
      else (.added, ⟨builder.registry.add d, d.name :: builder.hostNames⟩) := by
  unfold seedHost register
  cases builder.isKnown d.name <;> rfl

theorem registry_register (builder : Builder) (d : Descriptor) :
    (builder.register d).2.registry = builder.registry.add d := by
  unfold register
  split
  · rename_i hk
    exact (Registry.add_of_contains hk).symm
  · rfl

theorem registry_seedHost (builder : Builder) (d : Descriptor) :
    (builder.seedHost d).2.registry = builder.registry.add d := by
  rw [seedHost_eq]
  split
  · rename_i hk
    exact (Registry.add_of_contains hk).symm
  · rfl

theorem registry_apply (offer : Offer) (builder : Builder) :
    (offer.apply builder).2.registry = builder.registry.add offer.descriptor := by
  cases offer with
  | register d => exact registry_register builder d
  | seedHost d => exact registry_seedHost builder d

/-- Both ways to offer a descriptor get the same answer. -/
theorem answer_apply (offer : Offer) (builder : Builder) :
    (offer.apply builder).1 = if builder.isKnown offer.name then .alreadyKnown else .added := by
  cases offer with
  | register d => exact apply_ite Prod.fst _ _ _
  | seedHost d =>
      rw [Offer.apply, seedHost_eq]
      exact apply_ite Prod.fst _ _ _

/-- A name is marked together with its descriptor or never. -/
theorem isHostDefined_apply (offer : Offer) (builder : Builder) (name : String) :
    (offer.apply builder).2.isHostDefined name =
      (builder.isHostDefined name ||
        (!builder.isKnown name && offer.name == name && offer.isSeed)) := by
  cases offer with
  | register d =>
      simp only [Offer.apply, Offer.isSeed, register, Bool.and_false, Bool.or_false]
      split <;> rfl
  | seedHost d =>
      rw [Offer.apply, seedHost_eq, Offer.name, Offer.descriptor, Offer.isSeed, Bool.and_true]
      by_cases hn : d.name = name
      · subst hn
        cases builder.isKnown d.name <;> simp [isHostDefined]
      · cases builder.isKnown d.name <;> simp [isHostDefined, hn, Ne.symm hn]

/-! ## Histories -/

theorem afterOffers_append (offers : List Offer) (offer : Offer) :
    afterOffers (offers ++ [offer]) = (offer.apply (afterOffers offers)).2 := by
  rw [afterOffers, List.foldl_append]
  rfl

theorem registry_afterOffers (offers : List Offer) :
    (afterOffers offers).registry = (offers.map Offer.descriptor).foldl Registry.add .empty := by
  rw [List.foldl_map]
  exact (List.foldl_hom Builder.registry fun builder offer => (registry_apply offer builder).symm).symm

theorem lookup_afterOffers (offers : List Offer) (name : String) :
    (afterOffers offers).registry.lookup name =
      (offers.find? (·.name == name)).map Offer.descriptor := by
  rw [registry_afterOffers, Registry.lookup_foldl_add, List.find?_map]
  rfl

theorem isKnown_afterOffers :
    (afterOffers offers).isKnown name = (offers.find? (·.name == name)).isSome := by
  rw [isKnown, Registry.contains, lookup_afterOffers, Option.isSome_map]

/-- The induction is on the last offer: a mark is of a name that no earlier offer had. -/
theorem isHostDefined_afterOffers (offers : List Offer) (name : String) :
    (afterOffers offers).isHostDefined name =
      (offers.find? (·.name == name)).any Offer.isSeed := by
  induction offers using List.reverseRecOn with
  | nil => rfl
  | append_singleton offers offer ih =>
      rw [afterOffers_append, isHostDefined_apply, ih, isKnown_afterOffers, List.find?_append]
      cases offers.find? (·.name == name) with
      | some first => simp
      | none =>
          cases hn : offer.name == name <;> simp [hn]

theorem find?_eq_some_iff_isFirst :
    offers.find? (·.name == name) = some offer ↔ IsFirst offers offer ∧ offer.name = name := by
  rw [List.find?_eq_some_iff_append]
  constructor
  · rintro ⟨hn, before, after, rfl, hbefore⟩
    obtain rfl : offer.name = name := by simpa using hn
    exact ⟨⟨before, after, rfl, by simpa using hbefore⟩, rfl⟩
  · rintro ⟨⟨before, after, rfl, hbefore⟩, rfl⟩
    exact ⟨by simp, before, after, rfl, by simpa using hbefore⟩

theorem isKnown_iff :
    (afterOffers offers).isKnown name = true ↔ ∃ offer ∈ offers, offer.name = name := by
  rw [isKnown_afterOffers, List.find?_isSome]
  simp

theorem ordered_afterOffers (offers : List Offer) : (afterOffers offers).registry.Ordered := by
  rw [registry_afterOffers]
  exact Registry.ordered_empty.foldl_add _

theorem settled (offers : List Offer) : Settled offers (afterOffers offers) := by
  have distinct : (afterOffers offers).registry.names.Nodup :=
    (ordered_afterOffers offers).imp String.ne_of_lt
  have host : ∀ name, (afterOffers offers).isHostDefined name = true ↔
      ∃ d, IsFirst offers (.seedHost d) ∧ d.name = name := by
    intro name
    rw [isHostDefined_afterOffers, Option.any_eq_true]
    constructor
    · rintro ⟨first, hfirst, hseed⟩
      cases first with
      | register d => cases hseed
      | seedHost d => exact ⟨d, find?_eq_some_iff_isFirst.mp hfirst⟩
    · rintro ⟨d, hd⟩
      exact ⟨.seedHost d, find?_eq_some_iff_isFirst.mpr hd, rfl⟩
  refine ⟨?_, fun _ => isKnown_iff, host, ?_, distinct, ?_⟩
  · intro name d
    simp only [lookup_afterOffers, Option.map_eq_some_iff, find?_eq_some_iff_isFirst, and_assoc]
  · intro name h
    obtain ⟨d, ⟨before, after, rfl, _⟩, hn⟩ := (host name).mp h
    exact isKnown_iff.mpr ⟨.seedHost d, by simp, hn⟩
  · rw [← Fields.length_eq_dedup distinct, Registry.names, List.length_map]
    · rfl
    · intro name
      rw [← Registry.contains_iff_mem_names, List.mem_map]
      exact isKnown_iff

/-- Whatever is offered to a fresh builder, in whatever order: an offer is taken exactly if no
earlier one is of its name, what was taken stays, and at every point the builder's knowledge is
settled by the first offer of each name. -/
theorem first_offer_wins (offers : List Offer) :
    (∀ before offer after, offers = before ++ offer :: after →
      ((offer.apply (afterOffers before)).1 = .added ↔
        ∀ earlier ∈ before, earlier.name ≠ offer.name) ∧
      ((offer.apply (afterOffers before)).1 = .alreadyKnown ↔
        ∃ earlier ∈ before, earlier.name = offer.name)) ∧
    (∀ before after name d, offers = before ++ after →
      (afterOffers before).registry.lookup name = some d →
      (afterOffers offers).registry.lookup name = some d) ∧
    Settled offers (afterOffers offers) := by
  refine ⟨?_, ?_, settled offers⟩
  · intro before offer after _
    rw [answer_apply]
    cases hk : (afterOffers before).isKnown offer.name with
    | true =>
        obtain ⟨earlier, he, hn⟩ := isKnown_iff.mp hk
        exact ⟨⟨nofun, fun h => absurd hn (h earlier he)⟩, fun _ => ⟨earlier, he, hn⟩, fun _ => rfl⟩
    | false =>
        have fresh : ∀ earlier ∈ before, earlier.name ≠ offer.name := by
          intro earlier he hn
          rw [isKnown_iff.mpr ⟨earlier, he, hn⟩] at hk
          cases hk
        exact ⟨⟨fun _ => fresh, fun _ => rfl⟩, nofun,
          fun ⟨earlier, he, hn⟩ => absurd hn (fresh earlier he)⟩
  · rintro before after name d rfl h
    rw [lookup_afterOffers] at h ⊢
    obtain ⟨first, hfirst, hd⟩ := Option.map_eq_some_iff.mp h
    rw [List.find?_append, hfirst]
    exact congrArg some hd

-- A seed that comes too late leaves neither its descriptor nor a mark.
example :
    let late : Offer := .seedHost ⟨"A", [⟨"b", .scalar .int⟩]⟩
    let builder := afterOffers [.register ⟨"A", []⟩, late]
    builder.registry.lookup "A" = some ⟨"A", []⟩ ∧ builder.isHostDefined "A" = false := by
  decide

end Builder

end RecordSchema
