import RecordSchema.Registry.Shared

/-! The types that the host defines by hand for the records it wraps. A catalogue entry of one of
these names is recognized and not compiled again. -/

namespace RecordSchema.Host

def dynamicEntity : String := "DynamicEntity"

def dynamicAsset : String := "DynamicAsset"

def entityType : String := "EntityType"

def assetType : String := "AssetType"

def entityFields : String := "DynamicEntityFields"

def assetFields : String := "DynamicAssetFields"

def typeFields : List Field :=
  [⟨"ID", .scalar .int⟩, ⟨"Name", .scalar .string⟩, ⟨"Type", .scalar .string⟩]

/-- In the order in which they are seeded. -/
def descriptors : List Descriptor :=
  [⟨entityType, typeFields⟩,
   ⟨assetType, typeFields⟩,
   ⟨entityFields, []⟩,
   ⟨assetFields, []⟩,
   ⟨dynamicEntity,
    [⟨"EntityType", .reference entityType⟩,
     ⟨"FieldValueCollection", .reference entityFields⟩,
     ⟨"Id", .scalar .int⟩]⟩,
   ⟨dynamicAsset,
    [⟨"AssetType", .reference assetType⟩,
     ⟨"FieldValueCollection", .reference assetFields⟩,
     ⟨"Id", .scalar .int⟩]⟩]

def isHostType (name : String) : Bool := (descriptors.map (·.name)).contains name

/-- A builder that knows the host's types. -/
def seed (builder : Builder) : Builder :=
  descriptors.foldl (fun builder descriptor => (builder.seedHost descriptor).2) builder

end RecordSchema.Host
