import StaffRights.Entity
import StaffRights.Invalidation
import StaffRights.Json.Decoding
import StaffRights.Uuid.Reader

/-!
# Documents of identities, entities and invalidations

An identity is a string, a kind its name, an entity an object of both. An invalidation is an object
that names its type beside the entity it is about.

Reference: `SPEC_FULL.md` 10.3 (`EntityRef`) and 10.9 (`CacheEvent`).
-/

namespace StaffRights

/-! ## Identities -/

namespace Id

variable {subject : Subject}

/-- Reads an identity in any spelling of its identifier. -/
def parse (s : String) : Except Uuid.ReadError (Id subject) := (Uuid.parse s).map Id.mk

/-- The document of an identity. -/
def toJson (id : Id subject) : Json := .str id.text

/-- Decodes an identity. -/
def decoder : Json.Decoder (Id subject) :=
  .string "a formatted UUID string" fun s =>
    (parse s).mapError fun e => "UUID parsing failed: " ++ e.message

end Id

/-! ## Kinds and entities -/

namespace Kind

/-- The document of a kind. -/
def toJson (k : Kind) : Json := .str k.name

/-- Decodes a kind. -/
def decoder : Json.Decoder Kind := .variant (all.map fun k => (k.name, k))

end Kind

namespace Entity

/-- The document of an entity. -/
def toJson (e : Entity) : Json := .obj [("kind", e.kind.toJson), ("id", e.id.toJson)]

/-- The form of an entity. -/
def form : Json.Form Entity :=
  Json.record "EntityRef" ⟨.institution, .ofNat 0⟩
    [.needed "kind" Kind.decoder fun kind e => { e with kind },
      .needed "id" Id.decoder fun id e => { e with id }]

/-- Decodes an entity. -/
def decoder : Json.Decoder Entity := form.decoder

end Entity

/-! ## Invalidations -/

namespace Invalidation

/-- The name of the only type of invalidation. -/
def typeName : String := "invalidate"

/-- The document of an invalidation. -/
def toJson (i : Invalidation) : Json :=
  .obj [("type", .str typeName), ("entity", i.entity.toJson)]

/-- An invalidation while it is decoded. The entity is read whole and set aside if it comes before
the type. -/
structure Draft where
  typed : Bool := false
  aside : Option (Nat × Json) := none
  entity : Entity := Entity.form.blank

/-- The types of invalidation by name. -/
def types : List (String × Unit) := [(typeName, ())]

/-- Takes in the type, read by `name`, and then the entity if it was set aside. -/
def Draft.putType (name : Json.Decoder Unit) (site : Json.Site) (v : Json) (d : Draft) :
    Except Json.DecodeError Draft := do
  name site v
  match d.aside with
  | none => .ok { d with typed := true }
  | some (depth, content) =>
    (Entity.decoder ⟨.buffer, depth⟩ content).map fun e => { d with typed := true, entity := e }

/-- Takes in the entity, or sets it aside as long as there is no type. -/
def Draft.putEntity (site : Json.Site) (v : Json) (d : Draft) : Except Json.DecodeError Draft :=
  if d.typed then (Entity.decoder site v).map fun e => { d with entity := e }
  else
    match v.readFault site.depth with
    | some fault => .error (.malformed fault)
    | none => .ok { d with aside := some (site.depth, v) }

/-- The form of an invalidation. In a list the type is a string and nothing else. -/
def form : Json.Form Draft where
  expected := "adjacently tagged enum CacheEvent"
  expectedItems := "adjacently tagged enum CacheEvent"
  blank := {}
  fields :=
    [⟨"type", true, Draft.putType (.variant types)⟩, ⟨"entity", true, Draft.putEntity⟩]
  itemFields :=
    [⟨"type", true, Draft.putType (.identifier types)⟩, ⟨"entity", true, Draft.putEntity⟩]

/-- Decodes an invalidation. -/
def decoder : Json.Decoder Invalidation := fun site v =>
  (form.decoder site v).map fun d => ⟨d.entity⟩

end Invalidation

end StaffRights
