import StaffRights.Identity

/-!
# Entities

An institution is organised in four levels: the institution itself, its faculties, their issuers
and the badge classes of an issuer. Each kind of entity has exactly one kind above it, but for the
institution, and exactly one below it, but for the badge class.

Reference: `SPEC_FULL.md` 3 (data model) and 10.3 (`EntityKind`, `EntityRef`).
-/

namespace StaffRights

/-- The four kinds of entity, from the root of a tree to its leaves. -/
inductive Kind where
  | institution
  | faculty
  | issuer
  | badgeClass
  deriving DecidableEq, Repr

namespace Kind

/-- Every kind, from the root to the leaves. -/
def all : List Kind := [.institution, .faculty, .issuer, .badgeClass]

/-- The only kind that an entity of this kind may stand below. -/
def above : Kind → Option Kind
  | .institution => none
  | .faculty => some .institution
  | .issuer => some .faculty
  | .badgeClass => some .issuer

/-- The only kind that may stand below an entity of this kind. -/
def below : Kind → Option Kind
  | .institution => some .faculty
  | .faculty => some .issuer
  | .issuer => some .badgeClass
  | .badgeClass => none

/-- The number of links between an entity of this kind and its institution. -/
def depth : Kind → Nat
  | .institution => 0
  | .faculty => 1
  | .issuer => 2
  | .badgeClass => 3

/-- The name that messages use. -/
def title : Kind → String
  | .institution => "Institution"
  | .faculty => "Faculty"
  | .issuer => "Issuer"
  | .badgeClass => "BadgeClass"

/-- The name that documents use. -/
def name : Kind → String
  | .institution => "institution"
  | .faculty => "faculty"
  | .issuer => "issuer"
  | .badgeClass => "badgeclass"

/-- The kinds above and below undo each other. -/
theorem below_of_above {k p : Kind} (h : k.above = some p) : p.below = some k := by
  cases k <;> simp_all [above] <;> subst h <;> rfl

/-- Each kind is one level deeper than the one above it. -/
theorem depth_of_above {k p : Kind} (h : k.above = some p) : k.depth = p.depth + 1 := by
  cases k <;> simp_all [above] <;> subst h <;> rfl

/-- What stands below something is no institution. -/
theorem ne_institution_of_above {k p : Kind} (h : k.above = some p) : k ≠ .institution := by
  rintro rfl
  cases h

/-- There are four levels. -/
theorem depth_le_three (k : Kind) : k.depth ≤ 3 := by cases k <;> decide

end Kind

/-- An entity: its identity together with its kind. -/
structure Entity where
  kind : Kind
  id : EntityId
  deriving DecidableEq, Repr

/-- The kind and the identifier, as messages name an entity. -/
def Entity.text (e : Entity) : String := e.kind.title ++ " " ++ e.id.text

end StaffRights
