import StaffRights.Invalidation

/-!
# The cache of resolved rights

Resolved rights are remembered per entity and user. The key holds all of a user that rights depend
on, so that a user who changes institution or role does not meet rights resolved before.

Reference: `SPEC_FULL.md` 10.8 (`PermissionCache`).
-/

namespace StaffRights

/-- An entity and what rights depend on in a user. -/
structure CacheKey where
  entity : EntityId
  user : UserId
  institution : Option EntityId
  isTeacher : Bool
  deriving DecidableEq, Repr

namespace CacheKey

/-- The key of an entity and a user. -/
def ofUser (entity : EntityId) (u : User) : CacheKey :=
  ⟨entity, u.id, u.institution, u.isTeacher⟩

instance : Ord CacheKey :=
  ⟨compareLex (compareOn entity) (compareLex (compareOn user)
    (compareLex (compareOn institution) (compareOn isTeacher)))⟩

instance : Std.TransOrd CacheKey :=
  inferInstanceAs (Std.TransCmp (compareLex (compareOn entity) (compareLex (compareOn user)
    (compareLex (compareOn institution) (compareOn isTeacher)))))

instance : Std.LawfulEqOrd CacheKey where
  eq_of_compare {a b} h := by
    obtain ⟨entity, user, institution, isTeacher⟩ := a
    obtain ⟨entity', user', institution', isTeacher'⟩ := b
    obtain ⟨h₁, h⟩ := Ordering.then_eq_eq.1 h
    obtain ⟨h₂, h⟩ := Ordering.then_eq_eq.1 h
    obtain ⟨h₃, h₄⟩ := Ordering.then_eq_eq.1 h
    rw [show entity = entity' from Std.LawfulEqOrd.eq_of_compare h₁,
      show user = user' from Std.LawfulEqOrd.eq_of_compare h₂,
      show institution = institution' from Std.LawfulEqOrd.eq_of_compare h₃,
      show isTeacher = isTeacher' from Std.LawfulEqOrd.eq_of_compare h₄]

end CacheKey

/-- Remembered rights; a cache that is not enabled remembers none. -/
structure Cache where
  enabled : Bool := true
  entries : Std.ExtTreeMap CacheKey Permissions := ∅
  deriving DecidableEq

namespace Cache

/-- The remembered rights of a user on an entity. -/
def get? (c : Cache) (entity : EntityId) (u : User) : Option Permissions :=
  c.entries[CacheKey.ofUser entity u]?

/-- Remembers the rights of a user on an entity. -/
def insert (c : Cache) (entity : EntityId) (u : User) (p : Permissions) : Cache :=
  if c.enabled then { c with entries := c.entries.insert (.ofUser entity u) p } else c

/-- Forgets the rights of one user. -/
def forgetUser (c : Cache) (id : UserId) : Cache :=
  { c with entries := c.entries.filter fun key _ => key.user ≠ id }

/-- Forgets everything. -/
def clear (c : Cache) : Cache := { c with entries := ∅ }

/-- Forgets what a change made stale. -/
def forget (c : Cache) : Stale → Cache
  | .user id => c.forgetUser id
  | .everyone => c.clear
  | .nobody => c

/-- The number of remembered entries. -/
def size (c : Cache) : Nat := c.entries.size

end Cache

end StaffRights
