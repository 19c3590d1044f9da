/-!
# Permissions

A set of permissions is a word of eight bits. Seven bits are named by a `Flag`; the eighth has no
meaning, but a set that was read from text may carry it, and it is then kept by every operation
that does not drop unnamed bits explicitly.

Reference: `SPEC_FULL.md` 3 (data model) and 10.2 (`StaffPermissions`).
-/

namespace StaffRights

/-- What a member of staff may do. -/
inductive Flag where
  | create
  | read
  | update
  | delete
  | sign
  | award
  | administrateUsers
  deriving DecidableEq, Repr

namespace Flag

/-- Every flag, in the order of their bits. -/
def all : List Flag := [.create, .read, .update, .delete, .sign, .award, .administrateUsers]

/-- The place of a flag's bit. -/
def index : Flag → Nat
  | .create => 0
  | .read => 1
  | .update => 2
  | .delete => 3
  | .sign => 4
  | .award => 5
  | .administrateUsers => 6

/-- The name of a flag in the text form of a set. -/
def name : Flag → String
  | .create => "CREATE"
  | .read => "READ"
  | .update => "UPDATE"
  | .delete => "DELETE"
  | .sign => "SIGN"
  | .award => "AWARD"
  | .administrateUsers => "ADMINISTRATE_USERS"

/-- The name of a flag's member in a permission record. -/
def field : Flag → String
  | .create => "may_create"
  | .read => "may_read"
  | .update => "may_update"
  | .delete => "may_delete"
  | .sign => "may_sign"
  | .award => "may_award"
  | .administrateUsers => "may_administrate_users"

/-- The flag with the given name, if there is one. -/
def ofName? (name : String) : Option Flag := all.find? (·.name == name)

/-- The names under which single flags are asked for, in the order of their bits. -/
def fields : List (String × Flag) :=
  [("may_create", .create), ("may_read", .read), ("may_update", .update), ("may_delete", .delete),
    ("may_sign", .sign), ("may_award", .award), ("may_administrate_users", .administrateUsers)]

/-- The first flag that is listed under the given name, if there is one. -/
def ofField? (name : String) : Option Flag := (fields.find? (·.1 == name)).map (·.2)

/-- Every flag is listed once, under the name of its member in a permission record. -/
theorem fields_eq : fields = all.map fun f => (f.field, f) := rfl

/-- No flag is left out. -/
theorem mem_all (f : Flag) : f ∈ all := by cases f <;> decide

end Flag

/-- A set of permissions. -/
structure Permissions where
  bits : BitVec 8
  deriving DecidableEq, Repr

namespace Permissions

instance : EmptyCollection Permissions := ⟨⟨0#8⟩⟩
instance : Union Permissions := ⟨fun p q => ⟨p.bits ||| q.bits⟩⟩
instance : Inter Permissions := ⟨fun p q => ⟨p.bits &&& q.bits⟩⟩

/-- The set of one flag. -/
def single (f : Flag) : Permissions := ⟨1#8 <<< f.index⟩

/-- The set of all seven flags. -/
def full : Permissions := ⟨0x7F#8⟩

/-- Does the set hold the flag? -/
def holds (p : Permissions) (f : Flag) : Bool := p.bits.getLsbD f.index

/-- Does the set hold every bit of `required`? -/
def has (p required : Permissions) : Bool := p ∩ required == required

/-- The seven flags that the set does not hold. -/
def complement (p : Permissions) : Permissions := ⟨~~~p.bits⟩ ∩ full

/-- The union of several sets. -/
def union (ps : List Permissions) : Permissions := ps.foldl (· ∪ ·) ∅

/-- The set that a list of flags makes. -/
def ofFlags (fs : List Flag) : Permissions := union (fs.map single)

/-! ## Stored numbers and record members -/

/-- The set that a stored 16-bit number stands for: its low seven bits. -/
def ofStored (n : Int) : Permissions := ⟨BitVec.ofInt 8 n⟩ ∩ full

/-- The number under which a set is stored. -/
def stored (p : Permissions) : Nat := p.bits.toNat

/-- The set of the flags with the given names, if each name is that of a flag. -/
def ofFields? (fields : List String) : Option Permissions :=
  (fields.mapM Flag.ofField?).map ofFlags

end Permissions

end StaffRights
