import StaffRights.Json.Decimal
import StaffRights.Json.Reader
import StaffRights.Text.Quoted

/-!
# Decoding JSON

A decoder turns a document into a value of some type. It goes through the document in the order of
the text, so of several problems the first one is reported, and a place where nothing can be read
counts when it is reached.

A document is decoded in one of three settings: while its text is read, from memory, or after it
was set aside while text was read. They differ in a few refusals, which each decoder states.
-/

namespace StaffRights.Json

/-- Why a document could not be decoded. -/
inductive DecodeError where
  /-- The text is not JSON. -/
  | malformed (fault : Fault)
  | wrongType (found expected : String)
  | wrongValue (found expected : String)
  | wrongLength (found : Nat) (expected : String)
  | unknownVariant (name : String) (known : List String)
  | missingMember (name : String)
  | repeatedMember (name : String)
  /-- The value has the right form but makes no sense. -/
  | refused (reason : String)
  deriving DecidableEq, Repr

namespace DecodeError

/-- A choice between names. -/
def choice (names : List String) : String :=
  match names.map fun n => "`" ++ n ++ "`" with
  | [a] => a
  | [a, b] => a ++ " or " ++ b
  | quoted => "one of " ++ ", ".intercalate quoted

/-- The wording of a refusal. -/
def message : DecodeError → String
  | .malformed fault => fault.message
  | .wrongType found expected => "invalid type: " ++ found ++ ", expected " ++ expected
  | .wrongValue found expected => "invalid value: " ++ found ++ ", expected " ++ expected
  | .wrongLength found expected => s!"invalid length {found}, expected {expected}"
  | .unknownVariant name known => "unknown variant `" ++ name ++ "`, expected " ++ choice known
  | .missingMember name => "missing field `" ++ name ++ "`"
  | .repeatedMember name => "duplicate field `" ++ name ++ "`"
  | .refused reason => reason

/-- Is the text at fault, rather than the value it stands for? -/
def isSyntax : DecodeError → Bool
  | .malformed _ => true
  | _ => false

end DecodeError

/-- Where the document to be decoded stands. -/
inductive Medium where
  /-- The document is decoded while its text is read. -/
  | text
  /-- The document is in memory, with the members of objects in canonical form. -/
  | memory
  /-- The document was read whole and set aside. -/
  | buffer
  deriving DecidableEq, Repr

/-- The setting in which a value is decoded. -/
structure Site where
  medium : Medium
  /-- How many lists and objects may still be nested. -/
  depth : Nat
  deriving DecidableEq, Repr

namespace Site

/-- The beginning of a text. -/
def text : Site := ⟨.text, 127⟩

/-- A document in memory. -/
def memory : Site := ⟨.memory, 127⟩

/-- Inside a list or an object. -/
def inside (s : Site) : Site := { s with depth := s.depth - 1 }

end Site

/-- Makes a value of a document, or tells why not. -/
abbrev Decoder (α : Type) := Site → Json → Except DecodeError α

/-! ## Mismatches -/

/-- What a value is, as a refusal names it. -/
def found : Json → String
  | .null => "null"
  | .bool b => s!"boolean `{b}`"
  | .int n => s!"integer `{n}`"
  | .float bits => "floating point `" ++ Decimal.text bits ++ "`"
  | .str s => "string " ++ String.ofList (Text.Quoted.encode s.toList)
  | .arr _ => "sequence"
  | .obj _ => "map"
  | .ragged .. => "map"
  | .hole .. => "nothing"

/-- The refusal of a value of the wrong type; where nothing can be read, that is the problem. -/
def mismatch (expected : String) : Json → DecodeError
  | .hole fault _ => .malformed fault
  | v => .wrongType v.found expected

namespace Decoder

variable {α : Type}

/-! ## Simple values -/

/-- A truth value. -/
def bool : Decoder Bool
  | _, .bool b => .ok b
  | _, v => .error (mismatch "a boolean" v)

/-- An unsigned integer of 32 bits. -/
def uint32 : Decoder UInt32
  | _, .int n =>
    if 0 ≤ n ∧ n < Nat.pow 2 32 then .ok (UInt32.ofNat n.toNat)
    else .error (.wrongValue (found (.int n)) "u32")
  | _, v => .error (mismatch "u32" v)

/-- A string, described as `expected`, out of which `read` makes a value. -/
def string (expected : String) (read : String → Except String α) : Decoder α
  | _, .str s => (read s).mapError .refused
  | _, v => .error (mismatch expected v)

/-- A value or null. -/
def nullable (d : Decoder α) : Decoder (Option α)
  | _, .null => .ok none
  | site, v => (d site v).map some

/-- A list; the decoder of an item is given its place. -/
def list (d : Nat → Decoder α) : Decoder (List α)
  | site, .arr items => items.zipIdx.mapM fun (v, i) => d i site.inside v
  | _, v => .error (mismatch "a sequence" v)

/-! ## Variants

One of several names stands as a string, or as the key of an object whose only value is null. -/

/-- The value of a name. -/
def named (known : List (String × α)) (name : String) : Except DecodeError α :=
  match known.lookup name with
  | some a => .ok a
  | none => .error (.unknownVariant name (known.map (·.1)))

/-- Checks that a value is null. After a text was set aside, an empty object will do as well. -/
def unit : Decoder Unit
  | _, .null => .ok ()
  | ⟨.buffer, _⟩, .obj [] => .ok ()
  | _, v => .error (mismatch "unit" v)

/-- What is wrong with a text where a name was looked for: only strings and objects are read further
than their first character. -/
def faultAtName : Fault → Fault
  | .invalidNumber => .expectedValue
  | .numberTooLarge => .expectedValue
  | .endInNumber => .expectedValue
  | .endInWord => .expectedValue
  | .expectedWord => .expectedValue
  | fault => fault

/-- A name, while text is read. -/
def variantInText (known : List (String × α)) (site : Site) : Json → Except DecodeError α
  | .str s => named known s
  | .obj [] => .error (.malformed .expectedValue)
  | .obj ((key, v) :: more) => do
    let a ← named known key
    unit site v
    if more.isEmpty then .ok a else .error (.malformed .expectedValue)
  | .ragged [] fault _ => .error (.malformed fault)
  | .ragged ((key, v) :: more) fault _ => do
    let _ ← named known key
    unit site v
    .error (.malformed (if more.isEmpty ∧ fault = .endInObject then fault else .expectedValue))
  | .hole fault _ => .error (.malformed (faultAtName fault))
  | _ => .error (.malformed .expectedValue)

/-- A name, when no text is read. -/
def variantInMemory (known : List (String × α)) (site : Site) : Json → Except DecodeError α
  | .str s => named known s
  | .obj [(key, v)] => do
    let a ← named known key
    unit site v
    .ok a
  | .obj _ => .error (.wrongValue "map" "map with a single key")
  | v => .error (mismatch "string or map" v)

/-- One of several names, as a string and in no other way. -/
def identifier (known : List (String × α)) : Decoder α
  | _, .str s => named known s
  | _, v => .error (mismatch "variant identifier" v)

/-- One of several names. -/
def variant (known : List (String × α)) : Decoder α := fun site v =>
  match site.medium with
  | .text => variantInText known site v
  | _ => variantInMemory known site v

end Decoder

/-! ## Records

A record stands as an object with a member for each field, or as a list of its fields in order.
Members that the record does not have are skipped; fields that are not required may be missing. -/

/-- A field of a record. -/
structure Field (α : Type) where
  name : String
  required : Bool
  /-- Decodes the field and puts it into a record. -/
  put : Site → Json → α → Except DecodeError α

namespace Field

variable {α β : Type}

/-- A field that has to be there. -/
def needed (name : String) (d : Decoder β) (set : β → α → α) : Field α :=
  ⟨name, true, fun site v a => (d site v).map (set · a)⟩

/-- A field that may be missing. -/
def optional (name : String) (d : Decoder β) (set : β → α → α) : Field α :=
  ⟨name, false, fun site v a => (d site v).map (set · a)⟩

end Field

/-- How a record is decoded. -/
structure Form (α : Type) where
  /-- What a document that is neither an object nor a list is refused for. -/
  expected : String
  /-- What a list that is too short is refused for. -/
  expectedItems : String
  /-- The record before any field is put in. -/
  blank : α
  fields : List (Field α)
  /-- The same fields, as the items of a list are put into them. -/
  itemFields : List (Field α) := fields

namespace Form

variable {α : Type} (form : Form α)

/-- Takes in one member of an object; the names of the fields met so far come along. -/
def member (site : Site) (state : α × List String) (entry : String × Json) :
    Except DecodeError (α × List String) :=
  match form.fields.find? (·.name == entry.1) with
  | none =>
    match entry.2.skipFault with
    | some fault => .error (.malformed fault)
    | none => .ok state
  | some field =>
    if entry.1 ∈ state.2 then .error (.repeatedMember entry.1)
    else (field.put site entry.2 state.1).map fun a => (a, entry.1 :: state.2)

/-- Decodes the members of an object; `fault` says why it ends early, if it does. -/
def ofMembers (site : Site) (members : List (String × Json)) (fault : Option Fault) :
    Except DecodeError α := do
  let (a, names) ← members.foldlM (form.member site) (form.blank, [])
  match fault with
  | some f => .error (.malformed f)
  | none =>
    match form.fields.find? fun field => field.required && !names.contains field.name with
    | some field => .error (.missingMember field.name)
    | none => .ok a

/-- Puts items into fields in order; the items that are left over come along. -/
def takeItems (site : Site) : List (Field α × Nat) → List Json → α →
    Except DecodeError (α × List Json)
  | [], rest, a => .ok (a, rest)
  | (field, place) :: fields, [], a =>
    if field.required then .error (.wrongLength place form.expectedItems)
    else takeItems site fields [] a
  | (field, _) :: fields, v :: vs, a => do takeItems site fields vs (← field.put site v a)

/-- What a list is refused for that goes on with `next` after all fields. -/
def excess (medium : Medium) (count : Nat) (next : Json) : DecodeError :=
  match medium with
  | .text =>
    match next with
    | .hole .endInList _ => .malformed .endInList
    | .hole .trailingComma _ => .malformed .trailingComma
    | _ => .malformed .trailingCharacters
  | .memory => .wrongLength count "fewer elements in array"
  | .buffer => .wrongLength count s!"{form.itemFields.length} elements in sequence"

/-- Decodes the items of a list. -/
def ofItems (site : Site) (items : List Json) : Except DecodeError α := do
  match ← form.takeItems site form.itemFields.zipIdx items form.blank with
  | (a, []) => .ok a
  | (_, next :: _) => .error (form.excess site.medium items.length next)

/-- The decoder of the record. -/
def decoder : Decoder α
  | site, .obj members => form.ofMembers site.inside members none
  | site, .ragged members fault _ => form.ofMembers site.inside members (some fault)
  | site, .arr items => form.ofItems site.inside items
  | _, v => .error (mismatch form.expected v)

end Form

/-- The form of a record with a title. -/
def record {α : Type} (title : String) (blank : α) (fields : List (Field α)) : Form α where
  expected := "struct " ++ title
  expectedItems := s!"struct {title} with {fields.length} elements"
  blank := blank
  fields := fields

/-! ## Texts -/

/-- Decodes a text, of which nothing but space may be left over. -/
def decodeText {α : Type} (d : Decoder α) (s : String) : Except DecodeError α := do
  let (v, rest) := Reader.document s.toList
  let a ← d .text v
  if (Reader.skipSpace rest).isEmpty then .ok a else .error (.malformed .trailingCharacters)

/-- Decodes a document in memory. -/
def decode {α : Type} (d : Decoder α) (v : Json) : Except DecodeError α := d .memory v.canonical

end StaffRights.Json
