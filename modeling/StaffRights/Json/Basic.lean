/-!
# JSON

A `Json` is a JSON document as far as it can be read. Beside the values of the format there are two
ways in which a text can stop making sense, and both stand at their place in the document, so that
whoever reads the document in order meets the first problem first:

* `hole`: where a value is expected, the text holds none;
* `ragged`: an object whose next key cannot be read.

Some texts cannot be read but can be passed over, such as a string with half a surrogate pair. A
hole therefore says what goes wrong for a reader and what, if anything, for someone who skips it.

Reference: `SPEC_FULL.md` 10.13 (snapshots and reports are JSON).
-/

namespace StaffRights

/-- What can be wrong with a text that should be JSON. -/
inductive Json.Fault where
  | endOfInput
  | endInNumber
  | endInWord
  | endInList
  | endInObject
  | endInString
  | expectedColon
  | expectedListEnd
  | expectedObjectEnd
  | expectedWord
  | expectedValue
  | unknownEscape
  | invalidHexEscape
  | invalidNumber
  | numberTooLarge
  | controlCharacter
  | keyNotString
  | loneSurrogate
  | incompletePair
  | trailingComma
  | trailingCharacters
  | tooDeep
  deriving DecidableEq, Repr

/-- The wording of a fault. -/
def Json.Fault.message : Fault → String
  | .endOfInput => "EOF while parsing a value"
  | .endInNumber => "EOF while parsing a value"
  | .endInWord => "EOF while parsing a value"
  | .endInList => "EOF while parsing a list"
  | .endInObject => "EOF while parsing an object"
  | .endInString => "EOF while parsing a string"
  | .expectedColon => "expected `:`"
  | .expectedListEnd => "expected `,` or `]`"
  | .expectedObjectEnd => "expected `,` or `\x7d`"
  | .expectedWord => "expected ident"
  | .expectedValue => "expected value"
  | .unknownEscape => "invalid escape"
  | .invalidHexEscape => "invalid escape"
  | .invalidNumber => "invalid number"
  | .numberTooLarge => "number out of range"
  | .controlCharacter => "control character (\\u0000-\\u001F) found while parsing a string"
  | .keyNotString => "key must be a string"
  | .loneSurrogate => "lone leading surrogate in hex escape"
  | .incompletePair => "unexpected end of hex escape"
  | .trailingComma => "trailing comma"
  | .trailingCharacters => "trailing characters"
  | .tooDeep => "recursion limit exceeded"

/-- A JSON document as far as it can be read. -/
inductive Json where
  | null
  | bool (b : Bool)
  | int (n : Int)
  /-- A number that is not an integer of 64 bits, by the bits of a binary floating-point number. -/
  | float (bits : UInt64)
  | str (s : String)
  | arr (items : List Json)
  /-- Members in the order of the text; a key may occur more than once. -/
  | obj (members : List (String × Json))
  /-- No value stands here. -/
  | hole (whenRead : Json.Fault) (whenSkipped : Option Json.Fault)
  /-- An object that goes on with something else than a readable key. -/
  | ragged (members : List (String × Json)) (whenRead : Json.Fault)
      (whenSkipped : Option Json.Fault)
  deriving Repr

namespace Json

instance : Inhabited Json := ⟨.null⟩

/-- A place that can neither be read nor skipped. -/
def broken (f : Fault) : Json := .hole f (some f)

/-- A list of strings. -/
def strings (ss : List String) : Json := .arr (ss.map .str)

/-! ## Skipping and reading whole -/

mutual

/-- The first fault that is met when a value is skipped. -/
def skipFault : Json → Option Fault
  | .hole _ skipped => skipped
  | .arr items => skipFaultItems items
  | .obj members => skipFaultMembers members
  | .ragged members _ skipped => (skipFaultMembers members).or skipped
  | _ => none

/-- The first fault that is met when the items of a list are skipped. -/
def skipFaultItems : List Json → Option Fault
  | [] => none
  | v :: vs => (skipFault v).or (skipFaultItems vs)

/-- The first fault that is met when the members of an object are skipped. -/
def skipFaultMembers : List (String × Json) → Option Fault
  | [] => none
  | (_, v) :: ms => (skipFault v).or (skipFaultMembers ms)

end

mutual

/-- The first fault that is met when a value is read whole, where at most `depth` lists and objects
may be nested. -/
def readFault (depth : Nat) : Json → Option Fault
  | .hole f _ => some f
  | .arr items => if depth = 0 then some .tooDeep else readFaultItems (depth - 1) items
  | .obj members => if depth = 0 then some .tooDeep else readFaultMembers (depth - 1) members
  | .ragged members f _ =>
    if depth = 0 then some .tooDeep else (readFaultMembers (depth - 1) members).or (some f)
  | _ => none

/-- The first fault that is met when the items of a list are read whole. -/
def readFaultItems (depth : Nat) : List Json → Option Fault
  | [] => none
  | v :: vs => (readFault depth v).or (readFaultItems depth vs)

/-- The first fault that is met when the members of an object are read whole. -/
def readFaultMembers (depth : Nat) : List (String × Json) → Option Fault
  | [] => none
  | (_, v) :: ms => (readFault depth v).or (readFaultMembers depth ms)

end

/-! ## Objects with one member per key -/

/-- Gives a key a value, keeping keys in order and replacing an earlier value. -/
def putMember (key : String) (v : Json) : List (String × Json) → List (String × Json)
  | [] => [(key, v)]
  | (k, w) :: ms =>
    if key < k then (key, v) :: (k, w) :: ms
    else if key = k then (key, v) :: ms
    else (k, w) :: putMember key v ms

mutual

/-- The same document with the members of every object ordered by key, of several members with one
key only the last. -/
def canonical : Json → Json
  | .arr items => .arr (canonicalItems items)
  | .obj members => .obj (canonicalMembers members [])
  | v => v

/-- The items of a list in canonical form. -/
def canonicalItems : List Json → List Json
  | [] => []
  | v :: vs => canonical v :: canonicalItems vs

/-- The members of an object in canonical form, put into `done`. -/
def canonicalMembers : List (String × Json) → List (String × Json) → List (String × Json)
  | [], done => done
  | (k, v) :: ms, done => canonicalMembers ms (putMember k (canonical v) done)

end

/-- The value of the first member with the given key. -/
def member? (key : String) : Json → Option Json
  | .obj members => members.lookup key
  | _ => none

end Json

end StaffRights
