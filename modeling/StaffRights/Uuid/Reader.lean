import StaffRights.Uuid.Basic

/-!
# Reading identifiers

Four spellings are read: the hyphenated form, the same in braces or behind `urn:uuid:`, and the
thirty-two digits without hyphens. Digits may be in either case. A text that is longer than any of
these is refused for its size. Of any other, the first character that is neither a digit nor a
hyphen is named; failing that, the number of groups; failing that, the first group of the wrong
size.
-/

namespace StaffRights.Uuid

/-- Why a text is no identifier. -/
inductive ReadError where
  | character (found : Char) (index : Nat)
  | length (found : Nat)
  | groupCount (found : Nat)
  | groupLength (group expected found : Nat)
  deriving DecidableEq, Repr

/-- The wording of a refusal. -/
def ReadError.message : ReadError → String
  | .character found index => s!"invalid character: found `{found}` at {index}"
  | .length found => s!"invalid length: found {found}"
  | .groupCount found => s!"invalid group count: expected 5, found {found}"
  | .groupLength group expected found =>
    s!"invalid group length in group {group}: expected {expected}, found {found}"

/-- What stands around the digits of a written identifier. -/
inductive Wrapping where
  | bare
  | braces
  | urn
  deriving DecidableEq, Repr

/-- How many characters a wrapping puts before the digits. -/
def Wrapping.offset : Wrapping → Nat
  | .bare => 0
  | .braces => 1
  | .urn => 9

/-- How many characters a wrapping adds to the digits. -/
def Wrapping.size : Wrapping → Nat
  | .bare => 0
  | .braces => 2
  | .urn => 9

/-- The name space that may precede a hyphenated identifier, in any case. -/
def urnScheme : List Char := "urn:uuid:".toList

/-- Tells the wrapping from what it encloses. -/
def unwrap (cs : List Char) : Wrapping × List Char :=
  if 2 ≤ cs.length ∧ cs.head? = some '{' ∧ cs.getLast? = some '}' then
    (.braces, (cs.drop 1).dropLast)
  else if (cs.take 9).map Char.toLower = urnScheme then (.urn, cs.drop 9)
  else (.bare, cs)

/-- May `c` stand in a written identifier? -/
def isPart (c : Char) : Bool := c == '-' || (Text.hexDigit? c).isSome

/-- The identifier that hexadecimal digits spell. -/
def ofDigits (cs : List Char) : Uuid :=
  ofNat ((Text.numeral? 16 Text.hexDigit? cs).getD 0)

/-- The first group whose size is not the expected one: its place, the expected size, its own. -/
def misfit? (groups : List (List Char)) : Option (Nat × Nat × Nat) :=
  ((groups.map List.length).zip groupSizes).zipIdx.findSome? fun ((found, expected), group) =>
    if found = expected then none else some (group, expected, found)

/-- The size of the hyphenated form. -/
def hyphenatedSize : Nat := 36

/-- The size of the longest spelling. -/
def maxSize : Nat := hyphenatedSize + Wrapping.urn.size

/-- What is to be the hyphenated form in a text of `size` bytes, if that size is the one of a
hyphenated form as it is wrapped. A text of the size of the bare form is not unwrapped. -/
def hyphenated? (size : Nat) (cs : List Char) : Option (List Char) :=
  let (wrapping, body) := unwrap cs
  if size = hyphenatedSize then some cs
  else if size = hyphenatedSize + wrapping.size then some body
  else none

/-- Refuses the first character that may not stand in an identifier; `offset` is the place of the
first one of all. -/
def checkParts (offset : Nat) (cs : List Char) : Except ReadError Unit :=
  match cs.findIdx? (!isPart ·) with
  | some i => .error (.character (cs.getD i ' ') (offset + i))
  | none => .ok ()

/-- Reads the groups of an identifier, out of a text of `size` bytes. -/
def ofGroups (size : Nat) (groups : List (List Char)) : Except ReadError Uuid :=
  if groups.length ≠ groupSizes.length then .error (.groupCount groups.length)
  else
    match misfit? groups with
    -- The last group is measured to the end of the text, with all that is wrapped around it.
    | some (4, expected, _) => .error (.groupLength 4 expected (size - 24))
    | some (group, expected, found) => .error (.groupLength group expected found)
    | none => .ok (ofDigits groups.flatten)

/-- Reads digits without hyphens. -/
def ofSimple (cs : List Char) : Except ReadError Uuid :=
  if cs.length = groupSizes.foldr (· + ·) 0 then .ok (ofDigits cs) else .error (.length cs.length)

/-- Reads an identifier in any of its spellings. -/
def parse (s : String) : Except ReadError Uuid := do
  let cs := s.toList
  let size := Text.byteSize cs
  if maxSize < size then .error (.length size)
  else
    match hyphenated? size cs with
    | some body =>
      checkParts 0 body
      ofGroups size (Text.pieces '-' body)
    | none =>
      let (wrapping, body) := unwrap cs
      checkParts wrapping.offset body
      if wrapping = .bare ∧ '-' ∉ body then ofSimple body
      else ofGroups size (Text.pieces '-' body)

end StaffRights.Uuid
