import StaffRights.Json.Basic
import StaffRights.Json.Decimal
import StaffRights.Text.Pieces

/-!
# Reading JSON

The reader turns a text into a document and the rest of the text. It never fails: what cannot be
read becomes a hole in the document. Nesting is bounded by the length of the text.
-/

namespace StaffRights.Json.Reader

/-- What a part of the reader makes of a text: a document and the text after it. -/
abbrev Step := Json × List Char

/-- The characters that may stand between the parts of a document. -/
def isSpace (c : Char) : Bool := c == ' ' || c == '\n' || c == '\t' || c == '\r'

/-- Drops the space in front of a text. -/
def skipSpace (cs : List Char) : List Char := cs.dropWhile isSpace

/-- Nothing more can be made of the text. -/
def stop (whenRead whenSkipped : Fault) : Step := (.hole whenRead (some whenSkipped), [])

/-! ## Words and numbers -/

/-- Reads the rest of a word that stands for `v`. -/
def word (v : Json) : List Char → List Char → Step
  | [], cs => (v, cs)
  | _ :: _, [] => stop .endInWord .endInWord
  | w :: ws, c :: cs => if w = c then word v ws cs else stop .expectedWord .expectedWord

/-- Splits off the decimal digits in front of a text. -/
def digits (cs : List Char) : List Nat × List Char :=
  ((cs.takeWhile Char.isDigit).map fun c => c.toNat - '0'.toNat, cs.dropWhile Char.isDigit)

/-- Splits off at least one decimal digit. -/
def digits1 (cs : List Char) : Except Fault (List Nat × List Char) :=
  match digits cs with
  | ([], []) => .error .endInNumber
  | ([], _) => .error .invalidNumber
  | found => .ok found

/-- Splits off the digits before the point; a leading zero stands alone. -/
def integerPart (cs : List Char) : Except Fault (List Nat × List Char) := do
  let (ds, rest) ← digits1 cs
  if ds.head? = some 0 ∧ ds.length ≠ 1 then .error .invalidNumber else .ok (ds, rest)

/-- Splits off a point with the digits after it, if there is a point. -/
def fractionPart : List Char → Except Fault (Option (List Nat) × List Char)
  | '.' :: cs => (digits1 cs).map fun (ds, rest) => (some ds, rest)
  | cs => .ok (none, cs)

/-- The value of a list of decimal digits. -/
def valueOf (ds : List Nat) : Nat := ds.foldl (fun n d => 10 * n + d) 0

/-- Splits off an exponent, if there is one. -/
def exponentPart : List Char → Except Fault (Option Int × List Char)
  | c :: cs =>
    if c = 'e' ∨ c = 'E' then
      let (sign, cs) : Int × List Char := match cs with
        | '-' :: rest => (-1, rest)
        | '+' :: rest => (1, rest)
        | _ => (1, cs)
      (digits1 cs).map fun (ds, rest) => (some (sign * valueOf ds), rest)
    else .ok (none, c :: cs)
  | [] => .ok (none, [])

/-- A numeral as a value: an integer if it is written as one and fits into 64 bits. -/
def numeral (negative : Bool) (integer : List Nat) (fraction : Option (List Nat))
    (exponent : Option Int) : Json :=
  let n := valueOf integer
  let plain := fraction.isNone && exponent.isNone
  if plain && !negative && n < Nat.pow 2 64 then .int n
  else if plain && negative && 0 < n && n ≤ Nat.pow 2 63 then .int (-n)
  else
    match Decimal.toBits negative integer (fraction.getD []) (exponent.getD 0) with
    | some bits => .float bits
    | none => .hole .numberTooLarge none

/-- Reads a number. -/
def number (cs : List Char) : Step :=
  let (negative, body) := match cs with
    | '-' :: rest => (true, rest)
    | _ => (false, cs)
  let parts : Except Fault Step := do
    let (integer, rest) ← integerPart body
    let (fraction, rest) ← fractionPart rest
    let (exponent, rest) ← exponentPart rest
    return (numeral negative integer fraction exponent, rest)
  match parts with
  | .ok step => step
  | .error f => stop f .invalidNumber

/-! ## Strings -/

/-- A part of a string: a character, or a code unit given in hexadecimal. -/
inductive Part where
  | char (c : Char)
  | unit (n : Nat)

/-- The character that a one-letter escape stands for. -/
def escaped? : Char → Option Char
  | '"' => some '"'
  | '\\' => some '\\'
  | '/' => some '/'
  | 'b' => some '\x08'
  | 'f' => some '\x0c'
  | 'n' => some '\n'
  | 'r' => some '\r'
  | 't' => some '\t'
  | _ => none

/-- The code unit that four hexadecimal digits in front of a text give. -/
def codeUnit? (cs : List Char) : Option Nat :=
  if (cs.take 4).length = 4 then Text.numeral? 16 Text.hexDigit? (cs.take 4) else none

/-- Splits a string into its parts, up to the closing quote or the first fault. -/
def parts : List Char → List Part × Except Fault (List Char)
  | [] => ([], .error .endInString)
  | '"' :: rest => ([], .ok rest)
  | ['\\'] => ([], .error .endInString)
  | '\\' :: 'u' :: a :: b :: c :: d :: rest =>
    match codeUnit? [a, b, c, d] with
    | some n => let (ps, tail) := parts rest; (.unit n :: ps, tail)
    | none => ([], .error .invalidHexEscape)
  | '\\' :: 'u' :: rest =>
    ([], .error (if Text.byteSize rest < 4 then .endInString else .invalidHexEscape))
  | '\\' :: e :: rest =>
    match escaped? e with
    | some c => let (ps, tail) := parts rest; (.char c :: ps, tail)
    | none => ([], .error .unknownEscape)
  | c :: rest =>
    if c.toNat < 0x20 then ([], .error .controlCharacter)
    else let (ps, tail) := parts rest; (.char c :: ps, tail)

/-- Is the code unit the first half of a surrogate pair? -/
def isHigh (n : Nat) : Bool := 0xD800 ≤ n && n ≤ 0xDBFF

/-- Is the code unit the second half of a surrogate pair? -/
def isLow (n : Nat) : Bool := 0xDC00 ≤ n && n ≤ 0xDFFF

/-- The fault of a first half that nothing but the end of the parts follows. -/
def afterHigh : Option Fault → Fault
  | some .endInString => .endInString
  | some .invalidHexEscape => .invalidHexEscape
  | _ => .incompletePair

/-- Joins the parts of a string; `ending` is the fault after the last part, if there is one. -/
def join (ending : Option Fault) : List Part → Except Fault (List Char)
  | [] => .ok []
  | .char c :: ps => (join ending ps).map (c :: ·)
  | .unit n :: .unit m :: ps =>
    if isHigh n then
      if isLow m then
        (join ending ps).map (Char.ofNat (0x10000 + (n - 0xD800) * 0x400 + (m - 0xDC00)) :: ·)
      else .error .loneSurrogate
    else if isLow n then .error .loneSurrogate
    else (join ending (.unit m :: ps)).map (Char.ofNat n :: ·)
  | .unit n :: ps =>
    if isHigh n then .error (if ps.isEmpty then afterHigh ending else .incompletePair)
    else if isLow n then .error .loneSurrogate
    else (join ending ps).map (Char.ofNat n :: ·)

/-- Reads the text of a string after its opening quote. Of a string without a text the fault for a
reader is given, and the one for someone who skips it, if there is one. -/
def stringText (cs : List Char) : Except (Fault × Option Fault) String × List Char :=
  match parts cs with
  | (ps, .ok rest) =>
    match join none ps with
    | .ok s => (.ok (String.ofList s), rest)
    | .error f => (.error (f, none), rest)
  | (ps, .error f) =>
    match join (some f) ps with
    | .ok _ => (.error (f, some f), [])
    | .error first => (.error (first, some f), [])

/-- Reads a string after its opening quote. -/
def string (cs : List Char) : Step :=
  match stringText cs with
  | (.ok s, rest) => (.str s, rest)
  | (.error (f, skipped), rest) => (.hole f skipped, rest)

/-! ## Documents -/

/-- Puts a member in front of those of an object. -/
def prepend (key : String) (v : Json) : Json → Json
  | .obj members => .obj ((key, v) :: members)
  | .ragged members read skipped => .ragged ((key, v) :: members) read skipped
  | other => other

/-- An object that cannot be read from here on. -/
def halt (whenRead whenSkipped : Fault) : Step := (.ragged [] whenRead (some whenSkipped), [])

/-- Splits off the colon after a key. -/
def colon (cs : List Char) : Except Fault (List Char) :=
  match skipSpace cs with
  | ':' :: rest => .ok rest
  | [] => .error .endInObject
  | _ => .error .expectedColon

mutual

/-- Reads a value. -/
def value : Nat → List Char → Step
  | 0, _ => stop .tooDeep .tooDeep
  | n + 1, cs =>
    match skipSpace cs with
    | [] => stop .endOfInput .endOfInput
    | '"' :: rest => string rest
    | '[' :: rest =>
      let (vs, rest) := items n true rest
      (.arr vs, rest)
    | '{' :: rest => members n true rest
    | 'n' :: rest => word .null "ull".toList rest
    | 't' :: rest => word (.bool true) "rue".toList rest
    | 'f' :: rest => word (.bool false) "alse".toList rest
    | c :: rest =>
      if c = '-' ∨ c.isDigit then number (c :: rest) else stop .expectedValue .expectedValue

/-- Reads the items of a list, up to the closing bracket. -/
def items : Nat → Bool → List Char → List Json × List Char
  | 0, _, _ => ([broken .tooDeep], [])
  | n + 1, first, cs =>
    let item (cs : List Char) : List Json × List Char :=
      let (v, rest) := value n cs
      let (vs, rest) := items n false rest
      (v :: vs, rest)
    match skipSpace cs with
    | [] => ([broken .endInList], [])
    | ']' :: rest => ([], rest)
    | c :: rest =>
      if first then item (c :: rest)
      else if c = ',' then
        match skipSpace rest with
        | ']' :: _ => ([.hole .trailingComma (some .expectedValue)], [])
        | rest => item rest
      else ([broken .expectedListEnd], [])

/-- Reads the members of an object, up to the closing brace. -/
def members : Nat → Bool → List Char → Step
  | 0, _, _ => halt .tooDeep .tooDeep
  | n + 1, first, cs =>
    let rest (cs : List Char) : Json × Step :=
      let (v, cs) := value n cs
      (v, members n false cs)
    let entry (cs : List Char) : Step :=
      match stringText cs with
      | (.ok key, cs) =>
        match colon cs with
        | .error f => (.obj [(key, broken f)], [])
        | .ok cs =>
          let (v, j, cs) := rest cs
          (prepend key v j, cs)
      | (.error (f, some g), _) => halt f g
      | (.error (f, none), cs) =>
        match colon cs with
        | .error g => halt f g
        | .ok cs =>
          let (v, j, cs) := rest cs
          (.ragged [] f ((skipFault v).or (skipFault j)), cs)
    match skipSpace cs with
    | [] => halt .endInObject .endInObject
    | '}' :: rest => (.obj [], rest)
    | c :: rest =>
      if first then
        if c = '"' then entry rest else halt .keyNotString .keyNotString
      else if c = ',' then
        match skipSpace rest with
        | '"' :: rest => entry rest
        | '}' :: _ => halt .trailingComma .keyNotString
        | [] => halt .endOfInput .endInObject
        | _ => halt .keyNotString .keyNotString
      else halt .expectedObjectEnd .expectedObjectEnd

end

/-- Reads the document in front of a text. -/
def document (cs : List Char) : Step := value (2 * cs.length + 2) cs

end StaffRights.Json.Reader
