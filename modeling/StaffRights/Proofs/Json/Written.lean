import Mathlib.Algebra.Ring.Int.Defs
import Mathlib.Data.List.Basic
import StaffRights.Json.Decoding
import StaffRights.Json.Printer
import StaffRights.Proofs.Uuid

/-!
# Reading what was written

A document of null, truth values, integers of 64 bits, strings, lists and objects is read back from
its text, in one line or over several: a decoder is given the very document that was written.

The reader looks ahead in two places. A number goes on as long as digits, a point or an exponent
follow, and the closing bracket of a list is looked for where its first item may stand. So what
comes after a value is part of the statement about it (`Ends`), and so is how it begins.
-/

namespace StaffRights.Json

/-- A document of values that are written and read as they are. -/
inductive Plain : Json → Prop
  | null : Plain .null
  | bool (b : Bool) : Plain (.bool b)
  | int {n : Int} (hlow : -2 ^ 63 ≤ n) (hhigh : n < 2 ^ 64) : Plain (.int n)
  | str (s : String) : Plain (.str s)
  | arr {items : List Json} (hitems : ∀ v ∈ items, Plain v) : Plain (.arr items)
  | obj {members : List (String × Json)} (hmembers : ∀ m ∈ members, Plain m.2) :
      Plain (.obj members)

namespace Reader

/-! ## Strings -/

/-- The part of a string that the writer makes of a character. -/
def written (c : Char) : Part :=
  if Printer.letter? c = none ∧ c.toNat < 0x20 then .unit c.toNat else .char c

/-- A code unit is read back from its four digits. -/
theorem codeUnit?_hexDigits {n : Nat} (hn : n < 0x10000) :
    codeUnit? (Text.hexDigits 4 n) = some n := by
  have hlength := Text.length_hexDigits 4 n
  have htake : (Text.hexDigits 4 n).take 4 = Text.hexDigits 4 n :=
    List.take_of_length_le (Nat.le_of_eq hlength)
  rw [codeUnit?, htake, if_pos hlength, Text.numeral?_hexDigits, Nat.mod_eq_of_lt (b := 16 ^ 4) hn]

/-- An escape with four digits is one part. -/
theorem parts_unit {ds rest : List Char} {n : Nat} (hlength : ds.length = 4)
    (hunit : codeUnit? ds = some n) :
    parts ('\\' :: 'u' :: (ds ++ rest)) = (.unit n :: (parts rest).1, (parts rest).2) := by
  match ds, hlength with
  | [a, b, c, d], _ =>
    show parts ('\\' :: 'u' :: a :: b :: c :: d :: rest) = _
    rw [parts, hunit]

/-- A character that needs no escape is one part. -/
theorem parts_char {c : Char} {rest : List Char} (hquote : c ≠ '"') (hslash : c ≠ '\\')
    (hcontrol : ¬ c.toNat < 0x20) :
    parts (c :: rest) = (.char c :: (parts rest).1, (parts rest).2) := by
  rw [parts, if_neg hcontrol] <;> simp_all

/-- A character that is written in a string is read as one part. -/
theorem parts_ofChar (c : Char) (rest : List Char) :
    parts (Printer.ofChar c ++ rest) = (written c :: (parts rest).1, (parts rest).2) := by
  cases hletter : Printer.letter? c with
  | some l =>
    have hofChar : Printer.ofChar c = ['\\', l] := by rw [Printer.ofChar, hletter]
    have hwritten : written c = .char c := by simp [written, hletter]
    rw [hofChar, hwritten]
    unfold Printer.letter? at hletter
    split at hletter <;> first | cases hletter; rfl | cases hletter
  | none =>
    have hquote : c ≠ '"' := by rintro rfl; cases hletter
    have hslash : c ≠ '\\' := by rintro rfl; cases hletter
    by_cases hcontrol : c.toNat < 0x20
    · have hofChar : Printer.ofChar c = '\\' :: 'u' :: Text.hexDigits 4 c.toNat := by
        simp [Printer.ofChar, hletter, hcontrol]
      have hwritten : written c = .unit c.toNat := by simp [written, hletter, hcontrol]
      rw [hofChar, hwritten]
      exact parts_unit (Text.length_hexDigits ..) (codeUnit?_hexDigits (by omega))
    · have hofChar : Printer.ofChar c = [c] := by simp [Printer.ofChar, hletter, hcontrol]
      have hwritten : written c = .char c := by simp [written, hcontrol]
      rw [hofChar, hwritten]
      exact parts_char hquote hslash hcontrol

/-- Written characters are read part by part, up to the closing quote. -/
theorem parts_flatMap_ofChar (cs rest : List Char) :
    parts (cs.flatMap Printer.ofChar ++ '"' :: rest) = (cs.map written, .ok rest) := by
  induction cs with
  | nil => rfl
  | cons c cs ih => rw [List.flatMap_cons, List.append_assoc, parts_ofChar, ih, List.map_cons]

/-- A code unit that is no half of a pair stands for a character. -/
theorem join_unit {n : Nat} (hn : n < 0xD800) (ending : Option Fault) (ps : List Part) :
    join ending (.unit n :: ps) = (join ending ps).map (Char.ofNat n :: ·) := by
  have hhigh : isHigh n = false := by simp [isHigh]; omega
  have hlow : isLow n = false := by simp [isLow]; omega
  match ps with
  | [] => simp [join, hhigh, hlow]
  | .char c :: ps => simp [join, hhigh, hlow]
  | .unit m :: ps => simp [join, hhigh, hlow]

/-- The parts of written characters make the characters again, as none of them is a surrogate. -/
theorem join_map_written (cs : List Char) : join none (cs.map written) = .ok cs := by
  induction cs with
  | nil => rfl
  | cons c cs ih =>
    rw [List.map_cons, written]
    split
    · next hcontrol =>
      rw [join_unit (by omega), ih, Char.ofNat_toNat]
      rfl
    · rw [join, ih]
      rfl

/-- A written string is read back. -/
theorem stringText_written (s : String) (rest : List Char) :
    stringText (s.toList.flatMap Printer.ofChar ++ '"' :: rest) = (.ok s, rest) := by
  rw [stringText, parts_flatMap_ofChar]
  simp only [join_map_written, String.ofList_toList]

/-! ## Numbers -/

/-- What may follow a value in a text. -/
def Ends (cs : List Char) : Prop := ∀ c ∈ cs.head?, isSpace c ∨ c ∈ [',', ']', '}']

/-- What follows a value goes on with nothing that belongs to a number. -/
theorem Ends.ne {c : Char} {cs : List Char} (h : Ends (c :: cs)) :
    c.isDigit = false ∧ c ≠ '.' ∧ c ≠ 'e' ∧ c ≠ 'E' := by
  rcases h c rfl with hspace | hmem
  · simp only [isSpace, Bool.or_eq_true, beq_iff_eq] at hspace
    rcases hspace with ((rfl | rfl) | rfl) | rfl <;> decide
  · simp only [List.mem_cons, List.not_mem_nil, or_false] at hmem
    rcases hmem with rfl | rfl | rfl <;> decide

/-- A comma or a closing bracket may follow a value. -/
theorem ends_cons {c : Char} {cs : List Char} (hc : c ∈ [',', ']', '}']) : Ends (c :: cs) := by
  rintro c' ⟨⟩
  exact .inr hc

/-- Space may follow a value, before what may follow it. -/
theorem ends_append {sp cs : List Char} (hsp : ∀ c ∈ sp, isSpace c) (h : Ends cs) :
    Ends (sp ++ cs) := by
  cases sp with
  | nil => exact h
  | cons c sp =>
    rintro c' ⟨⟩
    exact .inl (hsp c List.mem_cons_self)

/-- What follows a value is no fraction. -/
theorem fractionPart_of_ends {cs : List Char} (h : Ends cs) : fractionPart cs = .ok (none, cs) := by
  cases cs with
  | nil => rfl
  | cons c cs =>
    unfold fractionPart
    split
    · next heq => exact absurd (List.cons.inj heq).1 h.ne.2.1
    · rfl

/-- What follows a value is no exponent. -/
theorem exponentPart_of_ends {cs : List Char} (h : Ends cs) : exponentPart cs = .ok (none, cs) := by
  cases cs with
  | nil => rfl
  | cons c cs => simp [exponentPart, h.ne.2.2]

/-- The digits of a number. -/
def digitsOf (n : Nat) : List Nat := (Nat.toDigits 10 n).map fun c => c.toNat - '0'.toNat

/-- Digits are read up to what follows them. -/
theorem digits_append (n : Nat) {rest : List Char} (h : Ends rest) :
    digits (Nat.toDigits 10 n ++ rest) = (digitsOf n, rest) := by
  have hdigits : ∀ c ∈ Nat.toDigits 10 n, c.isDigit = true :=
    fun _ => Nat.isDigit_of_mem_toDigits (by decide) (by decide)
  rw [digits, List.takeWhile_append_of_pos hdigits, List.dropWhile_append_of_pos hdigits]
  cases rest with
  | nil => simp [digitsOf]
  | cons c rest => simp [digitsOf, h.ne.1]

/-- The digits of a number make the number again. -/
theorem valueOf_digitsOf (n : Nat) : valueOf (digitsOf n) = n := by
  rw [valueOf, digitsOf, List.foldl_map, ← Nat.ofDigitChars_eq_foldl, Nat.ofDigitChars_ten_toDigits]

/-- Only zero begins with a zero. -/
theorem eq_zero_of_head?_digitsOf {n : Nat} (h : (digitsOf n).head? = some 0) : n = 0 := by
  induction n using Nat.strongRecOn with
  | ind n ih =>
    rcases Nat.lt_or_ge n 10 with hlt | hge
    · have hall : ∀ d < 10, (Nat.digitChar d).toNat - '0'.toNat = 0 → d = 0 := by decide
      rw [digitsOf, Nat.toDigits_of_lt_base hlt] at h
      exact hall n hlt (Option.some.inj h)
    · rw [digitsOf, Nat.toDigits_of_base_le (by decide) hge, List.map_append,
        List.head?_append_of_ne_nil _ (by simp [Nat.toDigits_ne_nil])] at h
      have hzero := ih (n / 10) (by omega) h
      omega

/-- Written digits are read as a whole, as none starts with a needless zero. -/
theorem integerPart_append (n : Nat) {rest : List Char} (h : Ends rest) :
    integerPart (Nat.toDigits 10 n ++ rest) = .ok (digitsOf n, rest) := by
  have hne : digitsOf n ≠ [] := by simp [digitsOf, Nat.toDigits_ne_nil]
  have hdigits1 : digits1 (Nat.toDigits 10 n ++ rest) = .ok (digitsOf n, rest) := by
    rw [digits1, digits_append n h]
    split <;> simp_all
  have hzero : ¬ ((digitsOf n).head? = some 0 ∧ (digitsOf n).length ≠ 1) := by
    rintro ⟨hhead, hlength⟩
    rw [eq_zero_of_head?_digitsOf hhead] at hlength
    exact hlength rfl
  rw [integerPart, hdigits1]
  exact if_neg hzero

/-- Digits of a number in 64 bits stand for the number. -/
theorem numeral_digitsOf {n : Nat} (hn : n < 2 ^ 64) :
    numeral false (digitsOf n) none none = .int n := by
  have hfits : n < Nat.pow 2 64 := hn
  simp only [numeral, valueOf_digitsOf, hfits]
  rfl

/-- With a sign, digits stand for the negative number, if 64 bits hold it. -/
theorem numeral_neg_digitsOf {n : Nat} (hpos : 0 < n) (hn : n ≤ 2 ^ 63) :
    numeral true (digitsOf n) none none = .int (-n) := by
  have hfits : n ≤ Nat.pow 2 63 := hn
  simp only [numeral, valueOf_digitsOf, hpos, hfits]
  rfl

/-- A numeral begins with a digit, and not with a sign. -/
theorem head_toDigits (n : Nat) : ∃ d ds, Nat.toDigits 10 n = d :: ds ∧ d.isDigit := by
  cases hds : Nat.toDigits 10 n with
  | nil => exact absurd hds Nat.toDigits_ne_nil
  | cons d ds =>
    have hmem : d ∈ Nat.toDigits 10 n := hds ▸ List.mem_cons_self
    exact ⟨d, ds, rfl, Nat.isDigit_of_mem_toDigits (by decide) (by decide) hmem⟩

/-- A written number is read back. -/
theorem number_toDigits {n : Nat} (hn : n < 2 ^ 64) {rest : List Char} (h : Ends rest) :
    number (Nat.toDigits 10 n ++ rest) = (.int n, rest) := by
  have hsign : ∀ cs, Nat.toDigits 10 n ++ rest ≠ '-' :: cs := by
    obtain ⟨d, ds, hds, hdigit⟩ := head_toDigits n
    rintro cs heq
    rw [hds] at heq
    cases (List.cons.inj heq).1
    cases hdigit
  unfold number
  split
  next negative body heq =>
    split at heq
    · next hminus => exact absurd hminus (hsign _)
    · cases heq
      simp only [integerPart_append n h, fractionPart_of_ends h, exponentPart_of_ends h, bind,
        Except.bind, pure, Except.pure, numeral_digitsOf hn]

/-- A written negative number is read back. -/
theorem number_neg {n : Nat} (hpos : 0 < n) (hn : n ≤ 2 ^ 63) {rest : List Char} (h : Ends rest) :
    number ('-' :: (Nat.toDigits 10 n ++ rest)) = (.int (-n), rest) := by
  simp only [number, integerPart_append n h, fractionPart_of_ends h, exponentPart_of_ends h, bind,
    Except.bind, pure, Except.pure, numeral_neg_digitsOf hpos hn]

/-! ## One step of the reader -/

variable {n : Nat} {sp cs rest : List Char}

/-- Space is skipped. -/
theorem skipSpace_append (hsp : ∀ c ∈ sp, isSpace c) : skipSpace (sp ++ cs) = skipSpace cs :=
  List.dropWhile_append_of_pos hsp

/-- Nothing else is skipped. -/
theorem skipSpace_cons {c : Char} (hc : isSpace c = false) : skipSpace (c :: cs) = c :: cs := by
  simp [skipSpace, hc]

/-- Skipping stops at the first character that is no space. -/
theorem skipSpace_append_cons {c : Char} (hsp : ∀ c ∈ sp, isSpace c) (hc : isSpace c = false) :
    skipSpace (sp ++ c :: cs) = c :: cs := by
  rw [skipSpace_append hsp, skipSpace_cons hc]

/-- Space before a value is skipped. -/
theorem value_space (hsp : ∀ c ∈ sp, isSpace c) : value n (sp ++ cs) = value n cs := by
  cases n with
  | zero => rfl
  | succ n => rw [value, value, skipSpace_append hsp]

/-- A number begins neither with a space nor with a closing bracket. -/
theorem head_of_number {c : Char} (hc : c = '-' ∨ c.isDigit) : isSpace c = false ∧ c ≠ ']' := by
  constructor
  · cases h : isSpace c with
    | false => rfl
    | true =>
      simp only [isSpace, Bool.or_eq_true, beq_iff_eq] at h
      rcases h with ((rfl | rfl) | rfl) | rfl <;> rcases hc with hc | hc <;> cases hc
  · rintro rfl
    rcases hc with hc | hc <;> cases hc

/-- A sign or a digit starts a number. -/
theorem value_number {c : Char} (hc : c = '-' ∨ c.isDigit) :
    value (n + 1) (c :: cs) = number (c :: cs) := by
  rw [value, skipSpace_cons (head_of_number hc).1]
  split
  case h_8 heq =>
    cases heq
    exact if_pos hc
  all_goals
    next heq => cases heq <;> rcases hc with hc | hc <;> cases hc

theorem value_string : value (n + 1) ('"' :: cs) = string cs := rfl

theorem value_list :
    value (n + 1) ('[' :: cs) = (.arr (items n true cs).1, (items n true cs).2) := rfl

theorem value_object : value (n + 1) ('{' :: cs) = members n true cs := rfl

/-- A closing bracket ends a list. -/
theorem items_end {first : Bool} (hsp : ∀ c ∈ sp, isSpace c) :
    items (n + 1) first (sp ++ ']' :: rest) = ([], rest) := by
  rw [items, skipSpace_append_cons hsp rfl]
  rfl

/-- The first item of a list is read, and then what follows it. -/
theorem items_first {c : Char} (hsp : ∀ c ∈ sp, isSpace c) (hspace : isSpace c = false)
    (hc : c ≠ ']') {v : Json} (hv : value n (c :: cs) = (v, rest)) :
    items (n + 1) true (sp ++ c :: cs) = (v :: (items n false rest).1, (items n false rest).2) := by
  simp [items, skipSpace_append_cons hsp hspace, hv]

/-- After a comma the list goes on as it began. -/
theorem items_comma {c : Char} (hsp : ∀ c ∈ sp, isSpace c) (hspace : isSpace c = false)
    (hc : c ≠ ']') :
    items (n + 1) false (',' :: (sp ++ c :: cs)) = items (n + 1) true (sp ++ c :: cs) := by
  simp [items, skipSpace_append_cons hsp hspace, skipSpace_cons (show isSpace ',' = false from rfl),
    hc]

/-- A closing brace ends an object. -/
theorem members_end {first : Bool} (hsp : ∀ c ∈ sp, isSpace c) :
    members (n + 1) first (sp ++ '}' :: rest) = (.obj [], rest) := by
  rw [members, skipSpace_append_cons hsp rfl]
  rfl

/-- The first key of an object is read with its value, and then what follows them. -/
theorem members_first (hsp : ∀ c ∈ sp, isSpace c) {key : String} {cs' : List Char}
    (hkey : stringText cs = (.ok key, ':' :: cs')) {v : Json} (hv : value n cs' = (v, rest)) :
    members (n + 1) true (sp ++ '"' :: cs) =
      (prepend key v (members n false rest).1, (members n false rest).2) := by
  simp [members, skipSpace_append_cons hsp (show isSpace '"' = false from rfl), hkey, colon,
    skipSpace_cons (show isSpace ':' = false from rfl), hv]

/-- After a comma the next member is read like a first one. -/
theorem members_comma (hsp : ∀ c ∈ sp, isSpace c) :
    members (n + 1) false (',' :: (sp ++ '"' :: cs)) = members (n + 1) true (sp ++ '"' :: cs) := by
  simp [members, skipSpace_append_cons hsp (show isSpace '"' = false from rfl),
    skipSpace_cons (show isSpace ',' = false from rfl)]

end Reader

/-! ## Whole documents -/

namespace Printer

open Reader (Ends isSpace)

variable {layout : Layout} {level n : Nat} {rest : List Char}

/-- A layout puts nothing but space between the parts of a document. -/
structure Layout.Spaced (layout : Layout) : Prop where
  lineStart : ∀ level, ∀ c ∈ layout.lineStart level, isSpace c
  colon : ∃ sp, layout.colon = ':' :: sp ∧ ∀ c ∈ sp, isSpace c

theorem Layout.Spaced.compact : Layout.compact.Spaced :=
  ⟨fun _ _ => nofun, [], rfl, nofun⟩

/-- The indented layout puts line breaks and blanks between the parts. -/
theorem Layout.Spaced.pretty : Layout.pretty.Spaced := by
  refine ⟨fun level c hc => ?_, [' '], rfl, fun c hc => List.mem_singleton.1 hc ▸ rfl⟩
  rcases List.mem_cons.1 hc with rfl | hc
  · rfl
  · rw [List.eq_of_mem_replicate hc]
    rfl

/-- What stands after the opening bracket of a list or an object with at least one part. -/
def Layout.body (layout : Layout) (level : Nat) (closing : Char) (p : List Char) :
    List (List Char) → List Char
  | [] => layout.lineStart (level + 1) ++ (p ++ (layout.lineStart level ++ [closing]))
  | q :: parts =>
    layout.lineStart (level + 1) ++ (p ++ ',' :: layout.body level closing q parts)

/-- A list of parts starts with the first of them on its own line. -/
theorem Layout.exists_body (layout : Layout) (level : Nat) (closing : Char) (p : List Char)
    (parts : List (List Char)) :
    ∃ cs, layout.body level closing p parts = layout.lineStart (level + 1) ++ (p ++ cs) := by
  cases parts <;> exact ⟨_, rfl⟩

theorem Layout.enclose_cons {opening closing : Char} {p : List Char} {parts : List (List Char)} :
    layout.enclose level opening closing (p :: parts) =
      opening :: layout.body level closing p parts := by
  have hparts : [','].intercalate ((p :: parts).map (layout.lineStart (level + 1) ++ ·)) ++
      (layout.lineStart level ++ [closing]) = layout.body level closing p parts := by
    induction parts generalizing p with
    | nil => simp [body]
    | cons q parts ih =>
      rw [body, ← ih, List.map_cons, List.map_cons, List.intercalate_cons_cons, ← List.map_cons]
      simp
  rw [← hparts, enclose]
  simp

/-- What is enclosed starts with the opening bracket. -/
theorem head_enclose (layout : Layout) (level : Nat) (opening closing : Char)
    (parts : List (List Char)) :
    ∃ cs, layout.enclose level opening closing parts = opening :: cs := by
  cases parts with
  | nil => exact ⟨_, rfl⟩
  | cons p parts => exact ⟨_, Layout.enclose_cons⟩

/-! ### Integers -/

/-- A number is written as its digits. -/
theorem value_natCast (m : Nat) : value layout level (.int m) = Nat.toDigits 10 m :=
  Nat.toList_repr

/-- A negative number is written as a sign and digits. -/
theorem value_negSucc (m : Nat) :
    value layout level (.int (.negSucc m)) = '-' :: Nat.toDigits 10 (m + 1) := by
  have hrepr : toString (Int.negSucc m) = "-" ++ Nat.repr (m + 1) := rfl
  rw [value, hrepr, String.toList_append, Nat.toList_repr]
  rfl

/-- A number in the range of 64 bits is read back. -/
theorem read_int {z : Int} (hlow : -2 ^ 63 ≤ z) (hhigh : z < 2 ^ 64) (hrest : Ends rest) :
    Reader.value (n + 1) (value layout level (.int z) ++ rest) = (.int z, rest) := by
  cases z with
  | ofNat m =>
    obtain ⟨d, ds, hds, hdigit⟩ := Reader.head_toDigits m
    have hm : m < 2 ^ 64 := Int.ofNat_lt.1 hhigh
    have hread := Reader.number_toDigits hm hrest
    rw [Int.ofNat_eq_natCast, value_natCast, hds, List.cons_append,
      Reader.value_number (.inr hdigit), ← List.cons_append, ← hds, hread]
  | negSucc m =>
    rw [value_negSucc, List.cons_append, Reader.value_number (.inl rfl),
      Reader.number_neg m.succ_pos (by omega) hrest]
    rfl

/-! ### Lists and objects -/

/-- The text of a value begins with a character that is no space, and no closing bracket. -/
theorem head_value (layout : Layout) (level : Nat) {v : Json} (hv : v.Plain) :
    ∃ c cs, value layout level v = c :: cs ∧ isSpace c = false ∧ c ≠ ']' := by
  cases hv with
  | null => exact ⟨_, _, rfl, rfl, by decide⟩
  | bool b => cases b <;> exact ⟨_, _, rfl, rfl, by decide⟩
  | @int z =>
    cases z with
    | ofNat m =>
      obtain ⟨d, ds, hds, hdigit⟩ := Reader.head_toDigits m
      exact ⟨d, ds, (value_natCast m).trans hds, Reader.head_of_number (.inr hdigit)⟩
    | negSucc m => exact ⟨_, _, value_negSucc m, rfl, by decide⟩
  | str s => exact ⟨_, _, rfl, rfl, by decide⟩
  | arr =>
    obtain ⟨cs, hcs⟩ := head_enclose layout level '[' ']' _
    exact ⟨_, _, hcs, rfl, by decide⟩
  | obj =>
    obtain ⟨cs, hcs⟩ := head_enclose layout level '{' '}' _
    exact ⟨_, _, hcs, rfl, by decide⟩

/-- The text of one member of an object. -/
def member (layout : Layout) (level : Nat) (m : String × Json) : List Char :=
  string m.1 ++ layout.colon ++ value layout level m.2

theorem members_cons {m : String × Json} {ms : List (String × Json)} :
    members layout level (m :: ms) = member layout level m :: members layout level ms := rfl

/-- The reader makes of the text of a value that value, if it may go far enough. -/
def Reads (layout : Layout) (v : Json) : Prop :=
  ∀ level n rest, Ends rest → 2 * (value layout level v).length ≤ n →
    Reader.value (n + 1) (value layout level v ++ rest) = (v, rest)

variable (hlayout : layout.Spaced)
include hlayout

/-- The first item is read back, if each item is, and reading goes on behind it. -/
theorem items_value {v : Json} (hv : v.Plain) (hreads : Reads layout v) (hrest : Ends rest)
    (hn : 2 * (value layout (level + 1) v).length ≤ n) :
    Reader.items (n + 2) true
        (layout.lineStart (level + 1) ++ (value layout (level + 1) v ++ rest)) =
      (v :: (Reader.items (n + 1) false rest).1, (Reader.items (n + 1) false rest).2) := by
  obtain ⟨c, cs, hcs, hspace, hc⟩ := head_value layout (level + 1) hv
  have hvalue := hreads (level + 1) n rest hrest hn
  rw [hcs] at hvalue ⊢
  exact Reader.items_first (hlayout.lineStart _) hspace hc hvalue

/-- After a comma the next item is read like a first one. -/
theorem items_comma {v : Json} (hv : v.Plain) (parts : List (List Char)) :
    let body := layout.body level ']' (value layout (level + 1) v) parts ++ rest
    Reader.items (n + 1) false (',' :: body) = Reader.items (n + 1) true body := by
  obtain ⟨c, cs, hcs, hspace, hc⟩ := head_value layout (level + 1) hv
  obtain ⟨cs', hbody⟩ := layout.exists_body level ']' (value layout (level + 1) v) parts
  rw [hbody, hcs, List.append_assoc]
  exact Reader.items_comma (hlayout.lineStart _) hspace hc

/-- A list with a first item is read to its closing bracket. -/
theorem items_body {v : Json} {vs : List Json} (hplain : ∀ w ∈ v :: vs, w.Plain)
    (hreads : ∀ w ∈ v :: vs, Reads layout w)
    (hn : 2 * (layout.body level ']' (value layout (level + 1) v)
      (values layout (level + 1) vs)).length ≤ n) :
    Reader.items (n + 2) true (layout.body level ']' (value layout (level + 1) v)
      (values layout (level + 1) vs) ++ rest) = (v :: vs, rest) := by
  rw [List.forall_mem_cons] at hplain hreads
  -- by induction on the items after the first: each takes one more step of the reader
  induction vs generalizing v n with
  | nil =>
    have hends : Ends (layout.lineStart level ++ ']' :: rest) :=
      Reader.ends_append (hlayout.lineStart level) (Reader.ends_cons (by decide))
    simp only [values, Layout.body, List.length_append] at hn
    simp only [values, Layout.body, List.append_assoc, List.singleton_append]
    rw [items_value hlayout hplain.1 hreads.1 hends (by omega),
      Reader.items_end (hlayout.lineStart level)]
  | cons w ws ih =>
    simp only [values, Layout.body, List.length_append, List.length_cons] at hn
    obtain ⟨n, rfl⟩ : ∃ m, n = m + 1 := ⟨n - 1, by omega⟩
    have hws := ih (List.forall_mem_cons.1 hplain.2) (List.forall_mem_cons.1 hreads.2) (n := n)
      (by omega)
    simp only [values, Layout.body, List.append_assoc, List.cons_append]
    rw [items_value hlayout hplain.1 hreads.1 (Reader.ends_cons (by decide)) (by omega),
      items_comma hlayout (hplain.2 w List.mem_cons_self), hws]

/-- The first member is read back, if its value is, and reading goes on behind it. -/
theorem members_value {m : String × Json} (hreads : Reads layout m.2) (hrest : Ends rest)
    (hn : 2 * (member layout (level + 1) m).length ≤ n) :
    Reader.members (n + 2) true
        (layout.lineStart (level + 1) ++ (member layout (level + 1) m ++ rest)) =
      (Reader.prepend m.1 m.2 (Reader.members (n + 1) false rest).1,
        (Reader.members (n + 1) false rest).2) := by
  obtain ⟨sp, hcolon, hsp⟩ := hlayout.colon
  simp only [member, List.length_append] at hn
  have hvalue : Reader.value (n + 1) (sp ++ (value layout (level + 1) m.2 ++ rest)) =
      (m.2, rest) := by
    rw [Reader.value_space hsp, hreads (level + 1) n rest hrest (by omega)]
  have hkey := Reader.stringText_written m.1 (':' :: (sp ++ (value layout (level + 1) m.2 ++ rest)))
  simpa [member, string, hcolon] using
    Reader.members_first (hlayout.lineStart (level + 1)) hkey hvalue

/-- After a comma the next member is read like a first one. -/
theorem members_comma (m : String × Json) (parts : List (List Char)) :
    let body := layout.body level '}' (member layout (level + 1) m) parts ++ rest
    Reader.members (n + 1) false (',' :: body) = Reader.members (n + 1) true body := by
  obtain ⟨cs, hbody⟩ := layout.exists_body level '}' (member layout (level + 1) m) parts
  rw [hbody]
  simpa [member, string] using Reader.members_comma (hlayout.lineStart (level + 1))

/-- An object with a first member is read to its closing bracket. -/
theorem members_body {m : String × Json} {ms : List (String × Json)}
    (hreads : ∀ m' ∈ m :: ms, Reads layout m'.2)
    (hn : 2 * (layout.body level '}' (member layout (level + 1) m)
      (members layout (level + 1) ms)).length ≤ n) :
    Reader.members (n + 2) true (layout.body level '}' (member layout (level + 1) m)
      (members layout (level + 1) ms) ++ rest) = (.obj (m :: ms), rest) := by
  rw [List.forall_mem_cons] at hreads
  -- as for lists
  induction ms generalizing m n with
  | nil =>
    have hends : Ends (layout.lineStart level ++ '}' :: rest) :=
      Reader.ends_append (hlayout.lineStart level) (Reader.ends_cons (by decide))
    simp only [members, Layout.body, List.length_append] at hn
    simp only [members, Layout.body, List.append_assoc, List.singleton_append]
    rw [members_value hlayout hreads.1 hends (by omega),
      Reader.members_end (hlayout.lineStart level)]
    rfl
  | cons m' ms ih =>
    simp only [members_cons, Layout.body, List.length_append, List.length_cons] at hn
    obtain ⟨n, rfl⟩ : ∃ m, n = m + 1 := ⟨n - 1, by omega⟩
    have hms := ih (List.forall_mem_cons.1 hreads.2) (n := n) (by omega)
    simp only [members_cons, Layout.body, List.append_assoc, List.cons_append]
    rw [members_value hlayout hreads.1 (Reader.ends_cons (by decide)) (by omega),
      members_comma hlayout m', hms]
    rfl

/-- What was written is read, whatever stands after it. -/
theorem reads_of_plain {v : Json} (hv : v.Plain) : Reads layout v := by
  induction hv with
  | null => exact fun _ _ _ _ _ => rfl
  | bool b => cases b <;> exact fun _ _ _ _ _ => rfl
  | int hlow hhigh => exact fun _ _ _ hrest _ => read_int hlow hhigh hrest
  | str s =>
    intro level n rest _ _
    have hstring := Reader.stringText_written s rest
    simp [value, string, Reader.value_string, Reader.string, hstring]
  | @arr vs hplain hreads =>
    intro level n rest _ hn
    cases vs with
    | nil =>
      -- the two brackets alone allow for the steps that it takes
      have hlength : 4 ≤ n := hn
      obtain ⟨n, rfl⟩ : ∃ m, n = m + 1 := ⟨n - 1, by omega⟩
      rfl
    | cons v vs =>
      rw [value, values, Layout.enclose_cons] at hn ⊢
      rw [List.length_cons] at hn
      obtain ⟨n, rfl⟩ : ∃ m, n = m + 2 := ⟨n - 2, by omega⟩
      rw [List.cons_append, Reader.value_list, items_body hlayout hplain hreads (by omega)]
  | @obj ms hplain hreads =>
    intro level n rest _ hn
    cases ms with
    | nil =>
      have hlength : 4 ≤ n := hn
      obtain ⟨n, rfl⟩ : ∃ m, n = m + 1 := ⟨n - 1, by omega⟩
      rfl
    | cons m ms =>
      rw [value, members_cons, Layout.enclose_cons] at hn ⊢
      rw [List.length_cons] at hn
      obtain ⟨n, rfl⟩ : ∃ m, n = m + 2 := ⟨n - 2, by omega⟩
      rw [List.cons_append, Reader.value_object, members_body hlayout hreads (by omega)]

end Printer

section Texts

variable {α : Type} (d : Decoder α) {v : Json}

/-- A decoder of a written text is given what was written. -/
theorem decodeText_value {layout : Printer.Layout} (hlayout : layout.Spaced) (hv : v.Plain) :
    decodeText d (String.ofList (Printer.value layout 0 v)) = d .text v := by
  have hread : Reader.document (Printer.value layout 0 v) = (v, []) := by
    have hvalue := Printer.reads_of_plain hlayout hv 0
      (2 * (Printer.value layout 0 v).length + 1) [] nofun (Nat.le_succ _)
    rwa [List.append_nil] at hvalue
  rw [decodeText, String.toList_ofList, hread]
  cases hd : d .text v <;> simp [hd, bind, Except.bind, Reader.skipSpace]

/-- Decoding the text in one line is decoding the document. -/
theorem decodeText_compact (hv : v.Plain) : decodeText d v.compact = d .text v :=
  decodeText_value d .compact hv

/-- Decoding the indented text is decoding the document. -/
theorem decodeText_pretty (hv : v.Plain) : decodeText d v.pretty = d .text v :=
  decodeText_value d .pretty hv

end Texts

end StaffRights.Json
