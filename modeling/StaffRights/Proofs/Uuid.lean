import Mathlib.Algebra.Ring.Nat
import StaffRights.Identity
import StaffRights.Uuid.Reader

/-!
# The text of identifiers

The thirty-two digits of an identifier spell its value, and without its hyphens the hyphenated form
is these digits. So the text tells the identifier, and it is read back as the identifier.
-/

namespace StaffRights

namespace Text

/-- One more digit is read as the lowest one. -/
theorem numeral?_concat (base : Nat) (digit? : Char → Option Nat) (cs : List Char) (c : Char) :
    numeral? base digit? (cs ++ [c]) =
      (numeral? base digit? cs).bind fun n => (digit? c).map (base * n + ·) := by
  rw [numeral?, List.foldlM_append]
  cases h : cs.foldlM (fun n c => (digit? c).map (base * n + ·)) 0 with
  | none => simp [numeral?, h]
  | some n => simp [numeral?, h]

/-- A digit is read back from its character. -/
theorem hexDigit?_digitChar {d : Nat} (hd : d < 16) : hexDigit? (Nat.digitChar d) = some d := by
  have hall : ∀ d < 16, hexDigit? (Nat.digitChar d) = some d := by decide
  exact hall d hd

/-- The digits are as many as asked for. -/
theorem length_hexDigits (width n : Nat) : (hexDigits width n).length = width := by
  induction width generalizing n with
  | zero => rfl
  | succ width ih => rw [hexDigits, List.length_append, ih, List.length_singleton]

/-- Only hexadecimal digits are written. -/
theorem exists_of_mem_hexDigits {width n : Nat} {c : Char} (hc : c ∈ hexDigits width n) :
    ∃ d < 16, c = Nat.digitChar d := by
  induction width generalizing n with
  | zero => cases hc
  | succ width ih =>
    rcases List.mem_append.1 hc with hc | hc
    · exact ih hc
    · exact ⟨n % 16, Nat.mod_lt n (by decide), List.mem_singleton.1 hc⟩

/-- Each hexadecimal digit that is written can be read. -/
theorem hexDigit?_of_mem_hexDigits {width n : Nat} {c : Char} (hc : c ∈ hexDigits width n) :
    ∃ d, hexDigit? c = some d := by
  obtain ⟨d, hd, rfl⟩ := exists_of_mem_hexDigits hc
  exact ⟨d, hexDigit?_digitChar hd⟩

/-- Each digit takes one byte. -/
theorem utf8Size_of_mem_hexDigits {width n : Nat} {c : Char} (hc : c ∈ hexDigits width n) :
    c.utf8Size = 1 := by
  have hall : ∀ d < 16, (Nat.digitChar d).utf8Size = 1 := by decide
  obtain ⟨d, hd, rfl⟩ := exists_of_mem_hexDigits hc
  exact hall d hd

/-- Where every character takes one byte, there are as many bytes as characters. -/
theorem byteSize_eq_length {cs : List Char} (hcs : ∀ c ∈ cs, c.utf8Size = 1) :
    byteSize cs = cs.length := by
  induction cs with
  | nil => rfl
  | cons c cs ih =>
    rw [List.forall_mem_cons] at hcs
    have hrest : byteSize cs = cs.length := ih hcs.2
    rw [byteSize, List.foldr_cons, ← byteSize, hcs.1, hrest, List.length_cons, Nat.add_comm]

/-- Written with enough digits, a number is read back. -/
theorem numeral?_hexDigits (width n : Nat) :
    numeral? 16 hexDigit? (hexDigits width n) = some (n % 16 ^ width) := by
  induction width generalizing n with
  | zero => simp [hexDigits, numeral?, Nat.mod_one]
  | succ width ih =>
    have hlow := hexDigit?_digitChar (Nat.mod_lt n (show 0 < 16 by decide))
    rw [hexDigits, numeral?_concat, ih, hlow, Option.bind_some, Option.map_some, Nat.pow_succ',
      Nat.mod_mul, Nat.add_comm]

/-- Without what is set between them, parts that do not hold it are joined. -/
theorem filter_intercalate {sep : Char} {parts : List (List Char)}
    (hparts : ∀ cs ∈ parts, sep ∉ cs) :
    ([sep].intercalate parts).filter (· ≠ sep) = parts.flatten := by
  have hfilter : ∀ cs ∈ parts, cs.filter (· ≠ sep) = cs := by
    intro cs hcs
    refine List.filter_eq_self.2 fun c hc => decide_eq_true ?_
    rintro rfl
    exact hparts cs hcs hc
  clear hparts
  induction parts with
  | nil => rfl
  | cons cs parts ih =>
    cases parts with
    | nil => simpa using hfilter cs (List.mem_cons_self ..)
    | cons ds parts =>
      have hrest := ih fun xs hxs => hfilter xs (List.mem_cons_of_mem cs hxs)
      rw [List.intercalate_cons_cons, List.filter_append, List.filter_append, hrest,
        hfilter cs (List.mem_cons_self ..)]
      simp

/-- Cutting at a separator is what the library does. -/
theorem pieces_eq_splitOn (sep : Char) (cs : List Char) : pieces sep cs = cs.splitOn sep := by
  induction cs with
  | nil => rfl
  | cons c cs ih =>
    rw [pieces, ih]
    simp only [List.splitOn, List.splitOnP_cons_eq_if_modifyHead, beq_iff_eq]
    cases hrest : cs.splitOnP (· == sep) with
    | nil => exact (List.splitOnP_ne_nil _ cs hrest).elim
    | cons p ps => rfl

/-- Parts that were joined are cut apart. -/
theorem pieces_intercalate {sep : Char} {parts : List (List Char)} (hne : parts ≠ [])
    (hparts : ∀ cs ∈ parts, sep ∉ cs) : pieces sep ([sep].intercalate parts) = parts := by
  rw [pieces_eq_splitOn, List.splitOn_intercalate sep hparts hne]

end Text

namespace Uuid

/-- What is cut into parts is in the parts, up to their sizes together. -/
theorem flatten_cut {α : Type} (sizes : List Nat) (xs : List α) :
    (cut sizes xs).flatten = xs.take sizes.sum := by
  induction sizes generalizing xs with
  | nil => rfl
  | cons n sizes ih => rw [cut, List.flatten_cons, ih, List.sum_cons, List.take_add]

/-- The digits of an identifier, in groups. -/
def groups (u : Uuid) : List (List Char) := cut groupSizes (Text.hexDigits 32 u.toNat)

theorem toList_text (u : Uuid) : u.text.toList = ['-'].intercalate u.groups :=
  String.toList_ofList

/-- Side by side, the groups are all digits. -/
theorem flatten_groups (u : Uuid) : u.groups.flatten = Text.hexDigits 32 u.toNat := by
  have hlength : (Text.hexDigits 32 u.toNat).length ≤ groupSizes.sum := by
    rw [Text.length_hexDigits]
    decide
  rw [groups, flatten_cut, List.take_of_length_le hlength]

/-- What stands in a group is one of the digits. -/
theorem mem_hexDigits_of_mem_groups {u : Uuid} {cs : List Char} {c : Char} (hcs : cs ∈ u.groups)
    (hc : c ∈ cs) : c ∈ Text.hexDigits 32 u.toNat :=
  u.flatten_groups ▸ List.mem_flatten.2 ⟨cs, hcs, hc⟩

/-- No group has a hyphen in it. -/
theorem hyphen_not_mem_groups {u : Uuid} : ∀ cs ∈ u.groups, '-' ∉ cs := by
  intro cs hcs hhyphen
  obtain ⟨d, hd⟩ := Text.hexDigit?_of_mem_hexDigits (mem_hexDigits_of_mem_groups hcs hhyphen)
  cases hd

/-- Without its hyphens, the hyphenated form is the digits. -/
theorem filter_text (u : Uuid) :
    u.text.toList.filter (· ≠ '-') = Text.hexDigits 32 u.toNat := by
  rw [toList_text, Text.filter_intercalate hyphen_not_mem_groups, flatten_groups]

/-- The digits spell the identifier. -/
theorem ofDigits_hexDigits (u : Uuid) : ofDigits (Text.hexDigits 32 u.toNat) = u := by
  have hlt : u.toNat < 16 ^ 32 := u.bits.isLt
  rw [ofDigits, Text.numeral?_hexDigits, Nat.mod_eq_of_lt hlt]
  exact congrArg Uuid.mk (BitVec.ofNat_toNat ..)

/-- Different numbers have different texts. -/
theorem text_injective : Function.Injective text := by
  intro u v huv
  have hdigits : Text.hexDigits 32 u.toNat = Text.hexDigits 32 v.toNat := by
    rw [← filter_text, ← filter_text, huv]
  have hvalue := congrArg (Text.numeral? 16 Text.hexDigit?) hdigits
  rw [Text.numeral?_hexDigits, Text.numeral?_hexDigits, Option.some.injEq] at hvalue
  have hu : u.toNat < 16 ^ 32 := u.bits.isLt
  have hv : v.toNat < 16 ^ 32 := v.bits.isLt
  rw [Nat.mod_eq_of_lt hu, Nat.mod_eq_of_lt hv] at hvalue
  exact congrArg Uuid.mk (BitVec.eq_of_toNat_eq hvalue)

/-! ## Reading the text back -/

/-- The groups have the lengths that reading asks for. -/
theorem map_length_groups (u : Uuid) : u.groups.map List.length = groupSizes := by
  simp [groups, groupSizes, cut, Text.length_hexDigits]

/-- The text is made of hyphens and digits. -/
theorem mem_text {u : Uuid} {c : Char} (hc : c ∈ u.text.toList) :
    c = '-' ∨ c ∈ Text.hexDigits 32 u.toNat := by
  by_cases hhyphen : c = '-'
  · exact .inl hhyphen
  · rw [← filter_text]
    exact .inr (List.mem_filter.2 ⟨hc, decide_eq_true hhyphen⟩)

/-- The text has the size of a hyphenated form. -/
theorem byteSize_text (u : Uuid) : Text.byteSize u.text.toList = hyphenatedSize := by
  have hascii : ∀ c ∈ u.text.toList, c.utf8Size = 1 := by
    intro c hc
    rcases mem_text hc with rfl | hdigit
    · rfl
    · exact Text.utf8Size_of_mem_hexDigits hdigit
  rw [Text.byteSize_eq_length hascii, toList_text]
  simp [groups, groupSizes, cut, Text.length_hexDigits, hyphenatedSize, List.intercalate]

/-- Every character of the text may stand in an identifier. -/
theorem checkParts_text (u : Uuid) : checkParts 0 u.text.toList = .ok () := by
  have hparts : u.text.toList.findIdx? (!isPart ·) = none := by
    refine List.findIdx?_eq_none_iff.2 fun c hc => ?_
    rcases mem_text hc with rfl | hdigit
    · rfl
    · obtain ⟨d, hd⟩ := Text.hexDigit?_of_mem_hexDigits hdigit
      simp [isPart, hd]
  rw [checkParts, hparts]

/-- The number is read back from its groups. -/
theorem ofGroups_groups (u : Uuid) (size : Nat) : ofGroups size u.groups = .ok u := by
  have hlength : u.groups.length = groupSizes.length := by
    rw [← map_length_groups u, List.length_map]
  have hfit : misfit? u.groups = none := by
    rw [misfit?, map_length_groups]
    rfl
  rw [ofGroups, if_neg (not_not.2 hlength), hfit]
  exact congrArg Except.ok ((congrArg ofDigits u.flatten_groups).trans u.ofDigits_hexDigits)

/-- The text of an identifier is read as that identifier. -/
theorem parse_text (u : Uuid) : parse u.text = .ok u := by
  have hform : hyphenated? hyphenatedSize u.text.toList = some u.text.toList := rfl
  have hsize : ¬ maxSize < hyphenatedSize := by decide
  have hgroups : Text.pieces '-' u.text.toList = u.groups := by
    have hne : u.groups ≠ [] := nofun
    rw [toList_text, Text.pieces_intercalate hne hyphen_not_mem_groups]
  simp only [parse, byteSize_text, if_neg hsize, hform, checkParts_text, hgroups, ofGroups_groups]
  rfl

end Uuid

namespace Id

/-- Identities with the same text are the same. -/
theorem text_injective {subject : Subject} : Function.Injective fun id : Id subject => id.text := by
  intro a b hab
  exact congrArg Id.mk (Uuid.text_injective hab)

end Id

end StaffRights
