import Mathlib.Data.List.Basic
import StaffRights.Permissions.Record

/-!
# Flags of permission sets

Which flags the set operations hold. A set is a word, so each fact is one about the bit of a flag. A
set without unnamed bits is known by its flags, and so a record tells such a set exactly.
-/

namespace StaffRights.Permissions

variable (p q : Permissions) (f : Flag)

/-- Sets are the same if they have the same bits, named or not. -/
theorem eq_of_getLsbD_eq {p q : Permissions}
    (hpq : ∀ i < 8, p.bits.getLsbD i = q.bits.getLsbD i) : p = q :=
  congrArg Permissions.mk (BitVec.eq_of_getLsbD_eq hpq)

theorem bits_union : (p ∪ q).bits = p.bits ||| q.bits := rfl

theorem bits_inter : (p ∩ q).bits = p.bits &&& q.bits := rfl

@[simp] theorem empty_union : ∅ ∪ p = p := congrArg Permissions.mk (BitVec.zero_or)

@[simp] theorem union_empty : p ∪ ∅ = p := congrArg Permissions.mk (BitVec.or_zero)

theorem union_assoc (r : Permissions) : p ∪ q ∪ r = p ∪ (q ∪ r) :=
  congrArg Permissions.mk (BitVec.or_assoc p.bits q.bits r.bits)

@[simp] theorem holds_empty : (∅ : Permissions).holds f = false := by cases f <;> decide

@[simp] theorem holds_full : full.holds f = true := by cases f <;> decide

/-- A flag is held by a union just if it is held by either set. -/
@[simp] theorem holds_union : (p ∪ q).holds f = (p.holds f || q.holds f) := by
  simp only [holds, bits_union, BitVec.getLsbD_or]

/-- A flag is held by an intersection just if it is held by both sets. -/
@[simp] theorem holds_inter : (p ∩ q).holds f = (p.holds f && q.holds f) := by
  simp only [holds, bits_inter, BitVec.getLsbD_and]

/-- The complement holds the flags that the set does not hold. -/
@[simp] theorem holds_complement : p.complement.holds f = !p.holds f := by
  have hf : f.index < 8 := by cases f <;> decide
  rw [complement, holds_inter, holds_full, Bool.and_true]
  simp [holds, hf]

/-- To have the set of one flag is to hold the flag. -/
theorem has_single : p.has (single f) = p.holds f := by
  have hbits : (p ∩ single f).bits = p.bits &&& BitVec.twoPow 8 f.index := by
    rw [bits_inter, single, BitVec.twoPow]
  have hne : BitVec.twoPow 8 f.index ≠ 0#8 := by cases f <;> decide
  rw [BitVec.and_twoPow] at hbits
  rw [has, holds, Bool.eq_iff_iff, beq_iff_eq]
  constructor
  · intro h
    refine Decidable.byContradiction fun hf => ?_
    rw [h, if_neg hf] at hbits
    exact hne hbits
  · intro hf
    rw [if_pos hf] at hbits
    exact congrArg Permissions.mk hbits

/-! ## Sets without unnamed bits -/

/-- Each of the seven low bits is that of a flag. -/
theorem Flag_exists_index {i : Nat} (hi : i < 7) : ∃ f : Flag, f.index = i := by
  have hall : ∀ i < 7, ∃ f ∈ Flag.all, f.index = i := by decide
  obtain ⟨f, -, hf⟩ := hall i hi
  exact ⟨f, hf⟩

/-- Sets without unnamed bits are the same if they hold the same flags. -/
theorem ext_holds {p q : Permissions} (hp : p ∩ full = p) (hq : q ∩ full = q)
    (hpq : ∀ f, p.holds f = q.holds f) : p = q := by
  refine eq_of_getLsbD_eq fun i hi => ?_
  by_cases hi7 : i < 7
  · obtain ⟨f, rfl⟩ := Flag_exists_index hi7
    exact hpq f
  · -- the one bit that is left is cut off
    obtain rfl : i = 7 := by omega
    rw [← hp, ← hq, bits_inter, bits_inter, BitVec.getLsbD_and, BitVec.getLsbD_and]
    simp [full]

/-- Unnamed bits are dropped once. -/
@[simp] theorem inter_full_inter_full : p ∩ full ∩ full = p ∩ full :=
  congrArg Permissions.mk (by rw [bits_inter, BitVec.and_assoc, BitVec.and_self])

/-- Dropping unnamed bits before or after a union is the same. -/
theorem union_inter_full : (p ∪ q) ∩ full = (p ∩ full) ∪ (q ∩ full) := by
  refine eq_of_getLsbD_eq fun i _ => ?_
  simp only [bits_union, bits_inter, BitVec.getLsbD_and, BitVec.getLsbD_or,
    Bool.and_or_distrib_right]

/-- A union of several sets has a bit just if one of them has it. -/
theorem getLsbD_union (ps : List Permissions) (i : Nat) :
    (union ps).bits.getLsbD i = ps.any (·.bits.getLsbD i) := by
  have hfold : ∀ acc : Permissions, (ps.foldl (· ∪ ·) acc).bits.getLsbD i =
      (acc.bits.getLsbD i || ps.any (·.bits.getLsbD i)) := by
    induction ps with
    | nil => simp
    | cons p ps ih =>
      intro acc
      rw [List.foldl_cons, ih, bits_union, BitVec.getLsbD_or, List.any_cons, Bool.or_assoc]
  rw [union, hfold]
  simp [EmptyCollection.emptyCollection]

@[simp] theorem union_nil : union [] = ∅ := rfl

@[simp] theorem union_cons (ps : List Permissions) : union (p :: ps) = p ∪ union ps := by
  refine eq_of_getLsbD_eq fun i _ => ?_
  rw [getLsbD_union, List.any_cons, ← getLsbD_union, bits_union, BitVec.getLsbD_or]

/-- What adds no set to a union adds nothing. -/
theorem union_filterMap {α : Type} (f : α → Option Permissions) (xs : List α) :
    union (xs.filterMap f) = union (xs.map fun x => (f x).getD ∅) := by
  induction xs with
  | nil => rfl
  | cons x xs ih =>
    rw [List.filterMap_cons, List.map_cons, union_cons, ← ih]
    cases f x with
    | none => rw [Option.getD_none, empty_union]
    | some p => rw [Option.getD_some, ← union_cons]

/-- The set of one flag holds that flag only. -/
theorem holds_single (g : Flag) : (single g).holds f = (f == g) := by
  cases f <;> cases g <;> rfl

/-- A set made of flags holds just these. -/
@[simp] theorem holds_ofFlags (fs : List Flag) : (ofFlags fs).holds f = fs.contains f := by
  rw [holds, ofFlags, getLsbD_union, List.any_map, List.contains_eq_any_beq]
  congr 1
  funext g
  exact holds_single f g

/-- The bit of a flag has a name. -/
theorem single_inter_full : single f ∩ full = single f := by cases f <;> rfl

/-- A set made of flags has no unnamed bits. -/
theorem ofFlags_inter_full (fs : List Flag) : ofFlags fs ∩ full = ofFlags fs := by
  have hfold : ∀ acc : Permissions, acc ∩ full = acc →
      (fs.map single).foldl (· ∪ ·) acc ∩ full = (fs.map single).foldl (· ∪ ·) acc := by
    induction fs with
    | nil => exact fun acc hacc => hacc
    | cons f fs ih =>
      intro acc hacc
      exact ih _ (by rw [union_inter_full, hacc, single_inter_full])
  exact hfold ∅ rfl

/-! ## Inclusion -/

/-- The bits of a set that another one does not have. -/
def without (p q : Permissions) : Permissions := ⟨p.bits &&& ~~~q.bits⟩

/-- The complement has named bits alone. -/
theorem inter_complement : p ∩ q.complement = (p ∩ full).without q := by
  refine congrArg Permissions.mk ?_
  rw [complement, bits_inter, BitVec.and_comm (~~~q.bits), ← BitVec.and_assoc]
  rfl

/-- What is taken away is taken away bit by bit. -/
theorem getLsbD_without (i : Nat) :
    (p.without q).bits.getLsbD i = (p.bits.getLsbD i && !q.bits.getLsbD i) := by
  by_cases hi : i < 8
  · simp [without, hi]
  · simp [without, BitVec.getLsbD_of_ge _ i (Nat.le_of_not_lt hi)]

/-- A set includes another just if it has all bits of it. -/
theorem has_iff_bits : q.has p ↔ ∀ i, p.bits.getLsbD i = true → q.bits.getLsbD i = true := by
  rw [has, beq_iff_eq]
  constructor
  · intro hp i hi
    rw [← hp, bits_inter, BitVec.getLsbD_and, Bool.and_eq_true] at hi
    exact hi.1
  · intro hbits
    refine eq_of_getLsbD_eq fun i _ => ?_
    rw [bits_inter, BitVec.getLsbD_and]
    cases hp : p.bits.getLsbD i with
    | false => rw [Bool.and_false]
    | true => rw [hbits i hp, Bool.and_self]

theorem has_refl : p.has p := (has_iff_bits p p).2 fun _ hi => hi

theorem has_trans {p q r : Permissions} (hr : r.has q) (hq : q.has p) : r.has p := by
  rw [has_iff_bits] at hr hq ⊢
  exact fun i hi => hr i (hq i hi)

/-- A union includes what is added. -/
theorem union_has_right : (p ∪ q).has q := by
  rw [has_iff_bits]
  intro i hi
  rw [bits_union, BitVec.getLsbD_or, hi, Bool.or_true]

/-- A set has all bits of another if the other has none without it. -/
theorem without_eq_empty_iff : p.without q = ∅ ↔ q.has p := by
  rw [has_iff_bits]
  constructor
  · intro hnone i hi
    have hbit := p.getLsbD_without q i
    rw [hnone, hi, Bool.true_and] at hbit
    simpa [EmptyCollection.emptyCollection] using hbit
  · intro hbits
    refine eq_of_getLsbD_eq fun i _ => ?_
    have hempty : (∅ : Permissions).bits.getLsbD i = false := BitVec.getLsbD_zero
    rw [getLsbD_without, hempty]
    cases hp : p.bits.getLsbD i with
    | false => rfl
    | true => rw [hbits i hp]; rfl

end StaffRights.Permissions

namespace StaffRights

/-- No two flags share a record member. -/
theorem Flag.field_injective : Function.Injective Flag.field := by
  intro f g hfg
  cases f <;> cases g <;> first | rfl | exact absurd hfg (by decide)

/-- A name that is asked for is looked up among the record members. -/
theorem Flag.ofField?_eq_find? (name : String) :
    Flag.ofField? name = Flag.all.find? (·.field == name) := by
  rw [ofField?, fields_eq, List.find?_map, Option.map_map]
  exact Option.map_id_apply

/-- A flag is found under the name of its member, and nothing else is. -/
theorem Flag.ofField?_eq_some_iff {name : String} {f : Flag} :
    Flag.ofField? name = some f ↔ f.field = name := by
  rw [ofField?_eq_find?]
  constructor
  · intro h
    simpa using List.find?_some h
  · rintro rfl
    cases f <;> rfl

/-- Nothing is found under a name just if no flag has it. -/
theorem Flag.ofField?_eq_none_iff {name : String} :
    Flag.ofField? name = none ↔ ∀ f : Flag, f.field ≠ name := by
  simp [ofField?_eq_find?, Flag.mem_all]

/-- The set that a record stands for holds the flags for which it says yes. -/
theorem PermissionRecord.holds_permissions (r : PermissionRecord) (f : Flag) :
    r.permissions.holds f = r.get f := by
  rw [permissions, Permissions.holds_ofFlags]
  simp [Flag.mem_all]

/-- A record is that of the set which it stands for. -/
@[simp] theorem PermissionRecord.record_permissions (r : PermissionRecord) :
    r.permissions.record = r := by
  rw [Permissions.record, funext r.holds_permissions, ofFn_get]

/-- The flags that names are looked up to are the flags with these names. -/
theorem Flag.mapM_ofField?_eq_some_iff {names : List String} {fs : List Flag} :
    names.mapM Flag.ofField? = some fs ↔ fs.map Flag.field = names := by
  induction names generalizing fs with
  | nil => simp [eq_comm]
  | cons name names ih =>
    rw [List.mapM_cons, List.map_eq_cons_iff]
    simp only [Option.bind_eq_bind, Option.bind_eq_some_iff, Option.pure_def, Option.some.injEq,
      Flag.ofField?_eq_some_iff, ih]
    constructor
    · rintro ⟨f, hf, fs, hfs, rfl⟩
      exact ⟨f, fs, rfl, hf, hfs⟩
    · rintro ⟨f, fs, rfl, hf, hfs⟩
      exact ⟨f, hf, fs, hfs, rfl⟩

/-- Looking names up fails just if one of them is that of no flag. -/
theorem Flag.mapM_ofField?_eq_none_iff {names : List String} :
    names.mapM Flag.ofField? = none ↔ ∃ name ∈ names, ∀ f : Flag, f.field ≠ name := by
  induction names with
  | nil => simp
  | cons name names ih =>
    have hor : (name :: names).mapM Flag.ofField? = none ↔
        Flag.ofField? name = none ∨ names.mapM Flag.ofField? = none := by
      rw [List.mapM_cons]
      cases Flag.ofField? name <;> cases names.mapM Flag.ofField? <;> simp
    rw [hor, ih, Flag.ofField?_eq_none_iff]
    simp

/-- A set that is made of names has the flags with these names, and no unnamed bits. -/
theorem Permissions.of_ofFields? {names : List String} {p : Permissions}
    (hp : ofFields? names = some p) :
    p ∩ full = p ∧ ∀ f : Flag, p.holds f = true ↔ f.field ∈ names := by
  obtain ⟨fs, hfs, rfl⟩ := Option.map_eq_some_iff.1 hp
  obtain rfl := Flag.mapM_ofField?_eq_some_iff.1 hfs
  refine ⟨ofFlags_inter_full fs, fun f => ?_⟩
  rw [holds_ofFlags, List.contains_iff_mem, List.mem_map_of_injective Flag.field_injective]

/-- No set is made of names just if one of them is that of no flag. -/
theorem Permissions.ofFields?_eq_none_iff {names : List String} :
    ofFields? names = none ↔ ∃ name ∈ names, ∀ f : Flag, f.field ≠ name := by
  rw [ofFields?, Option.map_eq_none_iff, Flag.mapM_ofField?_eq_none_iff]

/-- The record of a set tells its seven flags. -/
theorem Permissions.permissions_record (p : Permissions) : p.record.permissions = p ∩ full := by
  refine ext_holds (ofFlags_inter_full _) (inter_full_inter_full p) fun f => ?_
  rw [PermissionRecord.holds_permissions, record, PermissionRecord.get_ofFn]
  simp

end StaffRights
