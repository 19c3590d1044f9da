import Mathlib.Data.List.Nodup
import StaffRights.Json.Decoding
import StaffRights.Proofs.Results

/-!
# Decoding records

When an object is decoded as a record: the members that are about no field can be skipped, no field
is given twice, the values of the others can be put into their fields one after the other, and no
field is missing that is required. So an object that gives each field once, in order, is decoded as
the values are.
-/

namespace StaffRights.Json

namespace Form

variable {α : Type} {form : Form α} {site : Site} {ms : List (String × Json)} {a a' : α}
  {names names' : List String}

/-- The field of the given name. -/
def field? (form : Form α) (name : String) : Option (Field α) :=
  form.fields.find? (·.name == name)

/-- The members that are about a field, each with its field. -/
def known (form : Form α) (ms : List (String × Json)) : List (Field α × Json) :=
  ms.filterMap fun m => (form.field? m.1).map (·, m.2)

/-- Puts values into fields, one after the other. -/
def putAll (site : Site) (xs : List (Field α × Json)) (a : α) : Except DecodeError α :=
  xs.foldlM (fun a x => x.1.put site x.2 a) a

/-- A field is found under its own name. -/
theorem name_of_field? {field : Field α} {name : String} (h : form.field? name = some field) :
    field.name = name := by
  simpa using List.find?_some h

/-- The first field is put before the others. -/
theorem putAll_cons {x : Field α × Json} {xs : List (Field α × Json)} :
    putAll site (x :: xs) a = x.1.put site x.2 a >>= putAll site xs :=
  List.foldlM_cons

/-- Where the first field can be put, the others decide. -/
theorem putAll_cons_of_ok {field : Field α} {v : Json} {xs : List (Field α × Json)}
    (hput : field.put site v a = .ok a') :
    putAll site ((field, v) :: xs) a = putAll site xs a' := by
  rw [putAll_cons, hput]
  rfl

/-! ## One member -/

/-- A member without a field is skipped, if it can be. -/
theorem member_of_unknown {m : String × Json} {state state' : α × List String}
    (h : form.field? m.1 = none) :
    form.member site state m = .ok state' ↔ m.2.skipFault = none ∧ state' = state := by
  rw [field?] at h
  rw [member, h]
  cases m.2.skipFault <;> simp [eq_comm]

/-- A member with a field is put once. -/
theorem member_of_field {m : String × Json} {field : Field α} {state : α × List String}
    (h : form.field? m.1 = some field) :
    form.member site (a, names) m = .ok state ↔
      m.1 ∉ names ∧ ∃ b, field.put site m.2 a = .ok b ∧ state = (b, m.1 :: names) := by
  rw [field?] at h
  rw [member, h]
  by_cases hm : m.1 ∈ names
  · simp [hm]
  · simp [hm, map_eq_ok_iff, eq_comm (a := state)]

/-! ## All members -/

/-- All members are taken in if those without a field can be skipped, the others put, and no field
is met twice. -/
theorem foldlM_member_eq_ok_iff (hnames : names.Nodup) :
    ms.foldlM (form.member site) (a, names) = .ok (a', names') ↔
      (∀ m ∈ ms, form.field? m.1 = none → m.2.skipFault = none) ∧
      putAll site (form.known ms) a = .ok a' ∧ names'.Nodup ∧
      names' = ((form.known ms).map (·.1.name)).reverse ++ names := by
  induction ms generalizing a names with
  | nil =>
    have hput : putAll site (form.known []) a = .ok a' ↔ a = a' := Except.ok.injEq a a' ▸ Iff.rfl
    rw [hput]
    constructor
    · rintro ⟨⟩
      exact ⟨nofun, rfl, hnames, rfl⟩
    · rintro ⟨-, rfl, -, rfl⟩
      rfl
  | cons m ms ih =>
    rw [foldlM_cons_eq_ok_iff, List.forall_mem_cons]
    cases hfield : form.field? m.1 with
    | none =>
      have hknown : form.known (m :: ms) = form.known ms := by
        simp [known, hfield]
      simp only [member_of_unknown hfield, hknown, and_assoc, exists_and_left, exists_eq_left,
        ih hnames, forall_const]
    | some field =>
      have hknown : form.known (m :: ms) = (field, m.2) :: form.known ms := by
        simp [known, hfield]
      simp only [member_of_field hfield, hknown, putAll_cons, bind_eq_ok_iff, List.map_cons,
        List.reverse_cons, List.append_assoc, List.singleton_append, name_of_field? hfield,
        reduceCtorEq, false_implies, true_and]
      constructor
      · rintro ⟨state, ⟨hm, b, hput, rfl⟩, hrest⟩
        obtain ⟨hskip, hputs, hnodup, heq⟩ := (ih (List.nodup_cons.2 ⟨hm, hnames⟩)).1 hrest
        exact ⟨hskip, ⟨b, hput, hputs⟩, hnodup, heq⟩
      · rintro ⟨hskip, ⟨b, hput, hputs⟩, hnodup, heq⟩
        -- the new name is among those that are all different
        have hcons : (m.1 :: names).Nodup := by
          rw [heq] at hnodup
          exact hnodup.of_append_right
        exact ⟨_, ⟨(List.nodup_cons.1 hcons).1, b, hput, rfl⟩,
          (ih hcons).2 ⟨hskip, hputs, hnodup, heq⟩⟩

/-- An object is decoded as a record if its members without a field can be skipped, no field is
given twice, the values can be put into their fields, and nothing that is required is missing. -/
theorem ofMembers_eq_ok_iff :
    form.ofMembers site ms none = .ok a ↔
      (∀ m ∈ ms, form.field? m.1 = none → m.2.skipFault = none) ∧
      ((form.known ms).map (·.1.name)).Nodup ∧
      putAll site (form.known ms) form.blank = .ok a ∧
      ∀ field ∈ form.fields, field.required → field.name ∈ (form.known ms).map (·.1.name) := by
  have hmissing : ∀ names : List String,
      form.fields.find? (fun field => field.required && !names.contains field.name) = none ↔
        ∀ field ∈ form.fields, field.required → field.name ∈ names := by
    intro names
    simp [List.find?_eq_none]
  rw [ofMembers, bind_eq_ok_iff]
  constructor
  · rintro ⟨⟨a', names⟩, hfold, hrest⟩
    obtain ⟨hskip, hputs, hnodup, rfl⟩ := (foldlM_member_eq_ok_iff List.nodup_nil).1 hfold
    simp only at hrest
    split at hrest
    · cases hrest
    · next hnone =>
      cases hrest
      rw [hmissing] at hnone
      exact ⟨hskip, by simpa using hnodup, hputs, by simpa using hnone⟩
  · rintro ⟨hskip, hnodup, hputs, hrequired⟩
    refine ⟨(a, ((form.known ms).map (·.1.name)).reverse),
      (foldlM_member_eq_ok_iff List.nodup_nil).2 ⟨hskip, hputs, by simpa using hnodup, by simp⟩, ?_⟩
    have hnone := (hmissing ((form.known ms).map (·.1.name)).reverse).2 (by simpa using hrequired)
    simp only [hnone]

/-! ## Objects that give every field -/

/-- The members that give each field the value at its place. -/
def membersOf (form : Form α) (vs : List Json) : List (String × Json) :=
  (form.fields.zip vs).map fun x => (x.1.name, x.2)

/-- Where names differ, every field is found. -/
theorem field?_name (hfields : (form.fields.map (·.name)).Nodup) {field : Field α}
    (hfield : field ∈ form.fields) : form.field? field.name = some field := by
  cases h : form.field? field.name with
  | none => simpa using List.find?_eq_none.1 h field hfield
  | some field' =>
    have hname := name_of_field? h
    rw [List.inj_on_of_nodup_map hfields (List.mem_of_find?_eq_some h) hfield hname]

/-- An object that gives each field a value, in order, is decoded as the values are. -/
theorem decoder_membersOf (hfields : (form.fields.map (·.name)).Nodup) (vs : List Json)
    (hlength : vs.length = form.fields.length)
    (hputs : putAll site.inside (form.fields.zip vs) form.blank = .ok a) :
    form.decoder site (.obj (form.membersOf vs)) = .ok a := by
  have hfield : ∀ x ∈ form.fields.zip vs, form.field? x.1.name = some x.1 :=
    fun x hx => field?_name hfields (List.of_mem_zip hx).1
  have hknown : form.known (form.membersOf vs) = form.fields.zip vs := by
    rw [known, membersOf, List.filterMap_map]
    refine (List.filterMap_congr fun x hx => ?_).trans List.filterMap_some
    simp [hfield x hx]
  have hnames : (form.fields.zip vs).map (·.1.name) = form.fields.map (·.name) := by
    have hfst : (form.fields.zip vs).map Prod.fst = form.fields :=
      List.map_fst_zip (Nat.le_of_eq hlength.symm)
    exact (List.map_map ..).symm.trans (congrArg (List.map (·.name)) hfst)
  refine ofMembers_eq_ok_iff.2 ⟨?_, ?_, ?_, ?_⟩
  · rintro m hm hnone
    obtain ⟨x, hx, rfl⟩ := List.mem_map.1 hm
    rw [hfield x hx] at hnone
    cases hnone
  · rwa [hknown, hnames]
  · rwa [hknown]
  · rw [hknown, hnames]
    exact fun field hmem _ => List.mem_map_of_mem hmem

end Form

end StaffRights.Json
