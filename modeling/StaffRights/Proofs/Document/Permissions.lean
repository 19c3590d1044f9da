import StaffRights.Document.Permissions
import StaffRights.Proofs.Json.Forms
import StaffRights.Proofs.Permissions

/-!
# Which objects are permission records

An object is a permission record if no flag has two members and the member of each flag is a truth
value, a zero or a one; whatever else it holds, and in which order, does not matter. The set that it
stands for is then made of the names of the members that say yes, and the record of a set that is
made of names has a one just for the flags that they name.

Reference: `SPEC_FULL.md` 10.2 (`from_field`, `PermissionRecord`).
-/

namespace StaffRights.PermissionRecord

variable {site : Json.Site} {ms : List (String × Json)} {fs : List (Flag × Json)} {v : Json}
  {b : Bool} {f : Flag} {r r' : PermissionRecord}

/-! ## Single answers -/

/-- The answer that a value gives, if it gives one. -/
def answer? : Json → Option Bool
  | .bool b => some b
  | .int n => if n = 0 then some false else if n = 1 then some true else none
  | _ => none

/-- A value that gives no answer is refused, on whatever grounds. -/
theorem answer_eq_ok_iff : answer site v = .ok b ↔ answer? v = some b := by
  cases v with
  | bool c => simp [answer, answer?, Json.readFault]
  | int n =>
    by_cases h₀ : n = 0
    · subst h₀
      simp [answer, answer?, Json.readFault]
    · by_cases h₁ : n = 1
      · subst h₁
        simp [answer, answer?, Json.readFault]
      · simp only [answer, answer?, Json.readFault, ite_self, if_neg h₀, if_neg h₁]
        split <;> simp_all
  | _ =>
    simp only [answer, answer?]
    split <;> simp

/-- Truth values are answers, and so are the numbers zero and one; nothing else is. -/
theorem answer?_isSome_iff :
    (answer? v).isSome ↔ v = .bool true ∨ v = .bool false ∨ v = .int 0 ∨ v = .int 1 := by
  cases v with
  | bool b => cases b <;> simp [answer?]
  | int n =>
    simp only [answer?, reduceCtorEq, Json.int.injEq, false_or]
    split_ifs <;> simp_all
  | _ => simp [answer?]

/-! ## Members of flags -/

/-- The field of one flag. -/
def flagField (f : Flag) : Json.Field PermissionRecord :=
  .optional f.field answer fun b r => r.set f b

/-- The values that are given for flags. -/
def given (ms : List (String × Json)) : List (Flag × Json) :=
  ms.filterMap fun m => (Flag.ofField? m.1).map (·, m.2)

/-- The names of the members that say yes for a flag. -/
def affirmed (ms : List (String × Json)) : List String :=
  ((given ms).filter fun x => answer? x.2 = some true).map (·.1.field)

/-- A value is given for a flag just if a member of its name has it. -/
theorem mem_given_iff : (f, v) ∈ given ms ↔ (f.field, v) ∈ ms := by
  simp [given, Flag.ofField?_eq_some_iff]

/-- A name is affirmed just if a value given for its flag says yes. -/
theorem mem_affirmed_iff :
    f.field ∈ affirmed ms ↔ ∃ v, (f, v) ∈ given ms ∧ answer? v = some true := by
  simp [affirmed, Flag.field_injective.eq_iff]

/-- The members that a record knows are those that are given for flags. -/
theorem known_eq : form.known ms = (given ms).map fun x => (flagField x.1, x.2) := by
  have hfield : ∀ name, form.field? name = (Flag.ofField? name).map flagField := by
    intro name
    rw [Flag.ofField?_eq_find?]
    exact List.find?_map ..
  simp only [Json.Form.known, given, List.map_filterMap, hfield, Option.map_map]
  rfl

/-- No flag has two members just if the flags for which values are given differ. -/
theorem nodup_given_iff :
    ((given ms).map (·.1)).Nodup ↔ ∀ f : Flag, (ms.map (·.1)).count f.field ≤ 1 := by
  have hcount : ∀ f : Flag, ((given ms).map (·.1)).count f = (ms.map (·.1)).count f.field := by
    intro f
    induction ms with
    | nil => rfl
    | cons m ms ih =>
      cases hm : Flag.ofField? m.1 with
      | none =>
        have hgiven : given (m :: ms) = given ms := by simp [given, hm]
        rw [hgiven, ih, List.map_cons,
          List.count_cons_of_ne (Flag.ofField?_eq_none_iff.1 hm f).symm]
      | some g =>
        have hgiven : given (m :: ms) = (g, m.2) :: given ms := by simp [given, hm]
        rw [hgiven, List.map_cons, List.map_cons, List.count_cons, List.count_cons, ih,
          ← Flag.ofField?_eq_some_iff.1 hm]
        simp [Flag.field_injective.eq_iff]
  simp only [List.nodup_iff_count_le_one, hcount]

/-- The field of a flag takes answers only, and sets that flag. -/
theorem put_flagField_eq_ok_iff :
    (flagField f).put site v r = .ok r' ↔ ∃ b, answer? v = some b ∧ r.set f b = r' := by
  rw [flagField, Json.Field.optional, map_eq_ok_iff]
  simp only [answer_eq_ok_iff]

/-- Values can be put into the fields of flags if each of them gives an answer. -/
theorem putAll_eq_ok_iff :
    Json.Form.putAll site (fs.map fun x => (flagField x.1, x.2)) r = .ok r' ↔
      (∀ x ∈ fs, (answer? x.2).isSome) ∧
        r' = fs.foldl (fun r x => r.set x.1 ((answer? x.2).getD false)) r := by
  induction fs generalizing r with
  | nil =>
    constructor
    · rintro ⟨⟩
      exact ⟨nofun, rfl⟩
    · rintro ⟨-, rfl⟩
      rfl
  | cons x fs ih =>
    rw [List.map_cons, Json.Form.putAll_cons, bind_eq_ok_iff, List.forall_mem_cons,
      List.foldl_cons, Option.isSome_iff_exists]
    simp only [ih, put_flagField_eq_ok_iff]
    constructor
    · rintro ⟨-, ⟨b, hb, rfl⟩, hfs, rfl⟩
      exact ⟨⟨⟨b, hb⟩, hfs⟩, by rw [hb]; rfl⟩
    · rintro ⟨⟨⟨b, hb⟩, hfs⟩, rfl⟩
      exact ⟨_, ⟨b, hb, rfl⟩, hfs, by rw [hb]; rfl⟩

/-- Setting one flag leaves the others as they are. -/
theorem get_set {g : Flag} : (r.set f b).get g = if g = f then b else r.get g := by
  rw [set, get_ofFn]

/-- Of different flags, each has the answer that is given for it. -/
theorem get_foldl_set (hfs : (fs.map (·.1)).Nodup) :
    (fs.foldl (fun r x => r.set x.1 ((answer? x.2).getD false)) r).get f = true ↔
      (∃ v, (f, v) ∈ fs ∧ answer? v = some true) ∨ f ∉ fs.map (·.1) ∧ r.get f = true := by
  induction fs generalizing r with
  | nil => simp
  | cons x fs ih =>
    obtain ⟨g, w⟩ := x
    obtain ⟨hg, hfs⟩ := List.nodup_cons.1 hfs
    rw [List.foldl_cons, ih hfs, get_set]
    by_cases hf : f = g
    · subst hf
      have hnone : ∀ v, (f, v) ∉ fs := fun v hv => hg (List.mem_map.2 ⟨(f, v), hv, rfl⟩)
      cases hw : answer? w <;> simp [hnone, hw]
    · simp [hf]

/-- Records that say yes for the same flags are the same. -/
theorem ext_get (h : ∀ f, r.get f = true ↔ r'.get f = true) : r = r' := by
  rw [← ofFn_get r, ← ofFn_get r', funext fun f => Bool.eq_iff_iff.2 (h f)]

/-- With different flags, those have a yes for which a member says so. -/
theorem get_putAll (hms : ((given ms).map (·.1)).Nodup) :
    ((given ms).foldl (fun r x => r.set x.1 ((answer? x.2).getD false)) form.blank).get f = true ↔
      f.field ∈ affirmed ms := by
  have hblank : form.blank.get f = false := by cases f <;> rfl
  rw [get_foldl_set hms, mem_affirmed_iff, hblank]
  simp

/-! ## Records -/

/-- What makes an object a permission record, and which. -/
theorem decoder_eq_ok_iff (hms : ∀ m ∈ ms, m.2.skipFault = none) :
    decoder site (.obj ms) = .ok r ↔
      (∀ f : Flag, (ms.map (·.1)).count f.field ≤ 1) ∧
      (∀ f v, (Flag.field f, v) ∈ ms → (answer? v).isSome) ∧
      ∀ f, r.get f = true ↔ f.field ∈ affirmed ms := by
  have hrequired : ∀ field ∈ form.fields, field.required = false := by
    simp [form, Json.record, Json.Field.optional]
  have hnames : (form.known ms).map (·.1.name) = ((given ms).map (·.1)).map Flag.field := by
    rw [known_eq, List.map_map, List.map_map]
    rfl
  have hanswers : (∀ x ∈ given ms, (answer? x.2).isSome) ↔
      ∀ f v, (Flag.field f, v) ∈ ms → (answer? v).isSome := by
    simp only [Prod.forall, mem_given_iff]
  rw [decoder, Json.Form.decoder, Json.Form.ofMembers_eq_ok_iff, hnames,
    List.nodup_map_iff Flag.field_injective, known_eq, putAll_eq_ok_iff, hanswers,
    ← nodup_given_iff]
  constructor
  · rintro ⟨-, hnodup, ⟨hall, rfl⟩, -⟩
    exact ⟨hnodup, hall, fun f => get_putAll hnodup⟩
  · rintro ⟨hnodup, hall, hr⟩
    refine ⟨fun m hm _ => hms m hm, hnodup, ⟨hall, ext_get fun f => ?_⟩,
      fun field hfield htrue => ?_⟩
    · rw [hr, get_putAll hnodup]
    · rw [hrequired field hfield] at htrue
      cases htrue

/-- The members that are about flags. -/
def aboutFlags (ms : List (String × Json)) : List (String × Json) :=
  ms.filter fun m => (Flag.ofField? m.1).isSome

/-- Members that name no flag give nothing. -/
theorem given_aboutFlags (ms : List (String × Json)) : given (aboutFlags ms) = given ms := by
  rw [given, aboutFlags, List.filterMap_filter, given]
  congr 1
  funext m
  cases Flag.ofField? m.1 <;> rfl

/-- Records do not depend on members that are about nothing, or on the order of the others. -/
theorem decoder_congr {ms' : List (String × Json)} (hms : ∀ m ∈ ms, m.2.skipFault = none)
    (hms' : ∀ m ∈ ms', m.2.skipFault = none) (hperm : (aboutFlags ms').Perm (aboutFlags ms)) :
    decoder site (.obj ms') = .ok r ↔ decoder site (.obj ms) = .ok r := by
  have hgiven : (given ms').Perm (given ms) := by
    rw [← given_aboutFlags ms', ← given_aboutFlags ms]
    exact hperm.filterMap _
  rw [decoder_eq_ok_iff hms', decoder_eq_ok_iff hms]
  simp only [← nodup_given_iff, ← mem_given_iff, mem_affirmed_iff, hgiven.mem_iff,
    (hgiven.map _).nodup_iff]

/-- The names that are affirmed make the set of the record. -/
theorem ofFields?_affirmed (hr : ∀ f, r.get f = true ↔ f.field ∈ affirmed ms) :
    Permissions.ofFields? (affirmed ms) = some r.permissions := by
  cases hp : Permissions.ofFields? (affirmed ms) with
  | none =>
    obtain ⟨name, hname, hno⟩ := Permissions.ofFields?_eq_none_iff.1 hp
    obtain ⟨x, -, rfl⟩ := List.mem_map.1 hname
    exact absurd rfl (hno x.1)
  | some p =>
    obtain ⟨hfull, hholds⟩ := Permissions.of_ofFields? hp
    have hnamed : r.permissions ∩ .full = r.permissions := Permissions.ofFlags_inter_full _
    refine congrArg some (Permissions.ext_holds hfull hnamed fun f => ?_)
    rw [Bool.eq_iff_iff, hholds, holds_permissions, hr]

/-- The document of the record of a set of names has a one for each flag that they name. -/
theorem toJson_record_of_names {names : List String} {p : Permissions}
    (hp : Permissions.ofFields? names = some p) :
    p.record.toJson =
      .obj (Flag.all.map fun f => (f.field, .int (if f.field ∈ names then 1 else 0))) := by
  have hholds := (Permissions.of_ofFields? hp).2
  simp only [toJson, digit, Permissions.record, get_ofFn, hholds]

/-- An object, of which no value is broken, is a permission record exactly if no flag has two
members and the member of each flag is a truth value, a zero or a one. Members that are about no
flag, and the order of those that are, do not matter. The record stands for the set that the names
make which are affirmed, a truth or a one being their value, and is written with a one for these and
a zero for all others. Names make a set unless one of them names no flag, and then the set has the
flags that they name, however often and in which order they do, and nothing else. -/
theorem objects_agree_with_names (hms : ∀ m ∈ ms, m.2.skipFault = none) (site : Json.Site) :
    ((∃ r, decoder site (.obj ms) = .ok r) ↔
      (∀ f : Flag, (ms.map (·.1)).count f.field ≤ 1) ∧
      ∀ f v, (Flag.field f, v) ∈ ms →
        v = .bool true ∨ v = .bool false ∨ v = .int 0 ∨ v = .int 1) ∧
    (∀ ms', (∀ m ∈ ms', m.2.skipFault = none) → (aboutFlags ms').Perm (aboutFlags ms) →
      ∀ r, decoder site (.obj ms') = .ok r ↔ decoder site (.obj ms) = .ok r) ∧
    (∀ r, decoder site (.obj ms) = .ok r →
      Permissions.ofFields? (affirmed ms) = some r.permissions ∧
      r.permissions.record.toJson =
        .obj (Flag.all.map fun f => (f.field, .int (if f.field ∈ affirmed ms then 1 else 0)))) ∧
    ∀ names,
      (Permissions.ofFields? names = none ↔ ∃ name ∈ names, ∀ f : Flag, f.field ≠ name) ∧
      ∀ p, Permissions.ofFields? names = some p →
        (∀ f, p.has (.single f) = true ↔ f.field ∈ names) ∧ p ∩ .full = p ∧
        p.record.toJson =
          .obj (Flag.all.map fun f => (f.field, .int (if f.field ∈ names then 1 else 0))) := by
  refine ⟨?_, fun ms' hms' hperm r => decoder_congr hms hms' hperm, fun r hr => ?_, fun names => ?_⟩
  · simp only [decoder_eq_ok_iff hms, ← answer?_isSome_iff, exists_and_left]
    refine and_congr_right fun _ => and_iff_left ⟨ofFn fun f => decide (f.field ∈ affirmed ms), ?_⟩
    simp
  · have hnames := ofFields?_affirmed ((decoder_eq_ok_iff hms).1 hr).2.2
    exact ⟨hnames, toJson_record_of_names hnames⟩
  · refine ⟨Permissions.ofFields?_eq_none_iff, fun p hp => ?_⟩
    obtain ⟨hfull, hholds⟩ := Permissions.of_ofFields? hp
    exact ⟨fun f => by rw [Permissions.has_single, hholds], hfull, toJson_record_of_names hp⟩

/-- A record in which two flags are given, beside a number that means nothing, stands for the two
flags, and so it does the other way round; the number is no answer for a flag. -/
theorem objects_agree_with_names_of_mixed :
    let one : Json := .float 0x3FF0000000000000
    let ms := [("may_sign", .int 1), ("note", one), ("may_read", .bool true), ("may_award", .int 0)]
    let ms' := [("may_read", .bool true), ("may_award", .int 0), ("may_sign", .int 1)]
    let p : Permissions := .single .sign ∪ .single .read
    (∃ r, decoder .text (.obj ms) = .ok r ∧ decoder .text (.obj ms') = .ok r ∧ r.permissions = p) ∧
      ¬ (∃ r, decoder .text (.obj [("may_read", one)]) = .ok r) ∧
      Permissions.ofFields? ["may_sign", "note"] = none ∧
      p.record.toJson = .obj [("may_create", .int 0), ("may_read", .int 1), ("may_update", .int 0),
        ("may_delete", .int 0), ("may_sign", .int 1), ("may_award", .int 0),
        ("may_administrate_users", .int 0)] := by
  intro one ms ms' p
  have hms : ∀ m ∈ ms, m.2.skipFault = none := by simp [ms, one, Json.skipFault]
  have hms' : ∀ m ∈ ms', m.2.skipFault = none := by simp [ms', Json.skipFault]
  have hone : ∀ m ∈ [("may_read", one)], m.2.skipFault = none := by simp [one, Json.skipFault]
  obtain ⟨haccepted, horder, hset, -⟩ := objects_agree_with_names hms .text
  obtain ⟨hrefused, -, -, hnames⟩ := objects_agree_with_names hone .text
  have hflags : ∀ f : Flag, (ms.map (·.1)).count f.field ≤ 1 := by
    intro f
    cases f <;> decide
  have hvalues : ∀ f v, (Flag.field f, v) ∈ ms →
      v = .bool true ∨ v = .bool false ∨ v = .int 0 ∨ v = .int 1 := by
    intro f v hmem
    simp only [ms, List.mem_cons, Prod.mk.injEq, List.not_mem_nil, or_false] at hmem
    rcases hmem with ⟨-, rfl⟩ | ⟨hf, -⟩ | ⟨-, rfl⟩ | ⟨-, rfl⟩
    · simp
    · cases f <;> exact absurd hf (by decide)
    · simp
    · simp
  have hperm : (aboutFlags ms').Perm (aboutFlags ms) :=
    List.perm_append_singleton ("may_sign", Json.int 1)
      [("may_read", .bool true), ("may_award", .int 0)]
  obtain ⟨r, hr⟩ := haccepted.2 ⟨hflags, hvalues⟩
  have hrp : r.permissions = p := Option.some.inj ((hset r hr).1.symm.trans (by decide))
  refine ⟨⟨r, hr, (horder ms' hms' hperm r).2 hr, hrp⟩, ?_, by decide, ?_⟩
  · rw [hrefused]
    rintro ⟨-, hanswers⟩
    simpa [one] using hanswers .read one (List.mem_cons_self ..)
  · exact ((hnames ["may_sign", "may_read"]).2 p (by decide)).2.2

end StaffRights.PermissionRecord
