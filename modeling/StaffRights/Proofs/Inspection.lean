import StaffRights.Inspection
import StaffRights.Proofs.Document.RoundTrip
import StaffRights.Proofs.Json.Canonical
import StaffRights.Proofs.Service.Administration
import StaffRights.Proofs.Service.Steps
import StaffRights.Proofs.Snapshot.Rearranged

/-!
# What the inspector reports

A report tells, of each entity that it lists, what resolving the rights of the user there gives; the
service that is asked for them answers so whether or not it remembers them. It is printed in
canonical form, so it is told by which entities it lists and not by their order. Asked about no
entity in particular, it lists those on which the user may administrate users; and as rights and
entities are the same in a rearranged snapshot, so is what is printed.

Reference: `SPEC_FULL.md` 10.13 (`staff-inspect`).
-/

namespace StaffRights

namespace Snapshot

/-- A text that can be decoded is loaded from its bytes. -/
theorem load_text {fresh : Nat → MembershipId} {text : String} {s : Snapshot}
    (hdecode : (Json.decodeText (decoder fresh) text).toOption = some s) :
    load fresh text.toUTF8 = .ok s := by
  rw [load_toUTF8]
  cases hok : Json.decodeText (decoder fresh) text with
  | error e => simp [hok, Except.toOption] at hdecode
  | ok s' =>
    rw [hok] at hdecode
    exact congrArg Except.ok (Option.some.inj hdecode)

end Snapshot

/-! ## Permission records -/

namespace PermissionRecord

/-- The canonical document of a record has a zero or a one for each flag. -/
theorem member?_canonical (r : PermissionRecord) (f : Flag) :
    r.toJson.canonical.member? f.field = some (digit (r.get f)) := by
  have hsingle := Json.singleValued_map Flag.field_injective (fun f => digit (r.get f)) Flag.all
  have hmem : (f.field, digit (r.get f)) ∈ Flag.all.map fun f => (f.field, digit (r.get f)) :=
    List.mem_map_of_mem (f := fun f => (f.field, digit (r.get f))) (Flag.mem_all f)
  exact Json.member?_canonical hsingle hmem

end PermissionRecord

/-- The document of the record of rights has a one for each flag that is held. -/
theorem Permissions.member?_record (p : Permissions) (f : Flag) :
    p.record.toJson.canonical.member? f.field = some (PermissionRecord.digit (p.holds f)) := by
  rw [PermissionRecord.member?_canonical, record, PermissionRecord.get_ofFn]

/-! ## Reports -/

namespace Report

variable {h : Hierarchy} {user : User} {ids ids' : List EntityId}

/-- The members of the document that tell rights. -/
def members (r : Report) : List (String × Json) :=
  r.rights.map fun (id, record) => (id.text, record.toJson)

/-- The rights of a user on the listed entities, as they are resolved. -/
def resolved (h : Hierarchy) (user : User) (ids : List EntityId) : Report :=
  ⟨user.id, ids.map fun id => (id, (h.tree.rights id user).record)⟩

/-- Each listed entity is reported with the record of what the tree resolves there. -/
theorem members_resolved : (resolved h user ids).members =
    ids.map fun id => (id.text, (h.tree.rights id user).record.toJson) := by
  rw [members, resolved, List.map_map]
  rfl

/-- An entity that is listed twice is reported in the same way. -/
theorem singleValued_resolved : Json.SingleValued (resolved h user ids).members := by
  rw [members_resolved]
  exact Json.singleValued_map Id.text_injective _ ids

/-- The text has two members, and the entities stand in the order of their keys. -/
theorem text_eq (r : Report) : r.text =
    (Json.obj [("permissions", .obj (Json.canonicalMembers r.members [])),
      ("user", r.user.toJson)]).pretty ++ "\n" := by
  have hcanonical : r.toJson.canonical = .obj
      [("permissions", .obj (Json.canonicalMembers r.members [])), ("user", r.user.toJson)] := by
    have horder : "permissions" < "user" := by decide
    simp only [toJson, Json.canonical, Json.canonicalMembers, Json.putMember, Id.toJson, members,
      horder, if_pos]
  rw [text, hcanonical]

/-- What is printed tells the rights on the listed entities, and nothing else. -/
theorem mem_canonicalMembers_resolved {k : String} {v : Json} :
    (k, v) ∈ Json.canonicalMembers (resolved h user ids).members [] ↔
      ∃ id ∈ ids, k = id.text ∧ v = (h.tree.rights id user).record.toJson.canonical := by
  rw [Json.mem_canonicalMembers_nil_iff singleValued_resolved, members_resolved]
  simp only [List.mem_map, exists_exists_and_eq_and, Prod.mk.injEq, eq_comm (a := k),
    eq_comm (a := v)]

/-- Whoever lists the same entities, in any order, prints the same. -/
theorem text_resolved_congr {h' : Hierarchy} (hids : ∀ id, id ∈ ids ↔ id ∈ ids')
    (hrights : ∀ id, h'.tree.rights id user = h.tree.rights id user) :
    (resolved h' user ids').text = (resolved h user ids).text := by
  have hmem : ∀ x, x ∈ (resolved h user ids).members ↔ x ∈ (resolved h' user ids').members := by
    intro x
    simp only [members_resolved, List.mem_map, hids, hrights]
  rw [text_eq, text_eq, Json.canonicalMembers_congr singleValued_resolved hmem]
  rfl

end Report

/-! ## The service -/

namespace Service

/-- The report of a service on the listed entities, one after the other. -/
def report (s : Service) (user : User) (ids : List EntityId) : Report :=
  ⟨user.id, (s.rightsOn user ids).map fun (id, p) => (id, p.record)⟩

/-- A faithful cache answers what resolving does, and is faithful for the next entity. -/
theorem rightsOn_eq {s : Service} (hf : s.cache.Faithful s.hierarchy) (user : User)
    (ids : List EntityId) :
    s.rightsOn user ids = ids.map fun id => (id, s.hierarchy.tree.rights id user) := by
  induction ids generalizing s with
  | nil => rfl
  | cons id ids ih =>
    obtain ⟨hh, -, hanswer⟩ := s.rights_spec user id
    obtain ⟨hrights, hf'⟩ := hanswer hf
    have hrest := ih (s := (s.rights user id).2) (hh ▸ hf')
    change (id, (s.rights user id).1) :: (s.rights user id).2.rightsOn user ids = _
    rw [hrights, hrest, hh, List.map_cons]

/-- A service that was just started reports what the tree resolves. -/
theorem report_start (h : Hierarchy) (settings : Settings) (user : User) (ids : List EntityId) :
    (start h settings .discard).report user ids = .resolved h user ids := by
  have hf : (start h settings .discard).cache.Faithful (start h settings .discard).hierarchy :=
    Cache.faithful_empty settings.permissionCache
  rw [report, rightsOn_eq hf, List.map_map]
  rfl

end Service

namespace Query

variable {q : Query} {settings : Settings} {s : Snapshot} {h : Hierarchy} {user : User}
  {fresh : Nat → MembershipId} {bytes : ByteArray}

/-- The entities that a query is about: the one that was named, or all whose staff the user may
administrate. -/
def about (q : Query) (h : Hierarchy) (user : User) : List EntityId :=
  match q.entity with
  | some id => [id]
  | none => (h.tree.administrable user.id).map (·.id)

/-- A query about a snapshot that can be loaded is answered, whatever the settings. -/
theorem answer_eq (hload : Snapshot.load fresh bytes = .ok s) (hbuild : s.toHierarchy = .ok h)
    (huser : s.findUser q.user = some user) :
    q.answer settings fresh (.ok bytes) = .ok (.resolved h user (q.about h user)) := by
  have hask : q.ask settings s =
      .ok ((Service.start h settings .discard).report user (q.about h user)) := by
    rw [ask, huser, hbuild]
    rfl
  have hanswer : q.answer settings fresh (.ok bytes) = q.ask settings s := by
    simp only [answer, Except.mapError, Except.bind, hload]
    rfl
  rw [hanswer, hask, Service.report_start]

/-- Listed are the entities on which the user may administrate users. -/
theorem mem_about_iff (hr : h.Reachable) (hq : q.entity = none) {id : EntityId} :
    id ∈ q.about h user ↔ ∃ e, h.tree.entity e.id = some e ∧
      (h.tree.rights e.id user).has (.single .administrateUsers) ∧ e.id = id := by
  obtain ⟨hc, hapart⟩ := hr.consistent_and_apart
  simp only [about, hq, List.mem_map, hc.mem_administrable_iff hapart, and_assoc]

/-- A query about a snapshot that can be loaded is answered with a report, whatever the settings. It
is printed with the entities in strictly ascending order of their text. Those are the entities on
which the user may administrate users, in whatever order they are gone through; or the one that was
named, where nothing is held if the snapshot does not have it. Each is printed with the record of
the rights on it. A rearranged snapshot is answered with what is printed in the same way. -/
theorem report_on_administrable (hload : Snapshot.load fresh bytes = .ok s)
    (hbuild : s.toHierarchy = .ok h) (huser : s.findUser q.user = some user) :
    ∃ report ms, (∀ settings, q.answer settings fresh (.ok bytes) = .ok report) ∧
      report.text =
        (Json.obj [("permissions", .obj ms), ("user", q.user.toJson)]).pretty ++ "\n" ∧
      ms.Pairwise (fun a b => a.1 < b.1) ∧
      (q.entity = none →
        (∀ k v, (k, v) ∈ ms ↔ ∃ e, h.tree.entity e.id = some e ∧
          (h.tree.rights e.id user).has (.single .administrateUsers) ∧ k = e.id.text ∧
          v = (h.tree.rights e.id user).record.toJson.canonical) ∧
        (∀ k v, (k, v) ∈ ms → v.member? "may_administrate_users" = some (.int 1)) ∧
        ∀ settings (es : List Entity), (∀ e, e ∈ es ↔ e ∈ h.tree.administrable user.id) →
          ((Service.start h settings .discard).report user (es.map (·.id))).text = report.text) ∧
      (∀ id, q.entity = some id →
        ms = [(id.text, (h.tree.rights id user).record.toJson.canonical)] ∧
        ((∀ r ∈ s.entities, r.id ≠ id) → ∀ f : Flag,
          (h.tree.rights id user).record.toJson.canonical.member? f.field = some (.int 0))) ∧
      ∀ fresh' bytes' s', Snapshot.load fresh' bytes' = .ok s' → s'.findUser q.user = some user →
        s.Rearranged s' → ∃ report',
          (∀ settings, q.answer settings fresh' (.ok bytes') = .ok report') ∧
          report'.text = report.text := by
  have hr := Hierarchy.Reachable.loaded hbuild
  have hid : user.id = q.user := by simpa using List.find?_some huser
  have htext := Report.text_eq (.resolved h user (q.about h user))
  rw [show (Report.resolved h user (q.about h user)).user = q.user from hid] at htext
  refine ⟨_, _, fun settings => answer_eq hload hbuild huser, htext,
    Json.ascending_canonicalMembers _, fun hq => ⟨fun k v => ?_, fun k v hkv => ?_,
      fun settings es hes => ?_⟩, fun id hq => ⟨?_, fun hnone f => ?_⟩,
    fun fresh' bytes' s' hload' huser' hrear => ?_⟩
  · rw [Report.mem_canonicalMembers_resolved]
    simp only [mem_about_iff hr hq]
    constructor
    · rintro ⟨-, ⟨e, he, hadmin, rfl⟩, rfl, rfl⟩
      exact ⟨e, he, hadmin, rfl, rfl⟩
    · rintro ⟨e, he, hadmin, rfl, rfl⟩
      exact ⟨_, ⟨e, he, hadmin, rfl⟩, rfl, rfl⟩
  · obtain ⟨id, habout, rfl, rfl⟩ := Report.mem_canonicalMembers_resolved.1 hkv
    obtain ⟨e, -, hadmin, rfl⟩ := (mem_about_iff hr hq).1 habout
    rw [Permissions.has_single] at hadmin
    have hone := (h.tree.rights e.id user).member?_record .administrateUsers
    rw [hadmin] at hone
    exact hone
  · rw [Service.report_start]
    -- only which entities are listed matters, and both lists have the same
    refine Report.text_resolved_congr (fun id => ?_) fun _ => rfl
    simp only [about, hq, List.mem_map, hes]
  · simp only [Report.members_resolved, about, hq]
    rfl
  · have hunknown := (Snapshot.tree_entity_eq_none_iff hbuild).2 hnone
    rw [Permissions.member?_record, hr.consistent.rights_of_unknown hunknown,
      Permissions.holds_empty]
    rfl
  -- what is made of the rearranged snapshot has the same entities and rights
  · obtain ⟨h', hbuild'⟩ := Snapshot.exists_toHierarchy_iff.2
      ((Snapshot.exists_toHierarchy_iff.1 ⟨h, hbuild⟩).rearranged hrear)
    have hsame := fun id => Snapshot.rights_rearranged hrear hbuild hbuild' id user
    refine ⟨.resolved h' user (q.about h' user), fun settings => answer_eq hload' hbuild' huser',
      Report.text_resolved_congr (fun id => ?_) fun id => (hsame id).2⟩
    cases hq : q.entity with
    | some id => simp only [about, hq]
    | none =>
      have hr' := Hierarchy.Reachable.loaded hbuild'
      rw [mem_about_iff hr hq, mem_about_iff hr' hq]
      simp only [hsame]

/-- A user who administrates a faculty is reported to do so there, and not on the institution above.
The same is printed if the document lists the entities the other way round and the membership is
given another id. On an entity that is not in the document, nothing is held. -/
theorem report_on_administrable_of_faculty :
    let a := "00000000000000000000000000000001"
    let b := "00000000000000000000000000000002"
    let u := "00000000000000000000000000000009"
    let institution := "\x7b\"id\":\"" ++ a ++ "\",\"kind\":\"institution\"\x7d"
    let faculty := "\x7b\"id\":\"" ++ b ++ "\",\"kind\":\"faculty\",\"parent\":\"" ++ a ++
      "\"\x7d"
    let document (first second : String) := "\x7b\"users\":[\x7b\"id\":\"" ++ u ++
      "\"\x7d],\"entities\":[" ++ first ++ "," ++ second ++
      "],\"memberships\":[\x7b\"user_id\":\"" ++ u ++ "\",\"entity_id\":\"" ++ b ++
      "\",\"permissions\":\x7b\"may_administrate_users\":1\x7d\x7d]\x7d"
    let bytes := (document institution faculty).toUTF8
    let bytes' := (document faculty institution).toUTF8
    let fresh (n : Nat) : MembershipId := .ofNat (n + 5)
    let id (n : Nat) : EntityId := .ofNat n
    let q : Query := ⟨.ofNat 9, none, "snapshot.json"⟩
    let q' : Query := { q with entity := some (id 7) }
    (∃ report ms, (∀ settings, q.answer settings Id.ofNat (.ok bytes) = .ok report) ∧
      report.text =
        (Json.obj [("permissions", .obj ms), ("user", q.user.toJson)]).pretty ++ "\n" ∧
      (∃ v, ((id 2).text, v) ∈ ms ∧ v.member? "may_administrate_users" = some (.int 1)) ∧
      (∀ v, ((id 1).text, v) ∉ ms) ∧
      ∃ report', (∀ settings, q.answer settings fresh (.ok bytes') = .ok report') ∧
        report'.text = report.text) ∧
    ∃ report v, (∀ settings, q'.answer settings Id.ofNat (.ok bytes) = .ok report) ∧
      report.text = (Json.obj [("permissions", .obj [((id 7).text, v)]),
        ("user", q.user.toJson)]).pretty ++ "\n" ∧
      ∀ f : Flag, v.member? f.field = some (.int 0) := by
  intro a b u institution faculty document bytes bytes' fresh id q q'
  let user : User := .student (.ofNat 9)
  let admin : PermissionRecord := { administrateUsers := true }
  let s : Snapshot :=
    { users := [user]
      entities := [⟨id 1, .institution, none, 0⟩, ⟨id 2, .faculty, some (id 1), 0⟩]
      memberships := [⟨.ofNat 0, user.id, id 2, admin, none⟩] }
  let s' : Snapshot :=
    { s with
      entities := s.entities.reverse
      memberships := [⟨fresh 0, user.id, id 2, admin, none⟩] }
  have hchars (first second : String) : (document first second).toList =
      "\x7b\"users\":[\x7b\"id\":\"".toList ++ u.toList ++ "\"\x7d],\"entities\":[".toList ++
        first.toList ++ ",".toList ++ second.toList ++
        "],\"memberships\":[\x7b\"user_id\":\"".toList ++ u.toList ++
        "\",\"entity_id\":\"".toList ++ b.toList ++
        "\",\"permissions\":\x7b\"may_administrate_users\":1\x7d\x7d]\x7d".toList := by
    simp only [document, String.toList_append]
  have hload : Snapshot.load Id.ofNat bytes = .ok s := by
    refine Snapshot.load_text ?_
    rw [Json.decodeText, hchars]
    decide +kernel
  have hload' : Snapshot.load fresh bytes' = .ok s' := by
    refine Snapshot.load_text ?_
    rw [Json.decodeText, hchars]
    decide +kernel
  have hrights : s.toHierarchy.toOption.any fun h =>
      (h.tree.entity (id 2)).any (·.id == id 2) &&
      (h.tree.rights (id 2) user).holds .administrateUsers &&
      !(h.tree.rights (id 1) user).holds .administrateUsers := by
    rw [Snapshot.toHierarchy, List.mergeSort_of_pairwise (by decide)]
    decide +kernel
  obtain ⟨h, hbuild, ⟨e, he, heid⟩, hadmin, hnone⟩ : ∃ h, s.toHierarchy = .ok h ∧
      (∃ e, h.tree.entity (id 2) = some e ∧ e.id = id 2) ∧
      (h.tree.rights (id 2) user).has (.single .administrateUsers) ∧
      ¬ (h.tree.rights (id 1) user).has (.single .administrateUsers) := by
    cases hbuild : s.toHierarchy with
    | error cause => simp [hbuild, Except.toOption] at hrights
    | ok h =>
      simp only [hbuild, Except.toOption, Option.any_some, Bool.and_eq_true, Option.any_eq_true,
        Bool.not_eq_true', beq_iff_eq] at hrights
      obtain ⟨⟨he, hadmin⟩, hnone⟩ := hrights
      simp only [Permissions.has_single, Bool.not_eq_true]
      exact ⟨h, rfl, he, hadmin, hnone⟩
  have hrear : s.Rearranged s' := ⟨(List.reverse_perm _).symm, .refl _, by decide⟩
  obtain ⟨report, ms, hanswer, htext, -, hall, -, hsame⟩ :=
    report_on_administrable (q := q) hload hbuild rfl
  obtain ⟨hkeys, hone, -⟩ := hall rfl
  obtain ⟨report', ms', hanswer', htext', -, -, hnamed, -⟩ :=
    report_on_administrable (q := q') hload hbuild rfl
  obtain ⟨rfl, hzero⟩ := hnamed (id 7) rfl
  have hmem := (hkeys (id 2).text _).2 ⟨e, heid ▸ he, heid ▸ hadmin, heid ▸ rfl, rfl⟩
  refine ⟨⟨report, ms, hanswer, htext, ⟨_, hmem, hone _ _ hmem⟩, fun v hv => ?_,
    hsame fresh bytes' s' hload' rfl hrear⟩, report', _, hanswer', htext', hzero (by decide)⟩
  obtain ⟨e', -, hadmin', hid, -⟩ := (hkeys _ _).1 hv
  exact hnone (Id.text_injective hid ▸ hadmin')

end Query

end StaffRights
