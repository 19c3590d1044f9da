import StaffRights.Document.Snapshot
import StaffRights.Proofs.Document.Permissions
import StaffRights.Proofs.Json.Written

/-!
# Documents are read back

Snapshots, invalidations and entities are decoded from their own documents as what they were. Each
decoder is shown to invert its writer wherever the document stands, from identities up to the whole
snapshot: a record does so if the decoders of its fields do.
-/

namespace StaffRights

namespace Json.Decoder

variable {α : Type} {write : α → Json}

/-- A decoder that makes the same value again of what is written for it; and what is written can
stand in a text. -/
structure Inverts (d : Decoder α) (write : α → Json) : Prop where
  plain (a : α) : (write a).Plain
  decode (site : Site) (a : α) : d site (write a) = .ok a

/-- What a decoder inverts, it reads back from the text in one line. -/
theorem Inverts.compact {d : Decoder α} (h : d.Inverts write) (a : α) :
    decodeText d (write a).compact = .ok a := by
  rw [decodeText_compact d (h.plain a), h.decode]

/-- What a decoder inverts, it reads back from the indented text. -/
theorem Inverts.pretty {d : Decoder α} (h : d.Inverts write) (a : α) :
    decodeText d (write a).pretty = .ok a := by
  rw [decodeText_pretty d (h.plain a), h.decode]

theorem bool_inverts : Decoder.bool.Inverts .bool := ⟨.bool, fun _ _ => rfl⟩

/-- Numbers of 32 bits are read back, as none of them is out of range. -/
theorem uint32_inverts : uint32.Inverts fun n => .int n.toNat where
  plain n := by
    have hn := n.toNat_lt
    exact .int (by omega) (by omega)
  decode site n := by
    have hn : (0 : Int) ≤ n.toNat ∧ (n.toNat : Int) < Nat.pow 2 32 :=
      ⟨Int.natCast_nonneg _, Int.ofNat_lt.2 n.toNat_lt⟩
    rw [uint32, if_pos hn, Int.toNat_natCast, UInt32.ofNat_toNat]

/-- A value that may be missing is told from null, as long as it is never written as null. -/
theorem Inverts.nullable {d : Decoder α} (h : d.Inverts write) (hnull : ∀ a, write a ≠ .null) :
    d.nullable.Inverts (ofOption write) where
  plain
    | none => .null
    | some a => h.plain a
  decode
    | _, none => rfl
    | site, some a => by
      have hsome : d.nullable site (write a) = (d site (write a)).map some := by
        unfold Decoder.nullable
        split
        · next heq => exact absurd heq (hnull a)
        · rfl
      rw [ofOption, hsome, h.decode]
      rfl

/-- Elements are read back one by one, whatever place each of them is told that it has. -/
theorem Inverts.mapM_zipIdx {d : Nat → Decoder α} (h : ∀ i, (d i).Inverts write) (site : Site)
    (as : List α) (k : Nat) :
    ((as.map write).zipIdx k).mapM (fun (v, i) => d i site v) = .ok as := by
  induction as generalizing k with
  | nil => rfl
  | cons a as ih =>
    simp only [List.map_cons, List.zipIdx_cons, List.mapM_cons, (h k).decode, ih]
    rfl

/-- Lists are read back if their elements are. -/
theorem Inverts.list {d : Nat → Decoder α} (h : ∀ i, (d i).Inverts write) :
    (Decoder.list d).Inverts fun as => .arr (as.map write) where
  plain as := by
    refine .arr fun v hv => ?_
    obtain ⟨a, -, rfl⟩ := List.mem_map.1 hv
    exact (h 0).plain a
  decode site as := Inverts.mapM_zipIdx h site.inside as 0

section Records

open Form (putAll)

variable {β : Type} {d : Decoder α} {name : String} {set : α → β → β} {site : Site} {a : α} {b : β}
  {xs : List (Field β × Json)}

/-- A field that is needed is put in as it was written. -/
theorem Inverts.needed (h : d.Inverts write) :
    putAll site ((.needed name d set, write a) :: xs) b = putAll site xs (set a b) :=
  Form.putAll_cons_of_ok (congrArg (Except.map (set · b)) (h.decode site a))

/-- An optional field that is written is read back like one that is needed. -/
theorem Inverts.optional (h : d.Inverts write) :
    putAll site ((.optional name d set, write a) :: xs) b = putAll site xs (set a b) :=
  Form.putAll_cons_of_ok (congrArg (Except.map (set · b)) (h.decode site a))

end Records

/-- A name that is listed stands for what it is listed with. -/
theorem variant_of_lookup {known : List (String × α)} {name : String} {a : α}
    (h : known.lookup name = some a) (site : Site) : variant known site (.str name) = .ok a := by
  obtain ⟨medium, depth⟩ := site
  cases medium <;> simp [variant, variantInText, variantInMemory, named, h]

end Json.Decoder

open Json.Decoder (Inverts)

/-! ## Identities, kinds and entities -/

/-- Ids are read back. -/
theorem Id.inverts {subject : Subject} :
    Inverts (Id.decoder : Json.Decoder (Id subject)) Id.toJson where
  plain id := .str id.text
  decode site id := by
    have hparse : Id.parse id.text = .ok id := by
      rw [Id.parse, Id.text, Uuid.parse_text]
      rfl
    simp [Id.decoder, Json.Decoder.string, Id.toJson, hparse, Except.mapError]

/-- Ids that may be missing are read back, missing ones too. -/
theorem Id.nullable_inverts {subject : Subject} :
    Inverts (Id.decoder : Json.Decoder (Id subject)).nullable (.ofOption Id.toJson) :=
  Id.inverts.nullable nofun

theorem Kind.inverts : Inverts Kind.decoder Kind.toJson where
  plain k := .str k.name
  decode site k := Json.Decoder.variant_of_lookup (by cases k <;> rfl) site

theorem Entity.inverts : Inverts Entity.decoder Entity.toJson where
  plain e := .obj (by simp [Kind.inverts.plain, Id.inverts.plain])
  decode _ e := Json.Form.decoder_membersOf (by decide) [e.kind.toJson, e.id.toJson] rfl
    (Kind.inverts.needed.trans Id.inverts.needed)

/-! ## Records of a snapshot -/

theorem User.inverts : Inverts User.decoder User.toJson where
  plain u := .obj (by simp [Id.inverts.plain, Id.nullable_inverts.plain, Json.Plain.bool])
  decode _ u := Json.Form.decoder_membersOf (by decide)
    [u.id.toJson, .ofOption Id.toJson u.institution, .bool u.isTeacher] rfl
    (Id.inverts.needed.trans
      (Id.nullable_inverts.optional.trans Json.Decoder.bool_inverts.optional))

theorem EntityRecord.inverts : Inverts EntityRecord.decoder EntityRecord.toJson where
  plain r := .obj (by
    simp [Id.inverts.plain, Kind.inverts.plain, Id.nullable_inverts.plain,
      Json.Decoder.uint32_inverts.plain])
  decode _ r := Json.Form.decoder_membersOf (by decide)
    [r.id.toJson, r.kind.toJson, .ofOption Id.toJson r.parent, .int r.awarded.toNat] rfl
    (Id.inverts.needed.trans (Kind.inverts.needed.trans
      (Id.nullable_inverts.optional.trans Json.Decoder.uint32_inverts.optional)))

/-- A record is written with one digit for each flag. -/
theorem PermissionRecord.mem_members_iff {r : PermissionRecord} {f : Flag} {v : Json} :
    (f.field, v) ∈ Flag.all.map (fun f => (f.field, digit (r.get f))) ↔ v = digit (r.get f) := by
  simp [Flag.field_injective.eq_iff, Flag.mem_all, eq_comm]

/-- The records of permissions are read back. -/
theorem PermissionRecord.inverts : Inverts PermissionRecord.decoder PermissionRecord.toJson where
  plain r := by
    refine .obj fun m hm => ?_
    obtain ⟨f, -, rfl⟩ := List.mem_map.1 hm
    cases r.get f <;> exact .int (by decide) (by decide)
  decode site r := by
    have hdigit : ∀ b, answer? (digit b) = some b := fun b => by cases b <;> rfl
    refine (decoder_eq_ok_iff fun m hm => ?_).2 ⟨fun f => ?_, fun f v hv => ?_, fun f => ?_⟩
    · obtain ⟨f, -, rfl⟩ := List.mem_map.1 hm
      rfl
    · have hnodup : (Flag.all.map Flag.field).Nodup := by decide
      rw [List.map_map]
      exact List.nodup_iff_count_le_one.1 hnodup f.field
    · rw [mem_members_iff.1 hv, hdigit]
      rfl
    · rw [mem_affirmed_iff]
      simp only [mem_given_iff, mem_members_iff, exists_eq_left, hdigit, Option.some.injEq]

/-- The records of memberships are read back; as each is written with its id, no fresh one is used.
-/
theorem MembershipRecord.inverts (fresh : MembershipId) :
    Inverts (MembershipRecord.decoder fresh) MembershipRecord.toJson where
  plain r := .obj (by
    simp [Id.inverts.plain, Id.nullable_inverts.plain, PermissionRecord.inverts.plain])
  decode _ r := by
    have hnames : ((form fresh).fields.map (·.name)).Nodup :=
      show ["id", "user_id", "entity_id", "permissions", "granted_by"].Nodup by decide
    exact Json.Form.decoder_membersOf hnames [r.id.toJson, r.user.toJson, r.entity.toJson,
      r.permissions.toJson, .ofOption Id.toJson r.grantedBy] rfl
      (Id.inverts.optional.trans (Id.inverts.needed.trans (Id.inverts.needed.trans
        (PermissionRecord.inverts.optional.trans Id.nullable_inverts.optional))))

/-! ## Snapshots and invalidations -/

/-- Snapshots are read back. -/
theorem Snapshot.inverts (fresh : Nat → MembershipId) :
    Inverts (Snapshot.decoder fresh) Snapshot.toJson where
  plain s := .obj (by
    simp [(Inverts.list fun _ => User.inverts).plain,
      (Inverts.list fun _ => EntityRecord.inverts).plain,
      (Inverts.list fun i => MembershipRecord.inverts (fresh i)).plain])
  decode _ s := by
    have hnames : ((form fresh).fields.map (·.name)).Nodup :=
      show ["users", "entities", "memberships"].Nodup by decide
    exact Json.Form.decoder_membersOf hnames
      [.arr (s.users.map User.toJson), .arr (s.entities.map EntityRecord.toJson),
        .arr (s.memberships.map MembershipRecord.toJson)] rfl
      ((Inverts.list fun _ => User.inverts).optional.trans
        ((Inverts.list fun _ => EntityRecord.inverts).optional.trans
          (Inverts.list fun i => MembershipRecord.inverts (fresh i)).optional))

/-- The type is written before the entity, so that nothing is set aside. -/
theorem Invalidation.inverts : Inverts Invalidation.decoder Invalidation.toJson where
  plain i := .obj (by simp [Entity.inverts.plain, Json.Plain.str])
  decode site i := by
    have htype : Draft.putType (.variant types) site.inside (.str typeName) {} =
        .ok { typed := true } := by
      rw [Draft.putType, Json.Decoder.variant_of_lookup rfl]
      rfl
    have hentity : Draft.putEntity site.inside i.entity.toJson { typed := true } =
        .ok { typed := true, entity := i.entity } := by
      rw [Draft.putEntity, if_pos rfl, Entity.inverts.decode]
      rfl
    have hform : form.decoder site i.toJson = .ok { typed := true, entity := i.entity } :=
      Json.Form.decoder_membersOf (by decide) [.str typeName, i.entity.toJson] rfl
        ((Json.Form.putAll_cons_of_ok htype).trans (Json.Form.putAll_cons_of_ok hentity))
    rw [decoder, hform]
    rfl

/-- Loading the bytes of a text is decoding the text. -/
theorem Snapshot.load_toUTF8 (fresh : Nat → MembershipId) (text : String) :
    load fresh text.toUTF8 = (Json.decodeText (decoder fresh) text).mapError .undecodable := by
  have hread : String.fromUTF8? text.toUTF8 = some text := by
    rw [String.fromUTF8?, String.toUTF8_eq_toByteArray, dif_pos text.isValidUTF8]
    rfl
  rw [load, hread]

/-- Every snapshot is loaded as itself from its document, in one line or over several and whichever
ids are at hand for memberships without one. So is every invalidation and every entity decoded from
the text of its document. -/
theorem documents_read_back :
    (∀ (fresh : Nat → MembershipId) (s : Snapshot),
      Snapshot.load fresh s.toJson.compact.toUTF8 = .ok s ∧
      Snapshot.load fresh s.toJson.pretty.toUTF8 = .ok s) ∧
    (∀ i : Invalidation,
      Json.decodeText Invalidation.decoder i.toJson.compact = .ok i ∧
      Json.decodeText Invalidation.decoder i.toJson.pretty = .ok i) ∧
    ∀ e : Entity,
      Json.decodeText Entity.decoder e.toJson.compact = .ok e ∧
      Json.decodeText Entity.decoder e.toJson.pretty = .ok e := by
  refine ⟨fun fresh s => ?_, fun i => ?_, fun e => ?_⟩
  · rw [Snapshot.load_toUTF8, Snapshot.load_toUTF8, (Snapshot.inverts fresh).compact,
      (Snapshot.inverts fresh).pretty]
    exact ⟨rfl, rfl⟩
  · exact ⟨Invalidation.inverts.compact i, Invalidation.inverts.pretty i⟩
  · exact ⟨Entity.inverts.compact e, Entity.inverts.pretty e⟩

end StaffRights
