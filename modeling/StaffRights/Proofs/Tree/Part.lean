import StaffRights.Proofs.Tree.Institution
import StaffRights.Proofs.Tree.Rights
import StaffRights.Tree.Guard

/-!
# Parts of a tree

A set of ids is `Closed` if no link leads out of it or into it. Whatever is asked about an id of a
closed set is answered from the entities of the set alone, so two trees that are the `SameOn` it
give the same answer.
-/

namespace StaffRights.Tree

variable {own : EntityId → Prop} {t t' : Tree} {a b id : EntityId} {e c p : Entity}

/-- No link connects an id of the set with one outside. -/
def Closed (own : EntityId → Prop) (t : Tree) : Prop :=
  ∀ ⦃id : EntityId⦄ ⦃p : Entity⦄, t.parent id = some p → (own p.id ↔ own id)

/-- Two trees tell the same of every id in the set. -/
structure SameOn (own : EntityId → Prop) (t t' : Tree) : Prop where
  entity : ∀ {id : EntityId}, own id → t'.entity id = t.entity id
  parent : ∀ {id : EntityId}, own id → t'.parent id = t.parent id
  children : ∀ {id : EntityId}, own id → t'.children id = t.children id
  staff : ∀ {id : EntityId}, own id → t'.staff id = t.staff id
  awarded : ∀ {id : EntityId}, own id → t'.awarded id = t.awarded id

namespace Closed

variable (hown : Closed own t)

include hown

/-- Of two entities above one another both are in a closed set, or neither is. -/
theorem atOrAbove_iff (hab : t.AtOrAbove a b) : own a ↔ own b := by
  induction hab with
  | refl => rfl
  | tail _ hlink ih =>
    obtain ⟨p, hp, rfl⟩ := hlink
    rw [ih, hown hp]

/-- The children of what is in the set are in it. -/
theorem child (ht : t.Linked) (hc : c ∈ t.children id) (hid : own id) : own c.id := by
  obtain ⟨-, p, hp, rfl⟩ := ht.mem_children_iff.1 hc
  exact (hown hp).1 hid

/-- The branch of what is in the set is in it. -/
theorem mem_branch_full (ht : t.Linked) (he : e ∈ t.branch id .full) (hid : own id) : own e.id := by
  obtain ⟨-, habove | hbelow⟩ := ht.mem_branch_full_iff.1 he
  · exact (hown.atOrAbove_iff habove).2 hid
  · exact (hown.atOrAbove_iff hbelow).1 hid

/-- What is below is in the set. -/
theorem mem_branch_downward (ht : t.Linked) (he : e ∈ t.branch id .downward) (hid : own id) :
    own e.id :=
  (hown.atOrAbove_iff (ht.mem_branch_downward_iff.1 he).2).1 hid

/-- What is above is in the set. -/
theorem mem_branch_upward (ht : t.Linked) (he : e ∈ t.branch id .upward) (hid : own id) :
    own e.id :=
  (hown.atOrAbove_iff (ht.mem_branch_upward_iff.1 he).2).2 hid

end Closed

/-- The branch of an entity in any direction. -/
theorem Linked.branch_eq (ht : t.Linked) (he : t.entity id = some e) {above : List Entity}
    (h : t.Ancestry id above) (reach : Reach) :
    t.branch id reach = e :: ((if reach.ancestors then above else []) ++
      if reach.descendants then (t.subtree e).tail else []) := by
  have hsubtree : t.subtree e = e :: (t.subtree e).tail := by
    obtain rfl := ht.entity_id he
    rw [ht.subtree_eq he, List.tail_cons]
  match reach with
  | ⟨true, true⟩ => exact ht.branch_full he h
  | ⟨true, false⟩ =>
    have hbranch := ht.branch_upward he h
    rw [Reach.upward] at hbranch
    simp [hbranch]
  | ⟨false, true⟩ =>
    have hbranch := ht.branch_downward he
    rw [Reach.downward] at hbranch
    simpa [hbranch] using hsubtree
  | ⟨false, false⟩ => simp [branch, he, bound, walkWithin]

namespace SameOn

/-- The staff of several entities of the set is the same. -/
theorem flatMap_staff (hs : SameOn own t t') {es : List Entity} (hes : ∀ e ∈ es, own e.id) :
    (es.flatMap fun e => t'.staff e.id) = es.flatMap fun e => t.staff e.id :=
  List.flatMap_congr fun e he => hs.staff (hes e he)

section Links

variable (hs : SameOn own t t') (hown : Closed own t)

include hs hown

/-- Chains above entities of the set are the same. -/
theorem ancestry {above : List Entity} (h : t.Ancestry id above) (hid : own id) :
    t'.Ancestry id above := by
  induction h with
  | root hp => exact .root ((hs.parent hid).trans hp)
  | link hp _ ih => exact .link ((hs.parent hid).trans hp) (ih ((hown hp).2 hid))

/-- The same is at or above an id of the set in both trees. -/
theorem atOrAbove_iff (hid : own id) : t'.AtOrAbove a id ↔ t.AtOrAbove a id :=
  atOrAbove_congr (fun _ hx => hs.parent hx) (fun _ _ hp hx => (hown hp).2 hx) hid

variable (ht : t.Linked)

include ht

/-- Descending from an entity of the set meets the same entities, step by step. -/
theorem descend (n : Nat) (e : Entity) (he : own e.id) : t'.descend n e = t.descend n e := by
  induction n generalizing e with
  | zero => rfl
  | succ n ih =>
    rw [Tree.descend, Tree.descend, hs.children he]
    congr 1
    exact List.flatMap_congr fun c hc => ih c (hown.child ht hc he)

theorem subtree (he : own e.id) : t'.subtree e = t.subtree e :=
  hs.descend hown ht _ e he

end Links

section Answers

variable (hs : SameOn own t t') (hown : Closed own t) (ht : t.Linked) (ht' : t'.Linked)
  (hid : own id)

include hs hown ht ht' hid

/-! ## Branches -/

theorem branch (reach : Reach) : t'.branch id reach = t.branch id reach := by
  have hentity := hs.entity hid
  cases he : t.entity id with
  | none => rw [Linked.branch_of_unknown t' (hentity.trans he), Linked.branch_of_unknown t he]
  | some e =>
    obtain ⟨above, h⟩ := ht.exists_ancestry id
    have heid := ht.entity_id he
    rw [ht'.branch_eq (hentity.trans he) (hs.ancestry hown h hid), ht.branch_eq he h,
      hs.subtree hown ht (heid.symm ▸ hid)]

/-- Institutions of the set are the same. -/
theorem institution? : t'.institution? id = t.institution? id := by
  rw [Tree.institution?, Tree.institution?, hs.branch hown ht ht' hid]

/-- A user has the same memberships in a branch of the set. -/
theorem staffInBranch (v : UserId) : t'.staffInBranch id v = t.staffInBranch id v := by
  rw [Tree.staffInBranch, Tree.staffInBranch, hs.branch hown ht ht' hid,
    hs.flatMap_staff fun e he => hown.mem_branch_full ht he hid]

/-! ## Rights -/

omit ht' in
/-- Rights on entities of the set are the same. -/
theorem rights (u : User) : t'.rights id u = t.rights id u := by
  have habove : ∀ x, t.AtOrAbove x id → own x := fun x hx => (hown.atOrAbove_iff hx).2 hid
  refine ht.rights_congr (fun x hx => hs.entity (habove x hx))
    (fun x hx => hs.parent (habove x hx)) fun x hx => memberOn_congr ?_
  rw [hs.staff (habove x hx)]

omit ht' in
/-- What is permitted on entities of the set is the same. -/
theorem permits (u : User) (required : Permissions) :
    t'.permits id u required = t.permits id u required := by
  rw [Tree.permits, Tree.permits, hs.entity hid, hs.rights hown ht hid]

omit ht' in
/-- What may be granted on entities of the set is the same. -/
theorem mayGrant (u : User) (requested : Permissions) :
    t'.mayGrant u id requested = t.mayGrant u id requested := by
  rw [Tree.mayGrant, Tree.mayGrant, Tree.require, Tree.require, hs.entity hid,
    hs.rights hown ht hid]

/-- Who may receive a membership on entities of the set is the same. -/
theorem mayReceive (u : User) : t'.mayReceive u id = t.mayReceive u id := by
  rw [Tree.mayReceive, Tree.mayReceive, hs.institution? hown ht ht' hid]

end Answers

end SameOn

end StaffRights.Tree
