import StaffRights.Proofs.Tree.Part

/-!
# Recursion without a bound

Rights are resolved, and branches followed, by recursions that nothing but the tree brings to an
end. `Resolves` and `Walks` are these recursions, one rule for each way a call can go, with a count
of the calls that are nested into one another; in a tree that goes round in a circle they come to
nothing. In any tree, a recursion through at most `n` nested steps comes to what the unbounded one
comes to with `n` nested calls, and to nothing else. Where links agree, the kind of an entity says
how deep the calls nest.

Reference: `SPEC_FULL.md` 4.1 (resolving ends within four steps).
-/

namespace StaffRights

/-- What a walk comes to. -/
structure Walked where
  /-- The nested calls on the way upward, the first one included. -/
  up : Nat
  /-- The nested calls on the way downward, the first one included. -/
  down : Nat
  listed : List Entity

namespace Walked

/-- The deepest of several walks upward. -/
def highest (ws : List Walked) : Nat := (ws.map (·.up)).foldr max 0

/-- The deepest of several walks downward. -/
def deepest (ws : List Walked) : Nat := (ws.map (·.down)).foldr max 0

/-- What several walks list, one after the other. -/
def all (ws : List Walked) : List Entity := ws.flatMap (·.listed)

/-- A walk that goes nowhere. -/
def alone (e : Entity) : Walked := ⟨1, 1, [e]⟩

private theorem foldr_max_le_iff {n : Nat} {ns : List Nat} :
    ns.foldr max 0 ≤ n ↔ ∀ k ∈ ns, k ≤ n := by
  induction ns with
  | nil => simp
  | cons k ns ih => rw [List.foldr_cons, Nat.max_le, ih, List.forall_mem_cons]

/-- The highest of several walks is bounded just if each of them is. -/
theorem highest_le_iff {n : Nat} {ws : List Walked} : highest ws ≤ n ↔ ∀ w ∈ ws, w.up ≤ n := by
  rw [highest, foldr_max_le_iff, List.forall_mem_map]

/-- The deepest of several walks is bounded just if each of them is. -/
theorem deepest_le_iff {n : Nat} {ws : List Walked} : deepest ws ≤ n ↔ ∀ w ∈ ws, w.down ≤ n := by
  rw [deepest, foldr_max_le_iff, List.forall_mem_map]

end Walked

namespace Tree

variable {t : Tree} {id : EntityId} {e : Entity} {above : List Entity} {reach : Reach} {n : Nat}
  {u : User}

/-- Resolving the rights on an entity takes a number of nested calls and comes to some rights. -/
inductive Resolves (t : Tree) (u : User) : EntityId → Nat → Permissions → Prop
  | root {id : EntityId} : t.parent id = none →
      t.Resolves u id 1 (t.localRights id u.id ∪ t.homeRights id u)
  | link {id : EntityId} {p : Entity} {calls : Nat} {above : Permissions} :
      t.parent id = some p → t.Resolves u p.id calls above →
      t.Resolves u id (calls + 1) (t.localRights id u.id ∪ above)

/-- Where a walk goes on above an entity. -/
def stepsUp (t : Tree) (e : Entity) (reach : Reach) : List Entity :=
  if reach.ancestors then (t.parent e.id).toList else []

/-- Where a walk goes on below an entity. -/
def stepsDown (t : Tree) (e : Entity) (reach : Reach) : List Entity :=
  if reach.descendants then t.children e.id else []

/-- Following a branch comes to a result: the entity, then those above it, then those below it in
depth-first order. -/
inductive Walks (t : Tree) : Entity → Reach → Walked → Prop
  | call {e : Entity} {reach : Reach} {above below : List Walked} :
      List.Forall₂ (fun p w => t.Walks p .upward w) (t.stepsUp e reach) above →
      List.Forall₂ (fun c w => t.Walks c .downward w) (t.stepsDown e reach) below →
      t.Walks e reach ⟨Walked.highest above + 1, Walked.deepest below + 1,
        e :: (Walked.all above ++ Walked.all below)⟩

/-- At the upper end of a chain rights are resolved in one call. -/
theorem resolves_of_root {calls : Nat} {r : Permissions} (hp : t.parent id = none) :
    t.Resolves u id calls r ↔ calls = 1 ∧ r = t.localRights id u.id ∪ t.homeRights id u := by
  constructor
  · rintro (_ | ⟨hp', -⟩)
    · exact ⟨rfl, rfl⟩
    · rw [hp] at hp'
      cases hp'
  · rintro ⟨rfl, rfl⟩
    exact .root hp

/-- Below a parent rights are resolved in one call more than on the parent. -/
theorem resolves_of_parent {p : Entity} {calls : Nat} {r : Permissions}
    (hp : t.parent id = some p) :
    t.Resolves u id calls r ↔
      ∃ calls' r', t.Resolves u p.id calls' r' ∧ calls = calls' + 1 ∧
        r = t.localRights id u.id ∪ r' := by
  constructor
  · rintro (hp' | ⟨hp', h⟩)
    · rw [hp] at hp'
      cases hp'
    · rw [hp, Option.some.injEq] at hp'
      subst hp'
      exact ⟨_, _, h, rfl, rfl⟩
  · rintro ⟨calls', r', h, rfl, rfl⟩
    exact .link hp h

/-- A walk from an entity is one call on it, and walks from the entities next to it. -/
theorem walks_iff {w : Walked} :
    t.Walks e reach w ↔ ∃ above below,
      List.Forall₂ (fun p w => t.Walks p .upward w) (t.stepsUp e reach) above ∧
      List.Forall₂ (fun c w => t.Walks c .downward w) (t.stepsDown e reach) below ∧
      w = ⟨Walked.highest above + 1, Walked.deepest below + 1,
        e :: (Walked.all above ++ Walked.all below)⟩ := by
  constructor
  · rintro ⟨habove, hbelow⟩
    exact ⟨_, _, habove, hbelow, rfl⟩
  · rintro ⟨above, below, habove, hbelow, rfl⟩
    exact .call habove hbelow

/-! ## Bounded and unbounded -/

/-- Within `n` steps rights are resolved just if the calls nest no deeper than that. -/
theorem rightsWithin_eq_some_iff {r : Permissions} :
    t.rightsWithin n id u = some r ↔ ∃ calls ≤ n, t.Resolves u id calls r := by
  induction n generalizing id r with
  | zero =>
    refine iff_of_false nofun ?_
    rintro ⟨calls, hcalls, _ | _⟩ <;> omega
  | succ n ih =>
    rw [rightsWithin]
    cases hp : t.parent id with
    | none => simp [resolves_of_root hp, eq_comm (a := r)]
    | some p =>
      simp only [Option.map_eq_some_iff, ih, resolves_of_parent hp]
      constructor
      · rintro ⟨r', ⟨calls, hcalls, h⟩, rfl⟩
        exact ⟨calls + 1, Nat.succ_le_succ hcalls, calls, r', h, rfl, rfl⟩
      · rintro ⟨-, hcalls, calls, r', h, rfl, rfl⟩
        exact ⟨r', ⟨calls, Nat.le_of_succ_le_succ hcalls, h⟩, rfl⟩

/-- A bounded walk lists the entity, what it finds above and what it finds below. -/
theorem walkWithin_succ_eq_some_iff {l : List Entity} :
    t.walkWithin (n + 1) e reach = some l ↔ ∃ above below,
      (t.stepsUp e reach).mapM (fun p => t.walkWithin n p .upward) = some above ∧
      (t.stepsDown e reach).mapM (fun c => t.walkWithin n c .downward) = some below ∧
      l = e :: (above.flatten ++ below.flatten) := by
  rw [walkWithin]
  rcases reach with ⟨_ | _, _ | _⟩ <;> cases hp : t.parent e.id <;>
    simp [stepsUp, stepsDown, hp, Option.bind_eq_some_iff, eq_comm (a := l)]

/-- A walk is at least one call deep in either direction. -/
theorem walks_pos {w : Walked} (hw : t.Walks e reach w) : 1 ≤ w.up ∧ 1 ≤ w.down := by
  cases hw
  exact ⟨Nat.succ_pos _, Nat.succ_pos _⟩

/-- A walk upward makes no steps down. -/
theorem walks_upward_down {w : Walked} (hw : t.Walks e .upward w) : w.down = 1 := by
  obtain ⟨above, below, -, hbelow, rfl⟩ := walks_iff.1 hw
  obtain rfl : below = [] := by simpa [stepsDown, Reach.upward] using hbelow
  rfl

/-- A walk downward makes no steps up. -/
theorem walks_downward_up {w : Walked} (hw : t.Walks e .downward w) : w.up = 1 := by
  obtain ⟨above, below, habove, -, rfl⟩ := walks_iff.1 hw
  obtain rfl : above = [] := by simpa [stepsUp, Reach.downward] using habove
  rfl

/-- A list is visited by a function as it is by a relation if each of its elements is. -/
private theorem mapM_eq_some_iff_forall₂ {α β γ : Type} {f : α → Option β} {R : α → γ → Prop}
    {ok : γ → Prop} {out : γ → β} {l : List α} (bs : List β)
    (h : ∀ a b, f a = some b ↔ ∃ c, R a c ∧ ok c ∧ out c = b) :
    l.mapM f = some bs ↔ ∃ cs, List.Forall₂ R l cs ∧ (∀ c ∈ cs, ok c) ∧ cs.map out = bs := by
  induction l generalizing bs with
  | nil => simp
  | cons a l ih =>
    simp only [List.mapM_cons, Option.bind_eq_bind, Option.bind_eq_some_iff, Option.pure_def,
      Option.some.injEq, h, ih, List.forall₂_cons_left_iff]
    constructor
    · rintro ⟨-, ⟨c, hc, hok, rfl⟩, -, ⟨cs, hcs, hoks, rfl⟩, rfl⟩
      exact ⟨c :: cs, ⟨c, cs, hc, hcs, rfl⟩, List.forall_mem_cons.2 ⟨hok, hoks⟩, rfl⟩
    · rintro ⟨-, ⟨c, cs, hc, hcs, rfl⟩, hoks, rfl⟩
      obtain ⟨hok, hoks⟩ := List.forall_mem_cons.1 hoks
      exact ⟨_, ⟨c, hc, hok, rfl⟩, _, ⟨cs, hcs, hoks, rfl⟩, rfl⟩

/-- Within `n` steps a branch is followed just if the calls nest no deeper than that. -/
theorem walkWithin_eq_some_iff {l : List Entity} :
    t.walkWithin n e reach = some l ↔
      ∃ w, t.Walks e reach w ∧ (w.up ≤ n ∧ w.down ≤ n) ∧ w.listed = l := by
  induction n generalizing e reach l with
  | zero =>
    refine iff_of_false nofun ?_
    rintro ⟨w, hw, hle, -⟩
    have := walks_pos hw
    omega
  | succ n ih =>
    -- a walk upward nests downward no further than its first call, and the other way round
    have habove : ∀ above,
        (t.stepsUp e reach).mapM (fun p => t.walkWithin n p .upward) = some above ↔
        ∃ ws, List.Forall₂ (fun p w => t.Walks p .upward w) (t.stepsUp e reach) ws ∧
          (∀ w ∈ ws, w.up ≤ n) ∧ ws.map (·.listed) = above := by
      refine fun above => mapM_eq_some_iff_forall₂ above fun p l => ih.trans ?_
      refine exists_congr fun w => and_congr_right fun hw => and_congr_left fun _ => ?_
      have := walks_upward_down hw
      have := walks_pos hw
      omega
    have hbelow : ∀ below,
        (t.stepsDown e reach).mapM (fun c => t.walkWithin n c .downward) = some below ↔
        ∃ ws, List.Forall₂ (fun c w => t.Walks c .downward w) (t.stepsDown e reach) ws ∧
          (∀ w ∈ ws, w.down ≤ n) ∧ ws.map (·.listed) = below := by
      refine fun below => mapM_eq_some_iff_forall₂ below fun c l => ih.trans ?_
      refine exists_congr fun w => and_congr_right fun hw => and_congr_left fun _ => ?_
      have := walks_downward_up hw
      have := walks_pos hw
      omega
    simp only [walkWithin_succ_eq_some_iff, habove, hbelow, ← Walked.highest_le_iff,
      ← Walked.deepest_le_iff]
    constructor
    · rintro ⟨-, -, ⟨as, has, hup, rfl⟩, ⟨bs, hbs, hdown, rfl⟩, rfl⟩
      exact ⟨_, .call has hbs, ⟨Nat.succ_le_succ hup, Nat.succ_le_succ hdown⟩, rfl⟩
    · rintro ⟨-, ⟨has, hbs⟩, ⟨hup, hdown⟩, rfl⟩
      exact ⟨_, _, ⟨_, has, Nat.le_of_succ_le_succ hup, rfl⟩,
        ⟨_, hbs, Nat.le_of_succ_le_succ hdown, rfl⟩, rfl⟩

/-! ## Levels -/

/-- On a chain that ends, each link is one nested call. -/
theorem Ancestry.resolves_iff {calls : Nat} {r : Permissions} (h : t.Ancestry id above) :
    t.Resolves u id calls r ↔ calls = above.length + 1 ∧ r = t.rights id u := by
  induction h generalizing calls r with
  | root hp => rw [resolves_of_root hp, rights_of_root hp, List.length_nil]
  | link hp h ih =>
    simp only [resolves_of_parent hp, rights_of_parent hp h, ih, List.length_cons]
    constructor
    · rintro ⟨-, -, ⟨rfl, rfl⟩, rfl, rfl⟩
      exact ⟨rfl, rfl⟩
    · rintro ⟨rfl, rfl⟩
      exact ⟨_, _, ⟨rfl, rfl⟩, rfl, rfl⟩

/-- A list is related to one list only, if each of its elements is to one thing only. -/
private theorem forall₂_iff_eq_map {α β : Type} {R : α → β → Prop} {f : α → β} {l : List α}
    {bs : List β} (h : ∀ a ∈ l, ∀ b, R a b ↔ b = f a) :
    List.Forall₂ R l bs ↔ bs = l.map f := by
  induction l generalizing bs with
  | nil => simp
  | cons a l ih =>
    have ha := h a (List.mem_cons_self ..)
    have hl : ∀ bs, List.Forall₂ R l bs ↔ bs = l.map f :=
      fun bs => ih fun b hb => h b (List.mem_cons_of_mem _ hb)
    simp [List.forall₂_cons_left_iff, ha, hl]

/-- What a walk comes to, if it is known what the walks come to on which it goes on. -/
theorem walks_iff_of_steps {ps cs : List Entity} {w : Walked} (f g : Entity → Walked)
    (hps : t.stepsUp e reach = ps) (hcs : t.stepsDown e reach = cs)
    (hf : ∀ p ∈ ps, ∀ w, t.Walks p .upward w ↔ w = f p)
    (hg : ∀ c ∈ cs, ∀ w, t.Walks c .downward w ↔ w = g c) :
    t.Walks e reach w ↔ w = ⟨Walked.highest (ps.map f) + 1, Walked.deepest (cs.map g) + 1,
      e :: (Walked.all (ps.map f) ++ Walked.all (cs.map g))⟩ := by
  rw [walks_iff, hps, hcs]
  simp only [forall₂_iff_eq_map hf, forall₂_iff_eq_map hg, exists_and_left, exists_eq_left]

/-- A walk that goes nowhere is one call. -/
theorem walks_here_iff {w : Walked} : t.Walks e .here w ↔ w = ⟨1, 1, [e]⟩ :=
  walks_iff_of_steps .alone .alone rfl rfl (List.forall_mem_nil _) (List.forall_mem_nil _)

/-- Above its entity a walk goes as if it went nowhere else, and so it does below. -/
theorem walks_iff_both {w : Walked} :
    t.Walks e reach w ↔ ∃ a b, t.Walks e ⟨reach.ancestors, false⟩ a ∧
      t.Walks e ⟨false, reach.descendants⟩ b ∧
      w = ⟨a.up, b.down, e :: (a.listed.tail ++ b.listed.tail)⟩ := by
  constructor
  · rintro ⟨has, hbs⟩
    exact ⟨_, _, .call has .nil, .call .nil hbs, by simp [Walked.all]⟩
  · rintro ⟨-, -, ⟨has, hnil⟩, ⟨hnil', hbs⟩, rfl⟩
    cases hnil
    cases hnil'
    exact walks_iff.2 ⟨_, _, has, hbs, by simp [Walked.all]⟩

/-- On a chain that ends, each link is one nested call. -/
theorem Ancestry.walks_upward_iff {w : Walked} (h : t.Ancestry e.id above) :
    t.Walks e .upward w ↔ w = ⟨above.length + 1, 1, e :: above⟩ := by
  generalize hid : e.id = id at h
  induction h generalizing e w with
  | root hp =>
    have hup : t.stepsUp e .upward = [] := by simp [stepsUp, Reach.upward, hid, hp]
    exact walks_iff_of_steps .alone .alone hup rfl (List.forall_mem_nil _) (List.forall_mem_nil _)
  | @link _ p above hp _ ih =>
    have hup : t.stepsUp e .upward = [p] := by simp [stepsUp, Reach.upward, hid, hp]
    have hdown : t.stepsDown e .upward = [] := rfl
    rw [walks_iff_of_steps (fun _ => ⟨above.length + 1, 1, p :: above⟩) .alone hup hdown
      (List.forall_mem_singleton.2 fun w => ih rfl) (List.forall_mem_nil _)]
    simp [Walked.highest, Walked.deepest, Walked.all]

namespace Linked

/-- Rights on an entity take a call for each level from the top, rights on an unknown id one. -/
theorem resolves_iff (ht : t.Linked) {k : Nat} {r : Permissions} :
    t.Resolves u id k r ↔
      k = ((t.entity id).map (·.kind.depth)).getD 0 + 1 ∧ r = t.rights id u := by
  cases he : t.entity id with
  | none => exact (Ancestry.root (ht.parent_eq_none_of_unknown he)).resolves_iff
  | some e =>
    obtain ⟨above, h, hlen⟩ := ht.exists_ancestry_of_entity he
    rw [h.resolves_iff, hlen]
    rfl

/-- A walk downward nests at most a call for each level down to the last. -/
theorem walks_downward_iff (ht : t.Linked) (he : t.entity e.id = some e) :
    ∃ down ≤ 4 - e.kind.depth, ∀ w, t.Walks e .downward w ↔ w = ⟨1, down, t.subtree e⟩ := by
  refine ht.induction_downward (P := fun e => ∃ down ≤ 4 - e.kind.depth,
    ∀ w, t.Walks e .downward w ↔ w = ⟨1, down, t.subtree e⟩) ?_ e he
  intro e he ih
  choose! down hdown hwalk using ih
  have hlevel := e.kind.depth_le_three
  let g : Entity → Walked := fun c => ⟨1, down c, t.subtree c⟩
  have hdeepest : Walked.deepest ((t.children e.id).map g) ≤ 3 - e.kind.depth := by
    refine Walked.deepest_le_iff.2 (List.forall_mem_map.2 fun c hc => ?_)
    have hdepth := ht.depth_child he hc
    exact Nat.le_trans (hdown c hc) (by omega)
  have hlisted : t.subtree e = e :: Walked.all ((t.children e.id).map g) := by
    rw [ht.subtree_eq he, Walked.all, List.flatMap_map]
  refine ⟨Walked.deepest ((t.children e.id).map g) + 1, by omega, fun w => ?_⟩
  have hsteps : t.stepsDown e .downward = t.children e.id := rfl
  rw [walks_iff_of_steps .alone g rfl hsteps (List.forall_mem_nil _) hwalk, hlisted]
  rfl

/-- A walk lists the branch of its entity. Upward it nests a call for each level from the top,
downward at most one for each level down to the last. -/
theorem walks_iff (ht : t.Linked) (he : t.entity e.id = some e) (reach : Reach) :
    ∃ down ≤ (if reach.descendants then 4 - e.kind.depth else 1), ∀ w, t.Walks e reach w ↔
      w = ⟨if reach.ancestors then e.kind.depth + 1 else 1, down, t.branch e.id reach⟩ := by
  obtain ⟨above, h, hlen⟩ := ht.exists_ancestry_of_entity he
  obtain ⟨down, hdown, hdownward⟩ := ht.walks_downward_iff he
  refine ⟨if reach.descendants then down else 1, ?_, fun w => ?_⟩
  · cases reach.descendants
    · exact Nat.le_refl 1
    · exact hdown
  · have hup : ∀ w, t.Walks e ⟨reach.ancestors, false⟩ w ↔ w =
        ⟨if reach.ancestors then e.kind.depth + 1 else 1, 1,
          e :: if reach.ancestors then above else []⟩ := by
      intro w
      cases reach.ancestors
      · exact walks_here_iff
      · exact hlen ▸ h.walks_upward_iff
    have hdown : ∀ w, t.Walks e ⟨false, reach.descendants⟩ w ↔ w =
        ⟨1, if reach.descendants then down else 1,
          e :: if reach.descendants then (t.subtree e).tail else []⟩ := by
      intro w
      cases reach.descendants
      · exact walks_here_iff
      · have hsubtree := ht.subtree_eq he
        rw [hsubtree] at hdownward ⊢
        exact hdownward w
    rw [walks_iff_both, ht.branch_eq he h]
    simp only [hup, hdown, exists_and_left, exists_eq_left, List.tail_cons]

end Linked

end Tree

end StaffRights
