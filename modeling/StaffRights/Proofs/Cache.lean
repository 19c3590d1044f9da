import StaffRights.Cache
import StaffRights.Proofs.Hierarchy.Staleness

/-!
# Faithful caches

A cache is faithful to a hierarchy if every entry is about an existing entity and holds what
resolving the rights again would give. The key of an entry determines the whole user, so there is
one user for whom that is to be checked. What forgetting leaves of a faithful cache is faithful to
the hierarchy after the change.
-/

namespace StaffRights

variable {h h' : Hierarchy} {stale : Stale} {e : EntityId} {u : User}

namespace CacheKey

/-- The user whose rights are remembered under the key. -/
def holder (key : CacheKey) : User := ⟨key.user, key.institution, key.isTeacher⟩

end CacheKey

namespace Cache

variable {c : Cache} {p : Permissions}

/-- Every entry is about an entity of `h` and holds the rights that `h` gives. -/
def Faithful (c : Cache) (h : Hierarchy) : Prop :=
  ∀ ⦃key : CacheKey⦄ ⦃p : Permissions⦄, c.entries[key]? = some p →
    (h.tree.entity key.entity).isSome ∧ p = h.tree.rights key.entity key.holder

/-- An empty cache remembers nothing wrong. -/
theorem faithful_empty (enabled : Bool) : Faithful { enabled := enabled } h := by
  intro key p hp
  simp at hp

/-- Remembered rights are the resolved rights. -/
theorem Faithful.eq_rights (hf : c.Faithful h) (hp : c.get? e u = some p) :
    p = h.tree.rights e u :=
  (hf hp).2

/-- Remembering what was resolved keeps a cache faithful. -/
theorem Faithful.insert (hf : c.Faithful h) (he : (h.tree.entity e).isSome) :
    (c.insert e u (h.tree.rights e u)).Faithful h := by
  rw [Cache.insert]
  split
  · intro key p hp
    rw [Std.ExtTreeMap.getElem?_insert] at hp
    split at hp
    · next hkey =>
      obtain rfl : CacheKey.ofUser e u = key := Std.LawfulEqOrd.eq_of_compare hkey
      rw [Option.some.injEq] at hp
      exact ⟨he, hp.symm⟩
    · exact hf hp
  · exact hf

/-- What was forgotten covers what a change altered: the entries that are left are faithful to the
hierarchy after it. -/
theorem Faithful.forget (hf : c.Faithful h) (hc : h.Consistent) (he : h.Effect stale h') :
    (c.forget stale).Faithful h' := by
  have hspared : ∀ {key : CacheKey} {p : Permissions}, c.entries[key]? = some p →
      stale.Spares key.user →
      (h'.tree.entity key.entity).isSome ∧ p = h'.tree.rights key.entity key.holder := by
    intro key p hp hkey
    obtain ⟨hentity, hrights⟩ := hc.rights_of_spares (u := key.holder) he hkey key.entity
    rw [hentity, hrights]
    exact hf hp
  intro key p hp
  cases stale with
  | nobody => exact hspared hp trivial
  | user v =>
    simp only [Cache.forget, forgetUser, Std.ExtTreeMap.getElem?_filter'] at hp
    obtain ⟨hp, hkey⟩ := Option.filter_eq_some_iff.1 hp
    exact hspared hp (by simpa [Stale.Spares] using hkey)
  | everyone => simp [Cache.forget, clear] at hp

end Cache

end StaffRights
