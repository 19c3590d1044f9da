import Mathlib.Data.List.Nodup
import StaffRights.Json.Basic

/-!
# Canonical objects

The members of an object in canonical form ascend strictly by key. Where no two members of an object
give one key different values, the canonical members are the members themselves, with their values
in canonical form; so they depend on which members there are and not on their order.
-/

namespace StaffRights.Json

variable {k : String} {v : Json} {x : String × Json} {ms ns done : List (String × Json)}

/-- Each member stands before those with greater keys, and no key stands twice. -/
def Ascending (ms : List (String × Json)) : Prop := ms.Pairwise fun a b => a.1 < b.1

/-- No key has two values. -/
def SingleValued (ms : List (String × Json)) : Prop := ∀ a ∈ ms, ∀ b ∈ ms, a.1 = b.1 → a = b

/-- What has one value for each key still does with fewer members. -/
theorem SingleValued.of_cons (hms : SingleValued (x :: ms)) : SingleValued ms :=
  fun a ha b hb => hms a (List.mem_cons_of_mem x ha) b (List.mem_cons_of_mem x hb)

/-- Values that are made from what also makes the keys are single. -/
theorem singleValued_map {α : Type} {key : α → String} (hkey : Function.Injective key)
    (value : α → Json) (l : List α) : SingleValued (l.map fun a => (key a, value a)) := by
  intro x hx y hy hxy
  obtain ⟨a, -, rfl⟩ := List.mem_map.1 hx
  obtain ⟨b, -, rfl⟩ := List.mem_map.1 hy
  rw [hkey hxy]

/-- No member stands twice among ascending ones. -/
theorem Ascending.nodup (hms : Ascending ms) : ms.Nodup := by
  refine List.Pairwise.imp (fun {a b} hab => ?_) hms
  rintro rfl
  exact String.lt_irrefl a.1 hab

/-- Ascending members with the same elements are the same. -/
theorem Ascending.ext (hms : Ascending ms) (hns : Ascending ns) (hmem : ∀ x, x ∈ ms ↔ x ∈ ns) :
    ms = ns := by
  have hperm := (List.perm_ext_iff_of_nodup hms.nodup hns.nodup).2 hmem
  exact hperm.eq_of_pairwise (fun a b _ _ hab hba => absurd hba (String.lt_asymm hab)) hms hns

/-! ## Putting a member -/

/-- A put member has replaced the one with its key. -/
theorem mem_putMember_iff (hms : Ascending ms) :
    x ∈ putMember k v ms ↔ x = (k, v) ∨ x ∈ ms ∧ x.1 ≠ k := by
  induction ms with
  | nil => simp [putMember]
  | cons a ms ih =>
    obtain ⟨k', w⟩ := a
    obtain ⟨hfirst, hrest⟩ := List.pairwise_cons.1 hms
    -- what comes after the place of a key has a greater key
    have hne : k < k' ∨ k = k' → ∀ y ∈ ms, y.1 ≠ k := by
      rintro hk y hy rfl
      have hky := hfirst y hy
      rcases hk with hk | hk
      · exact String.lt_asymm hky hk
      · exact String.lt_irrefl k' (hk ▸ hky)
    rw [putMember]
    split_ifs with hlt heq
    · have hk : k' ≠ k := fun heq => String.lt_irrefl k (heq ▸ hlt)
      simp only [List.mem_cons]
      constructor
      · rintro (rfl | rfl | hx)
        · exact .inl rfl
        · exact .inr ⟨.inl rfl, hk⟩
        · exact .inr ⟨.inr hx, hne (.inl hlt) x hx⟩
      · rintro (rfl | ⟨hx, -⟩)
        · exact .inl rfl
        · exact .inr hx
    · subst heq
      simp only [List.mem_cons]
      constructor
      · rintro (rfl | hx)
        · exact .inl rfl
        · exact .inr ⟨.inr hx, hne (.inr rfl) x hx⟩
      · rintro (rfl | ⟨rfl | hx, hxk⟩)
        · exact .inl rfl
        · exact absurd rfl hxk
        · exact .inr hx
    · rw [List.mem_cons, ih hrest, List.mem_cons]
      constructor
      · rintro (rfl | rfl | ⟨hx, hxk⟩)
        · exact .inr ⟨.inl rfl, Ne.symm heq⟩
        · exact .inl rfl
        · exact .inr ⟨.inr hx, hxk⟩
      · rintro (rfl | ⟨rfl | hx, hxk⟩)
        · exact .inr (.inl rfl)
        · exact .inl rfl
        · exact .inr (.inr ⟨hx, hxk⟩)

/-- A put member keeps keys ascending. -/
theorem Ascending.putMember (hms : Ascending ms) : Ascending (putMember k v ms) := by
  induction ms with
  | nil => exact List.pairwise_singleton _ _
  | cons a ms ih =>
    obtain ⟨k', w⟩ := a
    obtain ⟨hfirst, hrest⟩ := List.pairwise_cons.1 hms
    rw [Json.putMember]
    split_ifs with hlt heq
    · refine List.pairwise_cons.2 ⟨fun y hy => ?_, hms⟩
      rcases List.mem_cons.1 hy with rfl | hy
      · exact hlt
      · exact String.lt_trans hlt (hfirst y hy)
    · subst heq
      exact List.pairwise_cons.2 ⟨hfirst, hrest⟩
    · refine List.pairwise_cons.2 ⟨fun y hy => ?_, ih hrest⟩
      rcases (mem_putMember_iff hrest).1 hy with rfl | ⟨hy, -⟩
      · exact Std.lt_of_le_of_ne (String.not_lt.1 hlt) (Ne.symm heq)
      · exact hfirst y hy

/-! ## Objects in canonical form -/

/-- Members are inserted one by one, and each time the keys stay ascending. -/
theorem Ascending.canonicalMembers (hdone : Ascending done) (ms : List (String × Json)) :
    Ascending (canonicalMembers ms done) := by
  induction ms generalizing done with
  | nil => exact hdone
  | cons a ms ih =>
    rw [Json.canonicalMembers]
    exact ih hdone.putMember

/-- The members of an object in canonical form ascend. -/
theorem ascending_canonicalMembers (ms : List (String × Json)) :
    Ascending (canonicalMembers ms []) :=
  Ascending.canonicalMembers .nil ms

/-- Members are put in place of those with their keys. -/
theorem mem_canonicalMembers_iff (hms : SingleValued ms) (hdone : Ascending done) :
    x ∈ canonicalMembers ms done ↔
      (∃ y ∈ ms, (y.1, y.2.canonical) = x) ∨ x ∈ done ∧ x.1 ∉ ms.map Prod.fst := by
  induction ms generalizing done with
  | nil => simp [canonicalMembers]
  | cons a ms ih =>
    rw [canonicalMembers, ih hms.of_cons hdone.putMember, mem_putMember_iff hdone]
    -- a later member with the key of the first is the first once more
    have hagain : a.1 ∈ ms.map Prod.fst → a ∈ ms := by
      intro ha
      obtain ⟨y, hy, hya⟩ := List.mem_map.1 ha
      rwa [hms a (List.mem_cons_self ..) y (List.mem_cons_of_mem _ hy) hya.symm]
    simp only [List.map_cons, List.mem_cons, not_or, exists_eq_or_imp]
    constructor
    · rintro (hy | ⟨rfl | ⟨hx, hxa⟩, hnot⟩)
      · exact .inl (.inr hy)
      · exact .inl (.inl rfl)
      · exact .inr ⟨hx, hxa, hnot⟩
    · rintro ((rfl | hy) | ⟨hx, hxa, hnot⟩)
      · by_cases ha : a.1 ∈ ms.map Prod.fst
        · exact .inl ⟨a, hagain ha, rfl⟩
        · exact .inr ⟨.inl rfl, ha⟩
      · exact .inl hy
      · exact .inr ⟨.inr ⟨hx, hxa⟩, hnot⟩

/-- The members in canonical form are the members, with their values in canonical form. -/
theorem mem_canonicalMembers_nil_iff (hms : SingleValued ms) :
    x ∈ canonicalMembers ms [] ↔ ∃ y ∈ ms, (y.1, y.2.canonical) = x := by
  simp [mem_canonicalMembers_iff hms .nil]

/-- Members in any order have the same canonical form. -/
theorem canonicalMembers_congr (hms : SingleValued ms) (hmem : ∀ x, x ∈ ms ↔ x ∈ ns) :
    canonicalMembers ms [] = canonicalMembers ns [] := by
  have hns : SingleValued ns := fun a ha b hb => hms a ((hmem a).2 ha) b ((hmem b).2 hb)
  refine (ascending_canonicalMembers ms).ext (ascending_canonicalMembers ns) fun x => ?_
  rw [mem_canonicalMembers_nil_iff hms, mem_canonicalMembers_nil_iff hns]
  simp only [hmem]

/-! ## Finding a member -/

/-- A member is found just if it is there, where each key has one value. -/
theorem lookup_eq_some_iff (hms : SingleValued ms) : ms.lookup k = some v ↔ (k, v) ∈ ms := by
  induction ms with
  | nil => simp
  | cons a ms ih =>
    rw [List.lookup_cons, List.mem_cons]
    split
    · next hk =>
      obtain rfl : k = a.1 := by simpa using hk
      constructor
      · rintro ⟨⟩
        exact .inl rfl
      · intro hmem
        rw [← hms (a.1, v) (List.mem_cons.2 hmem) a (List.mem_cons_self ..) rfl]
    · next hk =>
      rw [ih hms.of_cons]
      refine ⟨.inr, ?_⟩
      rintro (rfl | hmem)
      · simp at hk
      · exact hmem

/-- A member of an object is found in its canonical form, with its value in canonical form. -/
theorem member?_canonical (hms : SingleValued ms) (hmem : (k, v) ∈ ms) :
    (canonical (.obj ms)).member? k = some v.canonical := by
  have hsingle : SingleValued (canonicalMembers ms []) := by
    intro a ha b hb hab
    obtain ⟨x, hx, rfl⟩ := (mem_canonicalMembers_nil_iff hms).1 ha
    obtain ⟨y, hy, rfl⟩ := (mem_canonicalMembers_nil_iff hms).1 hb
    rw [hms x hx y hy hab]
  rw [canonical, member?, lookup_eq_some_iff hsingle]
  exact (mem_canonicalMembers_nil_iff hms).2 ⟨_, hmem, rfl⟩

end StaffRights.Json
