import StaffRights.Tree.Basic

/-!
# Listed trees

A tree given by a list of what is known about each entity. The list need not be consistent: links
may lead to entities that are not listed or do not link back, and an entity may be hidden, so that
it is linked but cannot be resolved.
-/

namespace StaffRights

/-- What is known about one entity. -/
structure Listed where
  entity : Entity
  parent : Option Entity := none
  children : List Entity := []
  staff : List Membership := []
  awarded : Bool := false
  /-- A hidden entity cannot be resolved. -/
  hidden : Bool := false
  deriving DecidableEq, Repr

namespace Listed

/-- The first entry about an entity. -/
def find? (entries : List Listed) (id : EntityId) : Option Listed :=
  entries.find? (·.entity.id == id)

/-- What is not listed is not found. -/
theorem find?_eq_none {entries : List Listed} {id : EntityId}
    (h : id ∉ entries.map (·.entity.id)) : find? entries id = none := by
  simp only [find?, List.find?_eq_none, beq_iff_eq]
  intro e he heq
  exact h (List.mem_map.2 ⟨e, he, heq⟩)

end Listed

/-- The tree that a list describes. -/
def Tree.ofList (entries : List Listed) : Tree where
  ids := entries.map (·.entity.id)
  entity id := ((Listed.find? entries id).filter (!·.hidden)).map (·.entity)
  parent id := (Listed.find? entries id).bind (·.parent)
  children id := ((Listed.find? entries id).map (·.children)).getD []
  staff id := ((Listed.find? entries id).map (·.staff)).getD []
  heldBy user := (entries.flatMap (·.staff)).filter (·.user == user)
  awarded id := (Listed.find? entries id).any (·.awarded)
  parent_eq_none id h := by simp [Listed.find?_eq_none h]
  children_eq_nil id h := by simp [Listed.find?_eq_none h]

end StaffRights
