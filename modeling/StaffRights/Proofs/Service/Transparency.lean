import StaffRights.Proofs.Service.Steps

/-!
# The cache is invisible

A service that starts with an empty cache keeps it faithful to the committed hierarchy, since what a
transaction reports stale covers what it altered. With faithful caches, two services on the same
hierarchy give the same answers and make the same changes, so it makes no difference whether rights
are remembered at all.

Reference: `SPEC_FULL.md` 10.8 (memoised permissions).
-/

namespace StaffRights.Service

variable {s s' : Service}

/-! ## One call -/

/-- Every call leaves a reachable hierarchy. -/
theorem reachable_step (hr : s.hierarchy.Reachable) (c : Call) :
    (s.step c).2.hierarchy.Reachable := by
  rcases c.changes_or_reads with ⟨α, f, attempt, hstep, hmeets⟩ | ⟨answer, hstep⟩
  · rw [hstep s, reply]
    rcases transact_of_meets (hmeets _ hr.consistent) with ⟨r, htr⟩ | ⟨o, after, ⟨-, d, hd⟩, htr⟩
    · rw [htr]
      exact hr
    · rw [htr, hd]
      exact hr.changed d
  · obtain ⟨hh, -, -⟩ := hstep s
    rw [hh]
    exact hr

/-- Every call keeps a faithful cache faithful, to the hierarchy that it leaves. -/
theorem faithful_step (hr : s.hierarchy.Reachable) (hf : s.cache.Faithful s.hierarchy) (c : Call) :
    (s.step c).2.cache.Faithful (s.step c).2.hierarchy := by
  rcases c.changes_or_reads with ⟨α, f, attempt, hstep, hmeets⟩ | ⟨answer, hstep⟩
  · rw [hstep s, reply]
    rcases transact_of_meets (hmeets _ hr.consistent) with ⟨r, htr⟩ | ⟨o, after, ⟨he, -⟩, htr⟩
    · rw [htr]
      exact hf
    · -- what is reported stale covers the effect
      rw [htr]
      exact hf.forget hr.consistent he
  · obtain ⟨hh, -, hanswer⟩ := hstep s
    rw [hh]
    exact (hanswer hf).2

/-- With faithful caches, a call is answered and carried out alike on the same hierarchy. -/
theorem step_congr (hh : s'.hierarchy = s.hierarchy) (hs : s'.sink = s.sink)
    (hf : s.cache.Faithful s.hierarchy) (hf' : s'.cache.Faithful s'.hierarchy) (c : Call) :
    (s'.step c).1 = (s.step c).1 ∧ (s'.step c).2.hierarchy = (s.step c).2.hierarchy ∧
      (s'.step c).2.sink = (s.step c).2.sink := by
  rcases c.changes_or_reads with ⟨α, f, attempt, hstep, -⟩ | ⟨answer, hstep⟩
  · obtain ⟨hanswer, hafter, hsink⟩ := transact_congr attempt hh hs
    rw [hstep s, hstep s', reply, reply, hanswer]
    exact ⟨rfl, hafter, hsink⟩
  · obtain ⟨hh₁, hs₁, hanswer₁⟩ := hstep s
    obtain ⟨hh₂, hs₂, hanswer₂⟩ := hstep s'
    rw [(hanswer₁ hf).1, (hanswer₂ hf').1, hh₁, hh₂, hs₁, hs₂, hh]
    exact ⟨rfl, rfl, hs⟩

/-! ## Runs -/

/-- After a run the hierarchy is reachable, if it was before. -/
theorem reachable_run (hr : s.hierarchy.Reachable) (calls : List Call) :
    (s.run calls).2.hierarchy.Reachable := by
  induction calls generalizing s with
  | nil => exact hr
  | cons c cs ih => exact ih (reachable_step hr c)

/-- After a run the cache is faithful, if it was before. -/
theorem faithful_run (hr : s.hierarchy.Reachable) (hf : s.cache.Faithful s.hierarchy)
    (calls : List Call) : (s.run calls).2.cache.Faithful (s.run calls).2.hierarchy := by
  induction calls generalizing s with
  | nil => exact hf
  | cons c cs ih => exact ih (reachable_step hr c) (faithful_step hr hf c)

/-- With faithful caches, runs of the same calls on the same hierarchy are alike. -/
theorem run_congr (hr : s.hierarchy.Reachable) (hh : s'.hierarchy = s.hierarchy)
    (hs : s'.sink = s.sink) (hf : s.cache.Faithful s.hierarchy)
    (hf' : s'.cache.Faithful s'.hierarchy) (calls : List Call) :
    (s'.run calls).1 = (s.run calls).1 ∧
      (s'.run calls).2.hierarchy = (s.run calls).2.hierarchy ∧
      (s'.run calls).2.sink = (s.run calls).2.sink := by
  induction calls generalizing s s' with
  | nil => exact ⟨rfl, hh, hs⟩
  | cons c cs ih =>
    have hr' : s'.hierarchy.Reachable := hh ▸ hr
    obtain ⟨hanswer, hafter, hsink⟩ := step_congr hh hs hf hf' c
    obtain ⟨hrest, hend⟩ := ih (reachable_step hr c) hafter hsink (faithful_step hr hf c)
      (faithful_step hr' hf' c)
    refine ⟨?_, hend⟩
    rw [run, run, hanswer, hrest]

/-- After any run of a service that started on a reachable hierarchy, every cache entry is about a
committed entity and holds its resolved rights; rights are answered as they are resolved; and the
same run without a cache gives the same answers, the same hierarchy and the same deliveries. -/
theorem cache_invisible {h : Hierarchy} (hr : h.Reachable) (settings : Settings) (sink : Sink)
    (calls : List Call) :
    let cached := (start h settings sink).run calls
    let plain := (start h { settings with permissionCache := false } sink).run calls
    cached.2.cache.Faithful cached.2.hierarchy ∧
      (∀ u e required,
        (cached.2.rights u e).1 = cached.2.hierarchy.tree.rights e u ∧
          (cached.2.permits u e required).1 = cached.2.hierarchy.tree.permits e u required) ∧
      cached.1 = plain.1 ∧ cached.2.hierarchy = plain.2.hierarchy ∧
      cached.2.sink = plain.2.sink := by
  intro cached plain
  have hstart : ∀ settings : Settings,
      (start h settings sink).cache.Faithful (start h settings sink).hierarchy :=
    fun settings => Cache.faithful_empty _
  have hreachable : ∀ settings : Settings, (start h settings sink).hierarchy.Reachable :=
    fun _ => hr
  have hf : cached.2.cache.Faithful cached.2.hierarchy :=
    faithful_run (hreachable settings) (hstart settings) calls
  refine ⟨hf, fun u e required => ⟨?_, ?_⟩, ?_⟩
  · exact ((cached.2.rights_spec u e).2.2 hf).1
  · exact ((cached.2.permits_spec u e required).2.2 hf).1
  · refine run_congr (hreachable { settings with permissionCache := false }) ?_ ?_
      (hstart { settings with permissionCache := false }) (hstart settings) calls
    · rfl
    · rfl

/-- Rights on a faculty are remembered, forgotten with a change of the membership, and remembered
again. -/
theorem cache_invisible_of_regrant :
    let h := (∅ : Hierarchy).run [.insertEntity ⟨.institution, .ofNat 1⟩ none,
      .insertEntity ⟨.faculty, .ofNat 2⟩ (some (.ofNat 1)),
      .insertMembership ⟨.ofNat 3, .ofNat 4, ⟨.institution, .ofNat 1⟩, .full, none⟩]
    let actor : User := .teacher (.ofNat 4) (.ofNat 1)
    let calls : List Call := [.rights actor (.ofNat 2),
      .regrant actor .institution (.ofNat 3) (.single .read), .rights actor (.ofNat 2)]
    let cached := (start h {} (.record [])).run calls
    let plain := (start h { ({} : Settings) with permissionCache := false } (.record [])).run calls
    (h.Reachable ∧ cached.1.length = 3 ∧ cached.2.cache.size = 1) ∧
      cached.2.cache.Faithful cached.2.hierarchy ∧
      (∀ u e required,
        (cached.2.rights u e).1 = cached.2.hierarchy.tree.rights e u ∧
          (cached.2.permits u e required).1 = cached.2.hierarchy.tree.permits e u required) ∧
      cached.1 = plain.1 ∧ cached.2.hierarchy = plain.2.hierarchy ∧
      cached.2.sink = plain.2.sink :=
  ⟨⟨.run .empty _, rfl, by decide +kernel⟩, cache_invisible (.run .empty _) {} (.record []) _⟩

end StaffRights.Service
