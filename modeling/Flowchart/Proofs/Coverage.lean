/-
  Flowchart.Proofs.Coverage

  Which of the elements that can be reached become routines.  The inspection
  follows every anchored arrow, the compiler the way of each element.  Under the
  rules for arrows a way uses both arrows of a branch, unless the older one has
  no label: then the newer one stands for both outcomes and the older one is
  passed over (`mem_way_iff_uses`).

  So an element that can be reached becomes a routine unless every path to it
  goes along an arrow that is passed over, and the two walks agree just when
  whatever such an arrow points at can be reached without one
  (`usedPath_iff_path_iff`).
-/

import Flowchart.Proofs.Acceptance
import Flowchart.Proofs.ClosedScript

namespace Flowchart

namespace Graph

variable {g : Graph}

/-! ## Arrows that a way uses -/

/-- The arrow has no label, and a newer anchored arrow starts at the same element. -/
def PassedOver (g : Graph) (a : Arrow) : Prop :=
  a.label = none ∧
    ∃ b ∈ g.arrows, b.source = a.source ∧ b.isAnchored = true ∧ a.id.index < b.id.index

/-- An anchored arrow that is not passed over leads from one element to the other. -/
def Uses (g : Graph) (x y : ElementId) : Prop :=
  ∃ a ∈ g.arrows, a.source = x ∧ a.target = some y ∧ ¬ g.PassedOver a

/-- A path leads from one element to the other without arrows that are passed over. -/
def UsedPath (g : Graph) : ElementId → ElementId → Prop :=
  Relation.ReflTransGen g.Uses

/-- Whatever an arrow that is passed over points at can be reached from `start` without such
    arrows, if the arrow itself can be reached. -/
def Bypassed (g : Graph) (start : ElementId) : Prop :=
  ∀ a ∈ g.arrows, g.PassedOver a → g.Path start a.source →
    ∀ y, a.target = some y → g.UsedPath start y

theorem Uses.leads {x y : ElementId} (h : g.Uses x y) : g.Leads x y := by
  obtain ⟨a, ha, hs, ht, -⟩ := h
  exact ⟨a, ha, hs, ht⟩

theorem UsedPath.path {x y : ElementId} (h : g.UsedPath x y) : g.Path x y :=
  Relation.ReflTransGen.mono (fun _ _ => Uses.leads) _ _ h

namespace WellFormed

theorem outgoing_sorted (h : g.WellFormed) (x : ElementId) :
    (g.outgoing x).Pairwise fun p q => p.2.id.index < q.2.id.index := by
  have hsorted : (g.anchoredFrom x).Pairwise fun a b => a.id.index < b.id.index :=
    h.arrows_sorted.filter _
  rw [← h.outgoing_arrows, List.pairwise_map] at hsorted
  exact hsorted

theorem uses_iff_outgoing (h : g.WellFormed) {x y : ElementId} :
    g.Uses x y ↔ ∃ p ∈ g.outgoing x, p.1 = y ∧ ¬ g.PassedOver p.2 := by
  refine ⟨?_, ?_⟩
  · rintro ⟨a, ha, hs, ht, hused⟩
    exact ⟨(y, a), h.mem_outgoing.mpr ⟨ha, hs, ht⟩, rfl, hused⟩
  · rintro ⟨⟨z, a⟩, hmem, rfl, hused⟩
    obtain ⟨ha, hs, ht⟩ := h.mem_outgoing.mp hmem
    exact ⟨a, ha, hs, ht, hused⟩

/-- Of the arrows that leave an element, one without a label is passed over when another comes
    after it. -/
theorem passedOver_iff_outgoing (h : g.WellFormed) {x : ElementId} {p : ElementId × Arrow}
    (hp : p ∈ g.outgoing x) :
    g.PassedOver p.2 ↔
      p.2.label = none ∧ ∃ q ∈ g.outgoing x, p.2.id.index < q.2.id.index := by
  obtain ⟨-, hs, -⟩ := h.mem_outgoing.mp hp
  refine and_congr_right fun _ => ?_
  rw [hs]
  refine ⟨?_, ?_⟩
  · rintro ⟨b, hb, hbs, hanchored, hlt⟩
    obtain ⟨y, hy⟩ := Option.isSome_iff_exists.mp hanchored
    exact ⟨(y, b), h.mem_outgoing.mpr ⟨hb, hbs, hy⟩, hlt⟩
  · rintro ⟨⟨y, b⟩, hmem, hlt⟩
    obtain ⟨hb, hbs, hy⟩ := h.mem_outgoing.mp hmem
    exact ⟨b, hb, hbs, by simp [Arrow.isAnchored, hy], hlt⟩

/-- Of two arrows, the older one is used only if it has a label, and the newer one always. -/
theorem uses_iff_of_pair (h : g.WellFormed) {x y : ElementId} {older newer : ElementId × Arrow}
    (hout : g.outgoing x = [older, newer]) :
    g.Uses x y ↔ (older.1 = y ∧ older.2.label ≠ none) ∨ newer.1 = y := by
  have hlt : older.2.id.index < newer.2.id.index := by
    have hsorted := h.outgoing_sorted x
    rw [hout] at hsorted
    exact List.rel_of_pairwise_cons hsorted List.mem_cons_self
  have holder : g.PassedOver older.2 ↔ older.2.label = none := by
    rw [h.passedOver_iff_outgoing (x := x) (by simp [hout]), hout]
    simp [hlt]
  have hnewer : ¬ g.PassedOver newer.2 := by
    rw [h.passedOver_iff_outgoing (x := x) (by simp [hout]), hout]
    simp [Nat.le_of_lt hlt]
  rw [h.uses_iff_outgoing, hout]
  simp [holder, hnewer]

/-- Where two arrows at most leave an element, its way leads where its arrows do that are not
    passed over. -/
theorem mem_way_iff_uses (h : g.WellFormed) {x y : ElementId}
    (htwo : (g.outgoing x).length ≤ 2) : y ∈ (g.way x).toList ↔ g.Uses x y := by
  rcases hout : g.outgoing x with _ | ⟨first, _ | ⟨second, _ | ⟨third, rest⟩⟩⟩
  · rw [way, h.uses_iff_outgoing, hout]
    simp [Way.toList]
  · -- nothing comes after a single arrow
    have hused : ¬ g.PassedOver first.2 := by
      rw [h.passedOver_iff_outgoing (x := x) (by simp [hout]), hout]
      simp
    rw [way, h.uses_iff_outgoing, hout]
    simp [Way.toList, hused, eq_comm]
  · rw [h.uses_iff_of_pair hout, way, hout]
    -- by its label the older arrow claims one arm and leaves the other to the newer one;
    -- without a label it claims none
    rcases hlabel : first.2.label with _ | _ | _
    · simp [fork, Way.toList, hlabel, eq_comm]
    · simp [fork, Way.toList, hlabel, eq_comm]
    · simp [fork, Way.toList, hlabel, eq_comm, or_comm]
  · rw [hout] at htwo
    simp only [List.length_cons] at htwo
    omega

/-! ## The two walks -/

theorem length_outgoing_le_two (h : g.WellFormed) (hr : g.ArrowRules) (x : ElementId) :
    (g.outgoing x).length ≤ 2 := by
  refine Nat.le_trans (h.length_outgoing_le x) ?_
  by_cases hx : x ∈ g.ids
  · obtain ⟨e, he, rfl⟩ := mem_ids.mp hx
    refine Nat.le_trans (hr.capacity e.id e.kind ⟨e, he, rfl, rfl⟩) ?_
    cases e.kind <;> decide
  · rw [h.arrowsFrom_eq_nil hx]
    exact Nat.zero_le _

/-- Under the rules for arrows, an element becomes a routine just when it can be reached without
    arrows that are passed over. -/
theorem mem_emitted_iff_usedPath (h : g.WellFormed) (hr : g.ArrowRules) {start x : ElementId}
    (hstart : start ∈ g.ids) : x ∈ g.emitted start ↔ g.UsedPath start x := by
  have hnext : (fun a b => b ∈ (g.way a).toList) = g.Uses := by
    funext a b
    rw [h.mem_way_iff_uses (h.length_outgoing_le_two hr a)]
  have hclosed : ∀ a ∈ g.ids, ∀ b ∈ (g.way a).toList, b ∈ g.ids := by
    intro a _ b hb
    exact (h.leads_live (h.mem_targets.mp (mem_targets_of_way hb))).2
  rw [emitted, mem_walk_iff_reaches hclosed hstart, Reaches, hnext]
  rfl

end WellFormed

/-- What can be reached at all can be reached without arrows that are passed over just when this
    holds of what these arrows point at. -/
theorem usedPath_iff_path_iff {start : ElementId} :
    (∀ x, g.UsedPath start x ↔ g.Path start x) ↔ g.Bypassed start := by
  refine ⟨?_, ?_⟩
  · intro hsame a ha _ hpath y hy
    exact (hsame y).mpr (hpath.tail ⟨a, ha, rfl, hy⟩)
  · intro hother x
    refine ⟨UsedPath.path, fun hpath => ?_⟩
    -- along the path, every step is along an arrow that is used or can be done without
    induction hpath with
    | refl => exact .refl
    | tail hpath hstep ih =>
      obtain ⟨a, ha, rfl, ht⟩ := hstep
      by_cases hover : g.PassedOver a
      · exact hother a ha hover hpath _ ht
      · exact ih.tail ⟨a, ha, rfl, ht, hover⟩

end Graph

/-! ## What a script covers -/

namespace Diagram

/-- On a drawing made under the rules for arrows, the elements that a script is made of can all
    be reached from the entry.  They are all that can be reached just when whatever an arrow
    points at that is passed over can be reached without such arrows. -/
theorem compile_covers_iff {d : Diagram} {edits : List Edit} {options : CompileOptions}
    {script : Script} (hdrawn : d.graph = Graph.ofEdits edits)
    (hall : ∀ edit ∈ edits, edit.underRules = true)
    (hcompiled : d.compile options = .ok script) :
    ∃ start reached, d.graph.entry = some start ∧ d.graph.reachable = .ok reached ∧
      script.source = d.textOf options (d.graph.emitted start) ∧
      (∀ x ∈ d.graph.emitted start, x ∈ reached) ∧
      ((∀ x, x ∈ d.graph.emitted start ↔ x ∈ reached) ↔ d.graph.Bypassed start) := by
  have h : d.graph.WellFormed := by
    rw [hdrawn]
    exact Graph.WellFormed.ofEdits edits
  have hr : d.graph.ArrowRules := by
    rw [hdrawn]
    exact Graph.ArrowRules.ofEdits hall
  obtain ⟨start, hentry, hsource⟩ := source_of_compile hcompiled
  have hstart := ((h.entry_iff start).mp hentry).mem_ids
  refine ⟨start, d.graph.walkFrom start, hentry, ?_, hsource, ?_, ?_⟩
  · rw [Graph.reachable, hentry]
  · intro x hx
    exact (h.mem_walkFrom hstart).mpr ((h.mem_emitted_iff_usedPath hr hstart).mp hx).path
  · simp only [h.mem_emitted_iff_usedPath hr hstart, h.mem_walkFrom hstart]
    exact Graph.usedPath_iff_path_iff

/-- The older arrow of a branch has no label and the newer one has; what the older one points at
    can be reached by another path too, through the action at the end of the newer one. -/
def rejoined : List Edit :=
  [.addElement .entry none, .addElement .branch (some "return done;"),
   .addElement .action (some "stop();"), .addElement .action (some "go();"),
   .drawArrow ⟨0⟩ ⟨1⟩ none, .drawArrow ⟨1⟩ ⟨2⟩ none, .drawArrow ⟨1⟩ ⟨3⟩ (some .no),
   .drawArrow ⟨3⟩ ⟨2⟩ none]

theorem rejoined_covered :
    (∀ edit ∈ rejoined, edit.underRules = true) ∧
      (∃ script, { graph := Graph.ofEdits rejoined : Diagram }.compile {} = .ok script) ∧
      (Graph.ofEdits rejoined).Bypassed ⟨0⟩ := by
  have hrules : ∀ edit ∈ rejoined, edit.underRules = true := by decide
  have hentry : (Graph.ofEdits rejoined).entry = some ⟨0⟩ := by decide +kernel
  have hreached : (Graph.ofEdits rejoined).reachable = .ok [⟨0⟩, ⟨1⟩, ⟨3⟩, ⟨2⟩] := by
    decide +kernel
  have hemitted : (Graph.ofEdits rejoined).emitted ⟨0⟩ = [⟨0⟩, ⟨1⟩, ⟨3⟩, ⟨2⟩] := by
    decide +kernel
  have hstart : (Graph.ofEdits rejoined).startOf {} = .ok ⟨0⟩ := by decide +kernel
  obtain ⟨script, hcompiled⟩ :=
    compile_isOk (d := { graph := Graph.ofEdits rejoined }) hstart
  obtain ⟨start, reached, hentry', hreached', -, -, hiff⟩ :=
    compile_covers_iff rfl hrules hcompiled
  -- the start and the elements reached are those that were worked out above
  rw [hentry] at hentry'
  cases hentry'
  rw [hreached] at hreached'
  cases hreached'
  refine ⟨hrules, ⟨script, hcompiled⟩, hiff.mp fun x => ?_⟩
  rw [hemitted]

/-- The older arrow of a branch has no label, and no other path leads to what it points at. -/
def halfLabelled : List Edit :=
  [.addElement .entry none, .addElement .branch (some "return ready;"),
   .addElement .action (some "wait();"), .addElement .action (some "go();"),
   .drawArrow ⟨0⟩ ⟨1⟩ none, .drawArrow ⟨1⟩ ⟨2⟩ none, .drawArrow ⟨1⟩ ⟨3⟩ (some .yes)]

/-- A drawing made under the rules for arrows is compiled, and an element that can be reached from
    the entry does not become a routine. -/
theorem halfLabelled_uncovered :
    (∀ edit ∈ halfLabelled, edit.underRules = true) ∧
      (∃ script, { graph := Graph.ofEdits halfLabelled : Diagram }.compile {} = .ok script) ∧
      (Graph.ofEdits halfLabelled).entry = some ⟨0⟩ ∧
      ∃ reached, (Graph.ofEdits halfLabelled).reachable = .ok reached ∧ ⟨2⟩ ∈ reached ∧
        ⟨2⟩ ∉ (Graph.ofEdits halfLabelled).emitted ⟨0⟩ := by
  have hstart : (Graph.ofEdits halfLabelled).startOf {} = .ok ⟨0⟩ := by decide +kernel
  have hreached : (Graph.ofEdits halfLabelled).reachable = .ok [⟨0⟩, ⟨1⟩, ⟨3⟩, ⟨2⟩] := by
    decide +kernel
  refine ⟨by decide, compile_isOk hstart, by decide +kernel, _, hreached, by decide, ?_⟩
  decide +kernel

end Diagram

end Flowchart
