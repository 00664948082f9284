/-
  Flowchart.Proofs.LooseEnds

  An arrow whose end is still loose is seen by no check of a finished drawing and
  not by the compiler.  It stands among the arrows, and in the list of its source,
  where it takes up room.  But where the flow goes is read off the anchored arrows
  that leave an element, and these are what they were (`WellFormed.outgoing_begun`).
  The one check that reads the lists themselves compares their lengths with the
  capacities, and an arrow is begun only where there is room for it
  (`WellFormed.checkLimits_begun`).

  `Graph.Alike` says what two drawings have in common that differ in loose ends
  only; each check is then asked of what they have in common.
-/

import Flowchart.Proofs.ArrowOrder

namespace Flowchart
namespace Graph

variable {g g' : Graph}

/-! ## Drawings that differ in loose ends only -/

/-- Two drawings with the same elements, the same entry and the same anchored arrows at every
    element, oldest first. -/
structure Alike (g g' : Graph) : Prop where
  elements : g'.elements.map Element.bare = g.elements.map Element.bare
  entry : g'.entry = g.entry
  outgoing : g'.outgoing = g.outgoing

namespace Alike

theorem targets (h : g.Alike g') : g'.targets = g.targets := by
  funext x
  rw [Graph.targets, Graph.targets, h.outgoing]

theorem isBranch (h : g.Alike g') (x : ElementId) : g'.isBranch x = g.isBranch x := by
  have hkind : ∀ f : Graph,
      f.isBranch x = ((f.element? x).map fun e => decide (e.kind = .branch)).getD false := by
    intro f
    rw [Graph.isBranch]
    cases f.element? x with
    | none => rfl
    | some e => rfl
  rw [hkind, hkind, element?_map_of_bare (fun _ => rfl) h.elements]

/-- The walk through branches meets the same elements in the same order. -/
theorem branchWalk (h : g.Alike g') (x : ElementId) : g'.branchWalk x = g.branchWalk x := by
  have hnext : g'.branchTargets = g.branchTargets := by
    funext y
    rw [branchTargets, branchTargets, h.isBranch, h.targets]
  rw [Graph.branchWalk, Graph.branchWalk, hnext, ids_of_bare h.elements]

theorem checkLoop (h : g.Alike g') (source target : ElementId) :
    g'.checkLoop source target = g.checkLoop source target := by
  rw [Graph.checkLoop, Graph.checkLoop]
  simp only [h.isBranch, h.branchWalk]

theorem checkEntry (h : g.Alike g') : g'.checkEntry = g.checkEntry := by
  rw [Graph.checkEntry, Graph.checkEntry, h.entry, h.outgoing]

/-- The walk from the entry meets the same elements in the same order. -/
theorem reachable (h : g.Alike g') : g'.reachable = g.reachable := by
  have hwalk : g'.walkFrom = g.walkFrom := by
    funext x
    rw [walkFrom, walkFrom, h.targets, ids_of_bare h.elements]
  rw [Graph.reachable, Graph.reachable, h.entry, hwalk]

theorem unreachable (h : g.Alike g') : g'.unreachable = g.unreachable := by
  rw [Graph.unreachable, Graph.unreachable, h.reachable, ids_of_bare h.elements]

theorem hasBothArms (h : g.Alike g') (x : ElementId) :
    g'.hasBothArms x = g.hasBothArms x := by
  rw [Graph.hasBothArms, Graph.hasBothArms, h.outgoing]

theorem way (h : g.Alike g') : g'.way = g.way := by
  funext x
  rw [Graph.way, Graph.way, h.outgoing]

theorem sameChecks (h : g.Alike g') (hlimits : g'.checkLimits = g.checkLimits) :
    g.SameChecks g' where
  checkEntry := h.checkEntry
  checkLimits := hlimits
  unreachable := h.unreachable
  unscripted := unscripted_of_bare h.elements
  unlabelled := unlabelled_of_bare h.elements h.hasBothArms

end Alike

/-! ## A loose end more -/

namespace WellFormed

variable {source : ElementId} (label : Option Label)

/-- A new arrow that points at nothing is not among the anchored ones. -/
theorem outgoing_begun (h : g.WellFormed) (hs : source ∈ g.ids) :
    (g.withArrow source none label).outgoing = g.outgoing := by
  have h' : (g.withArrow source none label).WellFormed :=
    h.withArrow label hs fun x hx => by cases hx
  funext x
  -- read off the arrows, the lists differ in the new arrow at their end, if they differ at all
  rw [h'.outgoing_eq, h.outgoing_eq, arrowsFrom, withArrow_arrows, List.filter_append,
    List.filterMap_append, List.filter_singleton]
  by_cases hx : source = x
  · rw [decide_eq_true hx, cond_true, List.filterMap_cons_none rfl, List.filterMap_nil,
      List.append_nil]
    rfl
  · rw [decide_eq_false hx, cond_false, List.filterMap_nil, List.append_nil]
    rfl

theorem alike_begun (h : g.WellFormed) (hs : source ∈ g.ids) :
    g.Alike (g.withArrow source none label) where
  elements := g.withArrow_bare source none label
  entry := rfl
  outgoing := h.outgoing_begun label hs

/-- One arrow more where there is room gives no element too many. -/
theorem isOverfull_listed (h : g.WellFormed) (hroom : g.checkRoom source = .ok ())
    {e : Element} (he : e ∈ g.elements) :
    (g.listed source e).isOverfull = e.isOverfull := by
  rw [listed]
  by_cases hx : e.id = source
  · subst hx
    have hlt : e.outgoing.length < e.kind.capacity := by
      rw [h.length_outgoing he]
      exact h.checkRoom_eq_ok.mp hroom e.kind ⟨e, he, rfl, rfl⟩
    rw [if_pos rfl, Element.isOverfull, Element.isOverfull, List.length_append,
      List.length_singleton]
    -- one arrow more just fills the element, and there were fewer before
    have hafter : ¬ e.kind.capacity < e.outgoing.length + 1 := by omega
    have hbefore : ¬ e.kind.capacity < e.outgoing.length := by omega
    rw [decide_eq_false hafter, decide_eq_false hbefore]
  · rw [if_neg hx]

/-- An arrow that is begun where there is room leaves the check of the limits as it was. -/
theorem checkLimits_begun (h : g.WellFormed) (hroom : g.checkRoom source = .ok ()) :
    (g.withArrow source none label).checkLimits = g.checkLimits := by
  refine checkLimits_of_bare rfl ?_ ?_
  · have hfind : g.elements.find? (Element.isOverfull ∘ g.listed source)
        = g.elements.find? Element.isOverfull :=
      List.find?_congr fun e he => h.isOverfull_listed hroom he
    rw [withArrow_elements, List.find?_map, Option.map_map, bare_comp_listed, hfind]
  · intro x
    rw [withArrow_arrows, List.any_append]
    simp

end WellFormed

/-! ## What is answered -/

/-- Every check of a finished drawing and the compiler answer the same of both drawings. -/
structure SameAnswers (g g' : Graph) : Prop where
  checkEntry : g'.checkEntry = g.checkEntry
  checkLimits : g'.checkLimits = g.checkLimits
  /-- The elements that can be reached, in the order of the walk. -/
  reachable : g'.reachable = g.reachable
  unreachable : g'.unreachable = g.unreachable
  unscripted : g'.unscripted = g.unscripted
  unlabelled : g'.unlabelled = g.unlabelled
  inspect : g'.inspect = g.inspect
  report : g'.report = g.report
  checkLoop : ∀ source target, g'.checkLoop source target = g.checkLoop source target
  compile : ∀ (d : Diagram) (options : CompileOptions),
    { d with graph := g' }.compile options = { d with graph := g }.compile options

/-- Whatever edits have led to a drawing, an arrow that is begun on it changes no answer. -/
theorem beginArrow_sameAnswers {edits : List Edit} {source : ElementId} {label : Option Label}
    {a : ArrowId} {g' : Graph} (hbegun : (ofEdits edits).beginArrow source label = .ok (a, g')) :
    (ofEdits edits).SameAnswers g' := by
  have h := WellFormed.ofEdits edits
  obtain ⟨hs, hroom, hg'⟩ := beginArrow_eq_ok.mp hbegun
  obtain rfl : g' = (ofEdits edits).withArrow source none label := (Prod.mk.inj hg').2
  have halike := h.alike_begun label hs
  have hlimits := h.checkLimits_begun label hroom
  have hsame := halike.sameChecks hlimits
  exact ⟨hsame.checkEntry, hsame.checkLimits, halike.reachable, hsame.unreachable,
    hsame.unscripted, hsame.unlabelled, hsame.inspect, hsame.report, halike.checkLoop,
    fun d options => hsame.compile (scriptLines_of_bare halike.elements halike.way options) d⟩

/-- A branch with an arrow for one outcome, and an element that nothing leads to. -/
def halfDrawn : List Edit :=
  [.addElement .entry none, .addElement .branch (some "return ready;"),
   .addElement .action (some "go();"), .addElement .action none, .drawArrow ⟨0⟩ ⟨1⟩ none,
   .drawArrow ⟨1⟩ ⟨2⟩ (some .yes)]

theorem halfDrawn_sameAnswers :
    ∃ g', (ofEdits halfDrawn).beginArrow ⟨1⟩ (some .no) = .ok (⟨2⟩, g') ∧
      g'.element? ⟨1⟩ ≠ (ofEdits halfDrawn).element? ⟨1⟩ ∧
        (ofEdits halfDrawn).report = [.unreachable ⟨3⟩, .unscripted ⟨3⟩, .unlabelled ⟨1⟩] ∧
          (ofEdits halfDrawn).SameAnswers g' := by
  have hbegun : (ofEdits halfDrawn).beginArrow ⟨1⟩ (some .no)
      = .ok (⟨2⟩, (ofEdits halfDrawn).withArrow ⟨1⟩ none (some .no)) := by decide +kernel
  exact ⟨_, hbegun, by decide +kernel, by decide +kernel, beginArrow_sameAnswers hbegun⟩

end Graph
end Flowchart
