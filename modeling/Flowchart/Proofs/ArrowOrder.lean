/-
  Flowchart.Proofs.ArrowOrder

  The order in which a definition gives its arrows does not matter.  Another
  order gives the arrows other numbers, lists them at their sources in another
  order and leads the walks another way, but the drawing has the same elements
  and the same lines (`Graph.Redrawn`).

  A check reads of an element its number, its kind and its script, counts its
  arrows, or asks what can be reached, and none of that tells one order from
  another (`Redrawn.report`).  The way an element goes on does tell them apart
  in general: the older of two arrows is asked first.  On a drawing that has
  passed the inspection an element that is no branch has one arrow at most and
  the arrows of a branch are told apart by their labels (`Redrawn.way`), so the
  script is the same down to its last character.
-/

import Mathlib.Data.List.Find
import Flowchart.Proofs.Acceptance
import Flowchart.Proofs.ClosedScript
import Flowchart.Proofs.UncheckedImport

namespace Flowchart

/-! ## What is left of a drawing without the order -/

/-- The element without the list of its arrows. -/
def Element.bare (e : Element) : Element :=
  { e with outgoing := [] }

namespace Graph

/-- Where the anchored arrows that leave an element lead, and how they are labelled, oldest
    first. -/
def exits (g : Graph) (x : ElementId) : List (ElementId × Option Label) :=
  (g.outgoing x).map fun p => (p.1, p.2.label)

/-- What a line is to an element: an exit, if it starts there and its end is not loose. -/
def exitOf (x : ElementId) (line : ElementId × Option ElementId × Option Label) :
    Option (ElementId × Option Label) :=
  if line.1 = x then line.2.1.map fun target => (target, line.2.2) else none

variable {g : Graph}

/-- The exits of an element are read off the lines alone. -/
theorem WellFormed.exits_eq (h : g.WellFormed) (x : ElementId) :
    g.exits x = g.lines.filterMap (exitOf x) := by
  rw [exits, h.outgoing_eq, arrowsFrom, lines, List.filterMap_filter, List.map_filterMap,
    List.filterMap_map]
  apply List.filterMap_congr
  intro a _
  rw [Function.comp_apply, exitOf, Arrow.line]
  by_cases hs : a.source = x
  · rw [if_pos hs, decide_eq_true hs, if_pos rfl, Arrow.pointing, Option.map_map]
    rfl
  · rw [if_neg hs, decide_eq_false hs, if_neg Bool.false_ne_true, Option.map_none]

theorem length_exits (g : Graph) (x : ElementId) :
    (g.exits x).length = (g.outgoing x).length := by
  rw [exits, List.length_map]

theorem countLabel_eq (g : Graph) (label : Label) (x : ElementId) :
    countLabel label (g.outgoing x) = (g.exits x).countP fun p => p.2 = some label := by
  rw [exits, List.countP_map]
  rfl

/-- What asks nothing about the list of arrows may be asked of the bare elements. -/
theorem ids_filter_bare (g : Graph) (test : Element → Bool)
    (hbare : ∀ e : Element, test e.bare = test e) :
    (g.elements.filter test).map Element.id
      = ((g.elements.map Element.bare).filter test).map Element.id := by
  have htest : test ∘ Element.bare = test := funext hbare
  rw [List.filter_map, htest, List.map_map]
  rfl

/-! ## Drawings with the same bare elements -/

section Bare

variable {g' : Graph}

theorem ids_of_bare (h : g'.elements.map Element.bare = g.elements.map Element.bare) :
    g'.ids = g.ids := by
  have hids : (g'.elements.map Element.bare).map Element.id
      = (g.elements.map Element.bare).map Element.id := by rw [h]
  rw [List.map_map, List.map_map] at hids
  exact hids

/-- What is read off an element that is looked up, its list of arrows aside. -/
theorem element?_map_of_bare {β : Type} {read : Element → β}
    (hread : ∀ e : Element, read e.bare = read e)
    (h : g'.elements.map Element.bare = g.elements.map Element.bare) (x : ElementId) :
    (g'.element? x).map read = (g.element? x).map read := by
  have hbare : ∀ f : Graph, (f.element? x).map read
      = ((f.elements.map Element.bare).find? fun e => e.id = x).map read := by
    intro f
    have hcomp : read ∘ Element.bare = read := funext hread
    rw [List.find?_map, Option.map_map, hcomp]
    rfl
  rw [hbare, hbare, h]

theorem ids_filter_of_bare {test : Element → Bool} (hbare : ∀ e : Element, test e.bare = test e)
    (h : g'.elements.map Element.bare = g.elements.map Element.bare) :
    (g'.elements.filter test).map Element.id = (g.elements.filter test).map Element.id := by
  rw [ids_filter_bare g' test hbare, ids_filter_bare g test hbare, h]

theorem unscripted_of_bare (h : g'.elements.map Element.bare = g.elements.map Element.bare) :
    g'.unscripted = g.unscripted :=
  ids_filter_of_bare (fun _ => rfl) h

theorem unlabelled_of_bare (h : g'.elements.map Element.bare = g.elements.map Element.bare)
    (harms : ∀ x, g'.hasBothArms x = g.hasBothArms x) : g'.unlabelled = g.unlabelled := by
  rw [unlabelled, unlabelled]
  simp only [harms]
  exact ids_filter_of_bare (fun _ => rfl) h

theorem body_of_bare (h : g'.elements.map Element.bare = g.elements.map Element.bare)
    (x : ElementId) : g'.body x = g.body x := by
  have hbody : ∀ f : Graph,
      f.body x = ((f.element? x).map fun e => e.script.getD "").getD "" := by
    intro f
    rw [body]
    cases f.element? x with
    | none => rfl
    | some e => rfl
  rw [hbody, hbody, element?_map_of_bare (fun _ => rfl) h]

theorem symbols_of_bare (h : g'.elements.map Element.bare = g.elements.map Element.bare)
    (options : CompileOptions) : g'.symbols options = g.symbols options := by
  have hbare : ∀ f : Graph,
      symbolTable options 0 (f.elements.map Element.bare) = f.symbols options := by
    intro f
    exact symbolTable_map (u := Element.bare) (fun _ => rfl) (fun _ => rfl) 0 f.elements
  rw [← hbare, ← hbare, h]

/-- The limits on arrows are read off the first element with too many, its list aside, and
    off what points at the entry. -/
theorem checkLimits_of_bare (hentry : g'.entry = g.entry)
    (hover : (g'.elements.find? Element.isOverfull).map Element.bare
      = (g.elements.find? Element.isOverfull).map Element.bare)
    (hpoints : ∀ x, (g'.arrows.any fun a => a.target = some x)
      = g.arrows.any fun a => a.target = some x) :
    g'.checkLimits = g.checkLimits := by
  rw [checkLimits, checkLimits, hentry]
  simp only [hpoints]
  cases hfind : g.elements.find? Element.isOverfull with
  | none =>
    rw [hfind, Option.map_none, Option.map_eq_none_iff] at hover
    rw [hover]
  | some e =>
    rw [hfind, Option.map_some, Option.map_eq_some_iff] at hover
    obtain ⟨e', hfind', hbare⟩ := hover
    obtain ⟨hid, hkind, -⟩ := Element.mk.inj hbare
    rw [hfind']
    show Except.error (Defect.noRoom e'.id e'.kind.capacity) = _
    rw [hid, hkind]

/-- A script is made of the elements, what they run and where they go on. -/
theorem scriptLines_of_bare (h : g'.elements.map Element.bare = g.elements.map Element.bare)
    (hway : g'.way = g.way) (options : CompileOptions) (start : ElementId) :
    g'.scriptLines options start = g.scriptLines options start := by
  have hroutine : g'.routine (g'.symbols options) = g.routine (g.symbols options) := by
    funext x
    rw [routine, routine, symbols_of_bare h, body_of_bare h, hway]
  rw [scriptLines, scriptLines, routines, routines, emitted, emitted, hroutine, hway,
    ids_of_bare h]

end Bare

/-! ## Checks that say the same -/

/-- The checks that inspection and report are made of give the same results. -/
structure SameChecks (g g' : Graph) : Prop where
  checkEntry : g'.checkEntry = g.checkEntry
  checkLimits : g'.checkLimits = g.checkLimits
  unreachable : g'.unreachable = g.unreachable
  unscripted : g'.unscripted = g.unscripted
  unlabelled : g'.unlabelled = g.unlabelled

namespace SameChecks

variable {g' : Graph}

theorem report (h : g.SameChecks g') : g'.report = g.report := by
  rw [Graph.report, Graph.report, h.checkEntry, h.checkLimits, h.unreachable, h.unscripted,
    h.unlabelled]

theorem inspect (h : g.SameChecks g') : g'.inspect = g.inspect := by
  rw [Graph.inspect, Graph.inspect, h.checkEntry, h.checkLimits, checkReachability,
    checkReachability, checkScripts, checkScripts, checkLabels, checkLabels, h.unreachable,
    h.unscripted, h.unlabelled]

/-- Where the scripts have the same lines too, compiling gives the same result. -/
theorem compile (h : g.SameChecks g') {options : CompileOptions}
    (hlines : ∀ start, g'.scriptLines options start = g.scriptLines options start)
    (d : Diagram) :
    { d with graph := g' }.compile options = { d with graph := g }.compile options := by
  have hstart : g'.startOf options = g.startOf options := by
    rw [startOf, startOf, h.inspect, h.checkEntry]
  rw [Diagram.compile, Diagram.compile, hstart]
  simp only [hlines]

end SameChecks

/-! ## The same drawing -/

/-- Two drawings with the same elements and the same lines.  The lines may have been drawn in
    another order. -/
structure Redrawn (g g' : Graph) : Prop where
  wellFormed : g.WellFormed
  wellFormed' : g'.WellFormed
  elements : g'.elements.map Element.bare = g.elements.map Element.bare
  lines : g'.lines.Perm g.lines

namespace Redrawn

variable {g' : Graph}

theorem ids (h : g.Redrawn g') : g'.ids = g.ids :=
  ids_of_bare h.elements

theorem hasKind (h : g.Redrawn g') {x : ElementId} {kind : Kind} :
    g'.HasKind x kind ↔ g.HasKind x kind := by
  have hbare : ∀ f : Graph, f.HasKind x kind ↔
      ∃ e ∈ f.elements.map Element.bare, e.id = x ∧ e.kind = kind := by
    intro f
    simp only [List.mem_map, exists_exists_and_eq_and]
    rfl
  rw [hbare, hbare, h.elements]

theorem entry (h : g.Redrawn g') : g'.entry = g.entry := by
  apply Option.ext
  intro x
  rw [h.wellFormed'.entry_iff, h.wellFormed.entry_iff, h.hasKind]

theorem leads (h : g.Redrawn g') : g'.Leads = g.Leads := by
  funext x y
  apply propext
  rw [leads_iff_lines, leads_iff_lines]
  exact exists_congr fun label => h.lines.mem_iff

theorem exits_perm (h : g.Redrawn g') (x : ElementId) : (g'.exits x).Perm (g.exits x) := by
  rw [h.wellFormed'.exits_eq, h.wellFormed.exits_eq]
  exact h.lines.filterMap _

theorem length_outgoing (h : g.Redrawn g') (x : ElementId) :
    (g'.outgoing x).length = (g.outgoing x).length := by
  rw [← length_exits, ← length_exits, (h.exits_perm x).length_eq]

theorem hasBothArms (h : g.Redrawn g') (x : ElementId) :
    g'.hasBothArms x = g.hasBothArms x := by
  rw [Graph.hasBothArms, Graph.hasBothArms]
  simp only [h.length_outgoing, countLabel_eq, (h.exits_perm x).countP_eq]

/-! ## The checks -/

theorem checkEntry (h : g.Redrawn g') : g'.checkEntry = g.checkEntry := by
  rw [Graph.checkEntry, Graph.checkEntry, h.entry]
  simp only [h.length_outgoing]

/-- The first element with too many arrows is the same, its list of arrows aside. -/
theorem overfull (h : g.Redrawn g') :
    (g'.elements.find? Element.isOverfull).map Element.bare
      = (g.elements.find? Element.isOverfull).map Element.bare := by
  -- how many arrows an element has is counted in the lines
  have hcount : ∀ f : Graph, f.WellFormed → f.lines.Perm g.lines →
      (f.elements.find? Element.isOverfull).map Element.bare
        = (f.elements.map Element.bare).find? fun e =>
            e.kind.capacity < g.lines.countP fun l => l.1 = e.id := by
    intro f hf hlines
    rw [List.find?_map]
    apply congrArg (Option.map Element.bare)
    apply List.find?_congr
    intro e he
    rw [Element.isOverfull, hf.length_outgoing he, length_arrowsFrom_eq, hlines.countP_eq]
    rfl
  rw [hcount g' h.wellFormed' h.lines, hcount g h.wellFormed (List.Perm.refl _), h.elements]

theorem pointsAt (h : g.Redrawn g') (x : ElementId) :
    (g'.arrows.any fun a => a.target = some x) = g.arrows.any fun a => a.target = some x := by
  have hlines : ∀ f : Graph, (f.arrows.any fun a => a.target = some x)
      = f.lines.any fun l => l.2.1 = some x := by
    intro f
    rw [Graph.lines, List.any_map]
    rfl
  rw [hlines, hlines, h.lines.any_eq]

/-- The walks meet the elements in another order, but they meet the same. -/
theorem unreachable (h : g.Redrawn g') : g'.unreachable = g.unreachable := by
  rw [Graph.unreachable, Graph.unreachable, reachable, reachable, h.entry]
  cases hentry : g.entry with
  | none => rfl
  | some start =>
    have hstart : start ∈ g.ids := ((h.wellFormed.entry_iff start).mp hentry).mem_ids
    have hstart' : start ∈ g'.ids := by rw [h.ids]; exact hstart
    have hmet : ∀ x, x ∈ g'.walkFrom start ↔ x ∈ g.walkFrom start := by
      intro x
      rw [h.wellFormed'.mem_walkFrom hstart', h.wellFormed.mem_walkFrom hstart, Path, Path,
        h.leads]
    show Except.ok (g'.ids.filter fun x => x ∉ g'.walkFrom start)
      = Except.ok (g.ids.filter fun x => x ∉ g.walkFrom start)
    rw [h.ids]
    simp only [hmet]

theorem sameChecks (h : g.Redrawn g') : g.SameChecks g' where
  checkEntry := h.checkEntry
  checkLimits := checkLimits_of_bare h.entry h.overfull h.pointsAt
  unreachable := h.unreachable
  unscripted := unscripted_of_bare h.elements
  unlabelled := unlabelled_of_bare h.elements h.hasBothArms

/-- The report names the same defects of the same elements, in the same order. -/
theorem report (h : g.Redrawn g') : g'.report = g.report :=
  h.sameChecks.report

theorem inspect (h : g.Redrawn g') : g'.inspect = g.inspect :=
  h.sameChecks.inspect

/-! ## The script -/

/-- With one exit at most, an element goes on the same way. -/
theorem way_of_single (h : g.Redrawn g') {x : ElementId} (hone : (g.outgoing x).length ≤ 1) :
    g'.way x = g.way x := by
  have hperm := h.exits_perm x
  have hlength := h.length_outgoing x
  rw [Graph.way, Graph.way]
  rcases hout : g.outgoing x with - | ⟨p, - | ⟨q, rest⟩⟩
  · rw [hout, List.length_nil, List.length_eq_zero_iff] at hlength
    rw [hlength]
  · rw [hout, List.length_singleton, List.length_eq_one_iff] at hlength
    obtain ⟨p', hout'⟩ := hlength
    rw [exits, exits, hout, hout', List.map_singleton, List.map_singleton,
      List.singleton_perm_singleton] at hperm
    rw [hout']
    show Way.next p'.1 = Way.next p.1
    rw [(Prod.mk.inj hperm).1]
  · rw [hout] at hone
    simp only [List.length_cons] at hone
    omega

/-- With one arrow for each outcome, an element forks the same way, whichever arrow is the
    older one. -/
theorem way_of_arms (h : g.Redrawn g') {x : ElementId} (harms : g.hasBothArms x = true) :
    g'.way x = g.way x := by
  obtain ⟨yes, no, hyes, hno, hout⟩ := hasBothArms_iff.mp harms
  obtain ⟨yes', no', hyes', hno', hout'⟩ :=
    hasBothArms_iff.mp ((h.hasBothArms x).trans harms)
  rw [Graph.way_of_arms hyes hno hout, Graph.way_of_arms hyes' hno' hout']
  -- an exit of the one drawing is an exit of the other, and the label tells which
  have hmem : ∀ p ∈ g'.outgoing x, (p.1, p.2.label) ∈ g.exits x := by
    intro p hp
    apply (h.exits_perm x).mem_iff.mp
    exact List.mem_map.mpr ⟨p, hp, rfl⟩
  have hexits : ∀ target label, (target, label) ∈ g.exits x →
      (target = yes.1 ∧ label = some .yes) ∨ (target = no.1 ∧ label = some .no) := by
    intro target label hexit
    rw [exits] at hexit
    rcases hout with hout | hout
    · simpa [hout, hyes, hno] using hexit
    · simpa [hout, hyes, hno, or_comm] using hexit
  have hin : yes' ∈ g'.outgoing x ∧ no' ∈ g'.outgoing x := by
    rcases hout' with hout' | hout'
    · simp [hout']
    · simp [hout']
  have htargetYes : yes'.1 = yes.1 := by
    rcases hexits _ _ (hmem yes' hin.1) with ⟨heq, -⟩ | ⟨-, hlabel⟩
    · exact heq
    · rw [hyes'] at hlabel
      cases hlabel
  have htargetNo : no'.1 = no.1 := by
    rcases hexits _ _ (hmem no' hin.2) with ⟨-, hlabel⟩ | ⟨heq, -⟩
    · rw [hno'] at hlabel
      cases hlabel
    · exact heq
  rw [htargetYes, htargetNo]

/-- On a drawing that has passed the inspection, every element goes on the same way. -/
theorem way (h : g.Redrawn g') (hok : g.inspect = .ok ()) : g'.way = g.way := by
  obtain ⟨-, hlimits, -, -, hlabels⟩ := inspect_eq_ok.mp hok
  funext x
  by_cases hb : g.HasKind x .branch
  · exact h.way_of_arms (checkLabels_eq_ok.mp hlabels x hb)
  · apply h.way_of_single
    have hle := h.wellFormed.length_outgoing_le x
    by_cases hx : x ∈ g.ids
    · have hone := h.wellFormed.length_arrowsFrom_le_one hlimits hx hb
      omega
    · rw [h.wellFormed.arrowsFrom_eq_nil hx] at hle
      simp only [List.length_nil] at hle
      omega

/-- The script of a drawing that has passed the inspection is the same, whatever the options. -/
theorem compile (h : g.Redrawn g') (hok : g.inspect = .ok ()) (d : Diagram)
    (options : CompileOptions) :
    { d with graph := g' }.compile options = { d with graph := g }.compile options :=
  h.sameChecks.compile (scriptLines_of_bare h.elements (h.way hok) options) d

end Redrawn

/-! ## Drawings of a definition -/

theorem bare_comp_listed (g : Graph) (source : ElementId) :
    Element.bare ∘ g.listed source = Element.bare := by
  funext e
  rw [Function.comp_apply, listed]
  split <;> rfl

theorem withArrow_bare (g : Graph) (source : ElementId) (target : Option ElementId)
    (label : Option Label) :
    (g.withArrow source target label).elements.map Element.bare = g.elements.map Element.bare := by
  rw [withArrow_elements, List.map_map, bare_comp_listed]

end Graph

theorem placeArrows_unchecked_bare {specs : List ArrowSpec} {keys : KeyTable} {g g' : Graph}
    (hp : Placed keys g) (h : placeArrows false keys g specs = .ok g') :
    g'.elements.map Element.bare = g.elements.map Element.bare := by
  induction specs generalizing g with
  | nil =>
    cases h
    rfl
  | cons spec rest ih =>
    obtain ⟨h', hone, hrest⟩ := placeArrows_cons_eq_ok.mp h
    rw [ih (hp.placeArrow hone) hrest]
    obtain ⟨source, target, -, -, rfl⟩ := (placeArrow_unchecked_iff hp).mp hone
    exact g.withArrow_bare _ _ _

/-- Placed in two orders, arrows make the same drawing. -/
theorem placeArrows_unchecked_redrawn {specs specs' : List ArrowSpec} {keys : KeyTable}
    {g graph graph' : Graph} (hp : Placed keys g) (hperm : specs'.Perm specs)
    (h : placeArrows false keys g specs = .ok graph)
    (h' : placeArrows false keys g specs' = .ok graph') : graph.Redrawn graph' := by
  obtain ⟨hlines, -⟩ := placeArrows_unchecked_lines hp h
  obtain ⟨hlines', -⟩ := placeArrows_unchecked_lines hp h'
  constructor
  · exact (hp.placeArrows h).wellFormed
  · exact (hp.placeArrows h').wellFormed
  · rw [placeArrows_unchecked_bare hp h, placeArrows_unchecked_bare hp h']
  · rw [hlines, hlines']
    exact (hperm.filterMap _).append_left _

namespace Definition

theorem buildUnchecked_isOk_iff (d : Definition) :
    (∃ diagram, d.buildUnchecked = .ok diagram) ↔
      ∃ keys g, placeElements [] .empty d.elements = .ok (keys, g) ∧
        ∃ graph, placeArrows false keys g d.arrows = .ok graph := by
  rw [buildUnchecked]
  simp only [buildWith_eq_ok]
  constructor
  · rintro ⟨diagram, keys, g, graph, hplace, harrows, -⟩
    exact ⟨keys, g, hplace, graph, harrows⟩
  · rintro ⟨keys, g, hplace, graph, harrows⟩
    exact ⟨_, keys, g, graph, hplace, harrows, rfl⟩

/-- The diagrams that a definition becomes under two orders of its arrows differ in how they
    were drawn and in nothing else. -/
theorem buildUnchecked_redrawn {d : Definition} {arrows : List ArrowSpec}
    {first second : Diagram} (hperm : arrows.Perm d.arrows)
    (hfirst : d.buildUnchecked = .ok first)
    (hsecond : { d with arrows }.buildUnchecked = .ok second) :
    first.graph.Redrawn second.graph ∧ second = { first with graph := second.graph } := by
  obtain ⟨keys, g, graph, hplace, harrows, rfl⟩ := buildWith_eq_ok.mp hfirst
  obtain ⟨keys', g', graph', hplace', harrows', rfl⟩ := buildWith_eq_ok.mp hsecond
  -- the elements are placed before any arrow is looked at
  have hsame : (keys, g) = (keys', g') := Except.ok.inj (hplace.symm.trans hplace')
  cases hsame
  exact ⟨placeArrows_unchecked_redrawn (placed hplace).1 hperm harrows harrows', rfl⟩

/-- The order in which a definition gives its arrows does not matter.  It does not decide whether
    the definition becomes a diagram without the rules for arrows; of the diagrams it becomes, the
    reports and the inspections say the same; and if they pass the inspection, they are compiled
    to the same script, whatever the options. -/
theorem buildUnchecked_perm (d : Definition) {arrows : List ArrowSpec}
    (hperm : arrows.Perm d.arrows) :
    ((∃ first, d.buildUnchecked = .ok first) ↔
        ∃ second, { d with arrows }.buildUnchecked = .ok second) ∧
      ∀ first second, d.buildUnchecked = .ok first →
        { d with arrows }.buildUnchecked = .ok second →
          first.graph.report = second.graph.report ∧
          first.graph.inspect = second.graph.inspect ∧
          (first.graph.inspect = .ok () → ∀ options, ∃ script,
            first.compile options = .ok script ∧ second.compile options = .ok script) := by
  constructor
  · rw [buildUnchecked_isOk_iff, buildUnchecked_isOk_iff]
    constructor
    · rintro ⟨keys, g, hplace, hall⟩
      exact ⟨keys, g, hplace, (placeArrows_unchecked_isOk_perm (placed hplace).1 hperm).mp hall⟩
    · rintro ⟨keys, g, hplace, hall⟩
      exact ⟨keys, g, hplace, (placeArrows_unchecked_isOk_perm (placed hplace).1 hperm).mpr hall⟩
  · intro first second hfirst hsecond
    obtain ⟨hredrawn, hsecond⟩ := buildUnchecked_redrawn hperm hfirst hsecond
    refine ⟨hredrawn.report.symm, hredrawn.inspect.symm, ?_⟩
    intro hok options
    -- what has passed the inspection is compiled, and the other drawing alike
    obtain ⟨start, -, hstart⟩ := Graph.startOf_eq_ok hok options
    obtain ⟨script, hscript⟩ := Diagram.compile_isOk hstart
    have hsame : second.compile options = first.compile options := by
      rw [hsecond]
      exact hredrawn.compile hok first options
    exact ⟨script, hscript, hsame.trans hscript⟩

/-- A branch that waits until it may go on, with the arrow for `no` given before the one for
    `yes` and the arrow from the entry given last. -/
def waitsFirst : Definition :=
  { elements :=
      [{ key := "start", kind := .entry }, { key := "ready", kind := .branch, script := some "r" },
       { key := "wait", script := some "w" }, { key := "go", script := some "g" }]
    arrows :=
      [{ source := "ready", target := "wait", label := some .no },
       { source := "ready", target := "go", label := some .yes },
       { source := "wait", target := "ready" },
       { source := "start", target := "ready" }] }

/-- The same with its arrows the other way round. -/
def goesFirst : Definition :=
  { waitsFirst with arrows := waitsFirst.arrows.reverse }

theorem goesFirst_compiled_alike :
    ∃ first second, waitsFirst.buildUnchecked = .ok first ∧
      goesFirst.buildUnchecked = .ok second ∧ first.graph ≠ second.graph ∧
        first.graph.report = second.graph.report ∧
          ∃ script, first.compile {} = .ok script ∧ second.compile {} = .ok script := by
  obtain ⟨first, hfirst, htest⟩ : ∃ first, waitsFirst.buildUnchecked = .ok first ∧
      decide (first.graph.inspect = .ok () ∧ first.graph.arrows.head?.map Arrow.source = some ⟨1⟩)
        = true := exists_ok_of_any (by decide +kernel)
  obtain ⟨second, hsecond, htest'⟩ : ∃ second, goesFirst.buildUnchecked = .ok second ∧
      decide (second.graph.arrows.head?.map Arrow.source = some ⟨0⟩) = true :=
    exists_ok_of_any (by decide +kernel)
  obtain ⟨hok, hsource⟩ := of_decide_eq_true htest
  obtain ⟨hreport, -, hscript⟩ :=
    (buildUnchecked_perm waitsFirst (List.reverse_perm _)).2 first second hfirst hsecond
  refine ⟨first, second, hfirst, hsecond, ?_, hreport, hscript hok {}⟩
  -- the oldest arrow starts at the branch in the one drawing and at the entry in the other
  intro hsame
  rw [hsame, of_decide_eq_true htest'] at hsource
  cases hsource

end Definition

end Flowchart
