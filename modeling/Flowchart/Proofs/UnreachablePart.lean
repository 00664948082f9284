/-
  Flowchart.Proofs.UnreachablePart

  What cannot be reached from the entry leaves no trace in the script.  Elements,
  arrows and scripts may be added there at will, and arrows may even lead from
  there into the part that can be reached: what is compiled is what it was.

  `Graph.Keeps` says what such edits keep: the entry, the elements with their
  kinds at the front of the drawing, and, of every element that can be reached,
  its script and the anchored arrows that leave it.  Each edit keeps this
  (`WellFormed.keeps_change`), and it is enough for the two walks from the entry
  (`Keeps.walkFrom`, `Keeps.emitted`), for the symbols (`Keeps.symbolIn`) and so for
  the script (`Diagram.compile_of_keeps`).  The part that can be reached stays the
  same from edit to edit, which is why it does not matter when one asks for it
  (`WellFormed.avoidsInTurn_iff`).
-/

import Flowchart.Proofs.ChangedBody
import Flowchart.Proofs.Coverage
import Flowchart.Proofs.FirstDefect

namespace Flowchart

/-! ## Walks through a part of the places -/

section Walk

variable {α : Type} [DecidableEq α] {next next' : α → List α}

/-- A walk that stays in a part of the places depends on this part alone. -/
theorem walk_of_agree (part : α → Prop) (hnext : ∀ x, part x → next' x = next x)
    (hclosed : ∀ x, part x → ∀ y ∈ next x, part y) {unseen unseen' stack : List α}
    (hnodup : unseen.Nodup) (hnodup' : unseen'.Nodup)
    (hunseen : ∀ x, part x → (x ∈ unseen' ↔ x ∈ unseen)) (hstack : ∀ x ∈ stack, part x) :
    walk next' unseen' stack = walk next unseen stack := by
  fun_induction walk next unseen stack generalizing unseen' with
  | case1 unseen => rw [walk]
  | case2 unseen x rest hx ih =>
    have hpart : part x := hstack x List.mem_cons_self
    have hx' : x ∈ unseen' := (hunseen x hpart).mpr hx
    have herase : ∀ y, part y → (y ∈ unseen'.erase x ↔ y ∈ unseen.erase x) := by
      intro y hy
      rw [hnodup'.mem_erase_iff, hnodup.mem_erase_iff, hunseen y hy]
    have hrest : ∀ y ∈ next x ++ rest, part y := by
      intro y hy
      rcases List.mem_append.mp hy with hy | hy
      · exact hclosed x hpart y hy
      · exact hstack y (List.mem_cons_of_mem _ hy)
    rw [walk, if_pos hx', hnext x hpart,
      ih (hnodup.erase x) (hnodup'.erase x) herase hrest]
  | case3 unseen x rest hx ih =>
    have hx' : x ∉ unseen' := by
      rw [hunseen x (hstack x List.mem_cons_self)]
      exact hx
    rw [walk, if_neg hx',
      ih hnodup hnodup' hunseen fun y hy => hstack y (List.mem_cons_of_mem _ hy)]

end Walk

theorem Way.map_congr {α β : Type} {f f' : α → β} {way : Way α}
    (h : ∀ place ∈ way.toList, f' place = f place) : way.map f' = way.map f := by
  cases way with
  | stop => rfl
  | next place => rw [Way.map, Way.map, h place List.mem_cons_self]
  | fork yes no =>
    have hyes := h yes List.mem_cons_self
    have hno := h no (List.mem_cons_of_mem _ List.mem_cons_self)
    rw [Way.map, Way.map, hyes, hno]

/-! ## Symbols of more elements -/

/-- The number and the kind of an element, which is all that its symbol depends on. -/
def Element.row (e : Element) : ElementId × Kind :=
  (e.id, e.kind)

/-- Elements that stand behind others do not change the symbols of these. -/
theorem symbolTable_prefix {options : CompileOptions} {elements elements' : List Element}
    (h : elements.map Element.row <+: elements'.map Element.row) (count : Nat) :
    symbolTable options count elements <+: symbolTable options count elements' := by
  induction elements generalizing elements' count with
  | nil => exact List.nil_prefix
  | cons e rest ih =>
    cases elements' with
    | nil => exact absurd h.length_le (by simp)
    | cons e' rest' =>
      rw [List.map_cons, List.map_cons, List.cons_prefix_cons] at h
      obtain ⟨hid, hkind⟩ := Prod.mk.inj h.1
      by_cases hk : e.kind = .entry
      · rw [symbolTable_cons_entry hk, symbolTable_cons_entry (hkind ▸ hk), List.cons_prefix_cons]
        exact ⟨by rw [hid], ih h.2 count⟩
      · rw [symbolTable_cons_other hk, symbolTable_cons_other (hkind ▸ hk), List.cons_prefix_cons]
        exact ⟨by rw [hid], ih h.2 (count + 1)⟩

/-- The edit adds an element that is no entry, or it adds an arrow or changes a script at an
    element outside `reached`. -/
def Edit.Avoids (reached : List ElementId) : Edit → Prop
  | .addElement kind _ => kind ≠ .entry
  | .beginArrow source _ => source ∉ reached
  | .drawArrow source _ _ => source ∉ reached
  | .drawUnchecked source _ _ => source ∉ reached
  | .setScript x _ => x ∉ reached
  | _ => False

namespace Graph

variable {g g' : Graph} {reached : List ElementId}

/-! ## What is kept -/

/-- The second drawing has what the first has, but for scripts and arrows of elements outside
    `reached`, and maybe more elements. -/
structure Keeps (reached : List ElementId) (g g' : Graph) : Prop where
  entry : g'.entry = g.entry
  /-- The elements are there, in their order and of their kinds, before any new ones. -/
  rows : g.elements.map Element.row <+: g'.elements.map Element.row
  body : ∀ x ∈ reached, g'.body x = g.body x
  outgoing : ∀ x ∈ reached, g'.outgoing x = g.outgoing x

namespace Keeps

theorem refl (reached : List ElementId) (g : Graph) : Keeps reached g g :=
  ⟨rfl, List.prefix_rfl, fun _ _ => rfl, fun _ _ => rfl⟩

theorem trans {g'' : Graph} (h : Keeps reached g g') (h' : Keeps reached g' g'') :
    Keeps reached g g'' where
  entry := h'.entry.trans h.entry
  rows := h.rows.trans h'.rows
  body x hx := (h'.body x hx).trans (h.body x hx)
  outgoing x hx := (h'.outgoing x hx).trans (h.outgoing x hx)

theorem ids (h : Keeps reached g g') : g.ids <+: g'.ids := by
  have hmap := h.rows.map Prod.fst
  rw [List.map_map, List.map_map] at hmap
  exact hmap

theorem targets (h : Keeps reached g g') {x : ElementId} (hx : x ∈ reached) :
    g'.targets x = g.targets x := by
  rw [Graph.targets, Graph.targets, h.outgoing x hx]

theorem way (h : Keeps reached g g') {x : ElementId} (hx : x ∈ reached) :
    g'.way x = g.way x := by
  rw [Graph.way, Graph.way, h.outgoing x hx]

/-- The elements that there were have the symbols that they had. -/
theorem symbolIn (h : Keeps reached g g') (hg : g.WellFormed) (hg' : g'.WellFormed)
    (options : CompileOptions) {x : ElementId} (hx : x ∈ g.ids) :
    symbolIn (g'.symbols options) x = symbolIn (g.symbols options) x := by
  have hrows : g.symbols options <+: g'.symbols options := symbolTable_prefix h.rows 0
  exact hg'.symbolIn_of_mem (hrows.mem (hg.symbolIn_mem options hx))

end Keeps

/-! ## The part that can be reached -/

namespace WellFormed

variable {start : ElementId}

theorem walkFrom_live {x : ElementId} (hx : x ∈ g.walkFrom start) : x ∈ g.ids :=
  mem_unseen_of_mem_walk hx

/-- With an element, every element that it points at can be reached. -/
theorem walkFrom_closed (h : g.WellFormed) {x y : ElementId} (hx : x ∈ g.walkFrom start)
    (hy : y ∈ g.targets x) : y ∈ g.walkFrom start := by
  have hlive : y ∈ g.ids := (h.leads_live (h.mem_targets.mp hy)).2
  exact mem_walk_of_follows hx (List.mem_reverse.mpr hy) hlive

/-- An element that becomes a routine can be reached, whatever the labels of arrows are. -/
theorem walkFrom_of_emitted (h : g.WellFormed) (hstart : start ∈ g.ids) {x : ElementId}
    (hx : x ∈ g.emitted start) : x ∈ g.walkFrom start := by
  obtain ⟨first, hfirst, hreaches⟩ := reaches_of_mem_walk hx
  rw [List.mem_singleton.mp hfirst] at hreaches
  clear hx
  induction hreaches with
  | refl => exact mem_walk_of_mem_stack (List.mem_singleton_self start) hstart
  | tail _ hstep ih => exact h.walkFrom_closed ih (mem_targets_of_way hstep)

end WellFormed

namespace Keeps

variable {start : ElementId}

theorem mem_ids_iff (h : Keeps (g.walkFrom start) g g') {x : ElementId}
    (hx : x ∈ g.walkFrom start) : x ∈ g'.ids ↔ x ∈ g.ids := by
  have hlive : x ∈ g.ids := WellFormed.walkFrom_live hx
  exact ⟨fun _ => hlive, fun _ => h.ids.mem hlive⟩

/-- A walk that goes where arrows point, to all targets or to some, is what it was. -/
theorem walk_eq (h : Keeps (g.walkFrom start) g g') (hg : g.WellFormed) (hg' : g'.WellFormed)
    (hstart : start ∈ g.ids) {next next' : ElementId → List ElementId}
    (hnext : ∀ x ∈ g.walkFrom start, next' x = next x)
    (hsub : ∀ x, ∀ y ∈ next x, y ∈ g.targets x) :
    walk next' g'.ids [start] = walk next g.ids [start] := by
  refine walk_of_agree (· ∈ g.walkFrom start) hnext ?_ hg.ids_nodup hg'.ids_nodup
    (fun x hx => h.mem_ids_iff hx) ?_
  · intro x hx y hy
    exact hg.walkFrom_closed hx (hsub x y hy)
  · intro x hx
    rw [List.mem_singleton.mp hx]
    exact mem_walk_of_mem_stack (List.mem_singleton_self start) hstart

theorem walkFrom (h : Keeps (g.walkFrom start) g g') (hg : g.WellFormed) (hg' : g'.WellFormed)
    (hstart : start ∈ g.ids) : g'.walkFrom start = g.walkFrom start :=
  h.walk_eq hg hg' hstart (fun x hx => by rw [h.targets hx]) fun _ _ => List.mem_reverse.mp

theorem emitted (h : Keeps (g.walkFrom start) g g') (hg : g.WellFormed) (hg' : g'.WellFormed)
    (hstart : start ∈ g.ids) : g'.emitted start = g.emitted start :=
  h.walk_eq hg hg' hstart (fun x hx => by rw [h.way hx]) fun _ _ => mem_targets_of_way

theorem reachable (h : Keeps (g.walkFrom start) g g') (hg : g.WellFormed) (hg' : g'.WellFormed)
    (hentry : g.entry = some start) : g'.reachable = .ok (g.walkFrom start) := by
  have hstart := ((hg.entry_iff start).mp hentry).mem_ids
  rw [Graph.reachable, h.entry, hentry]
  show Except.ok (g'.walkFrom start) = _
  rw [h.walkFrom hg hg' hstart]

/-- An element that can be reached becomes the routine that it became. -/
theorem routine (h : Keeps (g.walkFrom start) g g') (hg : g.WellFormed) (hg' : g'.WellFormed)
    (options : CompileOptions) {x : ElementId} (hx : x ∈ g.walkFrom start) :
    g'.routine (g'.symbols options) x = g.routine (g.symbols options) x := by
  have hname := h.symbolIn hg hg' options (WellFormed.walkFrom_live hx)
  have hplaces : ∀ y ∈ (g.way x).toList,
      Flowchart.symbolIn (g'.symbols options) y = Flowchart.symbolIn (g.symbols options) y := by
    intro y hy
    have hreached := hg.walkFrom_closed hx (mem_targets_of_way hy)
    exact h.symbolIn hg hg' options (WellFormed.walkFrom_live hreached)
  have hway : (g'.way x).map (Flowchart.symbolIn (g'.symbols options))
      = (g.way x).map (Flowchart.symbolIn (g.symbols options)) := by
    rw [h.way hx]
    exact Way.map_congr hplaces
  rw [Graph.routine, Graph.routine, hname, h.body x hx, hway]

theorem scriptLines (h : Keeps (g.walkFrom start) g g') (hg : g.WellFormed) (hg' : g'.WellFormed)
    (hstart : start ∈ g.ids) (options : CompileOptions) :
    g'.scriptLines options start = g.scriptLines options start := by
  have hroutines : g'.routines options start = g.routines options start := by
    rw [routines, routines, h.emitted hg hg' hstart]
    exact List.map_congr_left fun x hx =>
      h.routine hg hg' options (hg.walkFrom_of_emitted hstart hx)
  rw [Graph.scriptLines, Graph.scriptLines, hroutines]

theorem checkEntry (h : Keeps (g.walkFrom start) g g') (hentry : g.entry = some start)
    (hstart : start ∈ g.ids) : g'.checkEntry = g.checkEntry := by
  have hfirst : start ∈ g.walkFrom start :=
    mem_walk_of_mem_stack (List.mem_singleton_self start) hstart
  rw [Graph.checkEntry, Graph.checkEntry, h.entry, hentry]
  dsimp only
  rw [h.outgoing start hfirst]

end Keeps

/-! ## Edits outside of what can be reached -/

/-- Each edit avoids what can be reached when its turn comes. -/
def AvoidsInTurn : Graph → List Edit → Prop
  | _, [] => True
  | g, edit :: rest =>
      (∃ reached, g.reachable = .ok reached ∧ edit.Avoids reached) ∧
        (g.after edit).AvoidsInTurn rest

namespace WellFormed

theorem keeps_withElement (h : g.WellFormed) (hlive : ∀ x ∈ reached, x ∈ g.ids) {kind : Kind}
    (script : Option String) (hkind : kind ≠ .entry) :
    Keeps reached g (g.withElement kind script) := by
  have h' : (g.withElement kind script).WellFormed :=
    h.withElement script fun hentry => absurd hentry hkind
  refine ⟨if_neg hkind, ?_, ?_, ?_⟩
  · rw [Graph.withElement, List.map_append]
    exact List.prefix_append _ _
  · intro x hx
    obtain ⟨e, he, rfl⟩ := mem_ids.mp (hlive x hx)
    have he' : e ∈ (g.withElement kind script).elements := List.mem_append_left _ he
    rw [h'.body_eq he', h.body_eq he]
  · intro x _
    rw [h'.outgoing_eq, h.outgoing_eq]
    rfl

theorem keeps_withArrow (h : g.WellFormed) (hlive : ∀ x ∈ reached, x ∈ g.ids)
    {source : ElementId} {target : Option ElementId} (label : Option Label) (hs : source ∈ g.ids)
    (ht : ∀ x, target = some x → x ∈ g.ids) (haside : source ∉ reached) :
    Keeps reached g (g.withArrow source target label) := by
  have h' : (g.withArrow source target label).WellFormed := h.withArrow label hs ht
  have hrow : Element.row ∘ g.listed source = Element.row := by
    funext e
    rw [Function.comp_apply, listed]
    split <;> rfl
  have hrows : (g.withArrow source target label).elements.map Element.row
      = g.elements.map Element.row := by
    rw [withArrow_elements, List.map_map, hrow]
  refine ⟨rfl, hrows ▸ List.prefix_rfl, ?_, ?_⟩
  · intro x hx
    obtain ⟨e, he, rfl⟩ := mem_ids.mp (hlive x hx)
    have hother : g.listed source e = e := by
      rw [listed, if_neg]
      rintro rfl
      exact haside hx
    have he' : e ∈ (g.withArrow source target label).elements := by
      rw [withArrow_elements, List.mem_map]
      exact ⟨e, he, hother⟩
    rw [h'.body_eq he', h.body_eq he]
  · intro x hx
    -- the new arrow starts elsewhere
    have hne : ¬ source = x := by
      rintro rfl
      exact haside hx
    rw [h'.outgoing_eq, h.outgoing_eq, arrowsFrom, withArrow_arrows, List.filter_append,
      List.filter_singleton, decide_eq_false hne, cond_false, List.append_nil]
    rfl

theorem keeps_withScript {y : ElementId} (script : Option String) (haside : y ∉ reached) :
    Keeps reached g (g.withScript y script) := by
  have hrow : Element.row ∘ rescripted y script = Element.row := by
    funext e
    rw [Function.comp_apply, Element.row, Element.row, rescripted_id, rescripted_kind]
  have hrows : (g.withScript y script).elements.map Element.row
      = g.elements.map Element.row := by
    rw [withScript_elements, List.map_map, hrow]
  refine ⟨rfl, hrows ▸ List.prefix_rfl, ?_, fun x _ => outgoing_withScript x⟩
  intro x hx
  have hne : x ≠ y := by
    rintro rfl
    exact haside hx
  exact body_withScript_of_ne hne

/-- A change that avoids what can be reached keeps it. -/
theorem keeps_change (h : g.WellFormed) (hlive : ∀ x ∈ reached, x ∈ g.ids) {edit : Edit}
    (hchange : g.Change edit g') (havoids : edit.Avoids reached) : Keeps reached g g' := by
  cases hchange with
  | addElement hentry => exact h.keeps_withElement hlive _ havoids
  | beginArrow hs hroom =>
    exact h.keeps_withArrow hlive _ hs (fun _ hnone => nomatch hnone) havoids
  | drawArrow hs ht hroom hrule =>
    exact h.keeps_withArrow hlive _ hs (fun _ htarget => Option.some.inj htarget ▸ ht) havoids
  | drawUnchecked hs ht =>
    exact h.keeps_withArrow hlive _ hs (fun _ htarget => Option.some.inj htarget ▸ ht) havoids
  | setScript hx => exact keeps_withScript _ havoids
  | removeElement hx => exact absurd havoids id
  | anchorArrow ha hloose ht hrule => exact absurd havoids id
  | removeArrow ha => exact absurd havoids id
  | relabel ha => exact absurd havoids id

theorem keeps_after (h : g.WellFormed) (hlive : ∀ x ∈ reached, x ∈ g.ids) {edit : Edit}
    (havoids : edit.Avoids reached) : Keeps reached g (g.after edit) := by
  rcases g.after_cases edit with hsame | hchange
  · rw [hsame]
    exact .refl reached g
  · exact h.keeps_change hlive hchange havoids

/-- Any number of such edits keeps it. -/
theorem keeps_run (h : g.WellFormed) (hlive : ∀ x ∈ reached, x ∈ g.ids) {edits : List Edit}
    (havoid : ∀ edit ∈ edits, edit.Avoids reached) :
    (edits.foldl Graph.after g).WellFormed ∧ Keeps reached g (edits.foldl Graph.after g) := by
  induction edits generalizing g with
  | nil => exact ⟨h, .refl reached g⟩
  | cons edit rest ih =>
    have hstep := h.keeps_after hlive (havoid edit List.mem_cons_self)
    have hlive' : ∀ x ∈ reached, x ∈ (g.after edit).ids := fun x hx => hstep.ids.mem (hlive x hx)
    obtain ⟨hformed, hkeeps⟩ := ih (h.after edit) hlive' fun e he =>
      havoid e (List.mem_cons_of_mem _ he)
    exact ⟨hformed, hstep.trans hkeeps⟩

/-- Whether edits avoid what can be reached when each of them is made, or what could be reached
    before the first, is the same. -/
theorem avoidsInTurn_iff (h : g.WellFormed) {start : ElementId} (hentry : g.entry = some start)
    (edits : List Edit) :
    g.AvoidsInTurn edits ↔ ∀ edit ∈ edits, edit.Avoids (g.walkFrom start) := by
  induction edits generalizing g with
  | nil => exact ⟨fun _ edit hedit => (List.not_mem_nil hedit).elim, fun _ => trivial⟩
  | cons edit rest ih =>
    have hreach : g.reachable = .ok (g.walkFrom start) := by
      rw [Graph.reachable, hentry]
    -- an edit that avoids what can be reached leaves the same to avoid for those after it
    have hrest : edit.Avoids (g.walkFrom start) →
        ((g.after edit).AvoidsInTurn rest ↔ ∀ e ∈ rest, e.Avoids (g.walkFrom start)) := by
      intro havoids
      have hstart := ((h.entry_iff start).mp hentry).mem_ids
      have hstep := h.keeps_after (fun _ => walkFrom_live) havoids
      rw [ih (h.after edit) (hstep.entry.trans hentry), hstep.walkFrom h (h.after edit) hstart]
    rw [List.forall_mem_cons]
    constructor
    · rintro ⟨⟨reached, hreached, havoids⟩, hturn⟩
      rw [hreach] at hreached
      cases hreached
      exact ⟨havoids, (hrest havoids).mp hturn⟩
    · rintro ⟨havoids, hall⟩
      exact ⟨⟨_, hreach, havoids⟩, (hrest havoids).mpr hall⟩

end WellFormed

end Graph

/-! ## The script -/

namespace Diagram

theorem compile_of_keeps {d : Diagram} {g' : Graph} {options : CompileOptions} {start : ElementId}
    (h : Graph.Keeps (d.graph.walkFrom start) d.graph g') (hg : d.graph.WellFormed)
    (hg' : g'.WellFormed) (hentry : d.graph.entry = some start)
    (hplain : options.inspectFirst = false) :
    { d with graph := g' }.compile options = d.compile options := by
  have hstart := ((hg.entry_iff start).mp hentry).mem_ids
  rw [compile, compile, Graph.startOf_of_plain _ hplain, Graph.startOf_of_plain _ hplain,
    h.checkEntry hentry hstart]
  cases hcheck : d.graph.checkEntry with
  | error defect => rfl
  | ok first =>
    -- what is compiled starts at the entry
    have hfirst : d.graph.entry = some first := (Graph.checkEntry_eq_ok.mp hcheck).1
    rw [hentry] at hfirst
    cases hfirst
    dsimp only
    rw [h.scriptLines hg hg' hstart]

/-- Elements that are no entry, arrows from elements that cannot be reached, wherever they lead,
    and scripts of elements that cannot be reached change nothing: the script is the same
    before and after any number of such edits.  They do not change what can be reached either,
    so that it is the same to ask for it before the first edit or before each of them. -/
theorem compile_ignores_unreachable {d : Diagram} {edits : List Edit} {options : CompileOptions}
    {script : Script} (hdrawn : d.graph = Graph.ofEdits edits)
    (hplain : options.inspectFirst = false) (hcompiled : d.compile options = .ok script) :
    ∃ reached, d.graph.reachable = .ok reached ∧
      ∀ further : List Edit,
        (d.graph.AvoidsInTurn further ↔ ∀ edit ∈ further, edit.Avoids reached) ∧
        (d.graph.AvoidsInTurn further →
          { d with graph := further.foldl Graph.after d.graph }.compile options = .ok script ∧
          (further.foldl Graph.after d.graph).reachable = .ok reached) := by
  have hg : d.graph.WellFormed := hdrawn ▸ Graph.WellFormed.ofEdits edits
  obtain ⟨start, hentry, -⟩ := source_of_compile hcompiled
  refine ⟨d.graph.walkFrom start, by rw [Graph.reachable, hentry], fun further => ?_⟩
  have hiff := hg.avoidsInTurn_iff hentry further
  refine ⟨hiff, fun hturn => ?_⟩
  obtain ⟨hg', hkeeps⟩ := hg.keeps_run (fun _ => Graph.WellFormed.walkFrom_live) (hiff.mp hturn)
  have hsame := compile_of_keeps hkeeps hg hg' hentry hplain
  exact ⟨hsame.trans hcompiled, hkeeps.reachable hg hg' hentry⟩

/-- An action behind the entry, and another one that nothing leads to. -/
def besideEdits : List Edit :=
  [.addElement .entry none, .addElement .action (some "a"), .drawArrow ⟨0⟩ ⟨1⟩ none,
   .addElement .action (some "b")]

/-- The action that nothing leads to gets another script and an arrow to the action that can be
    reached, and a new branch points at it and at the entry. -/
def intrudingEdits : List Edit :=
  [.setScript ⟨2⟩ (some "c"), .drawArrow ⟨2⟩ ⟨1⟩ none, .addElement .branch none,
   .drawUnchecked ⟨3⟩ ⟨0⟩ (some .yes), .beginArrow ⟨3⟩ none, .drawUnchecked ⟨3⟩ ⟨1⟩ (some .no)]

theorem intrudingEdits_ignored :
    ∃ script,
      { graph := Graph.ofEdits besideEdits : Diagram }.compile {} = .ok script ∧
      { graph := intrudingEdits.foldl Graph.after (Graph.ofEdits besideEdits) : Diagram }.compile {}
        = .ok script := by
  have hstart : (Graph.ofEdits besideEdits).startOf {} = .ok ⟨0⟩ := by decide +kernel
  have hreach : (Graph.ofEdits besideEdits).reachable = .ok [⟨0⟩, ⟨1⟩] := by decide +kernel
  obtain ⟨script, hcompiled⟩ :=
    compile_isOk (d := { graph := Graph.ofEdits besideEdits }) hstart
  obtain ⟨reached, hreached, hfurther⟩ := compile_ignores_unreachable rfl rfl hcompiled
  obtain ⟨hiff, hsame⟩ := hfurther intrudingEdits
  rw [show reached = [⟨0⟩, ⟨1⟩] from Except.ok.inj (hreached.symm.trans hreach)] at hiff
  have havoid : ∀ edit ∈ intrudingEdits, edit.Avoids [⟨0⟩, ⟨1⟩] := by
    simp [intrudingEdits, Edit.Avoids]
  exact ⟨script, hcompiled, (hsame (hiff.mpr havoid)).1⟩

end Diagram

end Flowchart
