/-
  Flowchart.Proofs.ClosedScript

  A script is closed, whatever is wrong with its drawing.  A routine hands over
  along the way of its element (`Routine.handsOver_iff`), and with an element all
  elements its way leads to become routines (`WellFormed.emitted_closed`).  So no
  name is handed over that the text does not declare, and every symbol that is
  looked up is in the table.
-/

import Flowchart.Proofs.Driver

namespace Flowchart

theorem Way.toList_map {α β : Type} (f : α → β) (way : Way α) :
    (way.map f).toList = way.toList.map f := by
  cases way with
  | stop => rfl
  | next place => rfl
  | fork yes no => rfl

/-! ## Where a script starts -/

theorem Graph.checkEntry_of_startOf {g : Graph} {options : CompileOptions} {start : ElementId}
    (h : g.startOf options = .ok start) : g.checkEntry = .ok start := by
  rw [startOf] at h
  cases hfirst : options.inspectFirst with
  | false =>
    rw [hfirst] at h
    exact h
  | true =>
    rw [hfirst] at h
    obtain ⟨_, -, hentry⟩ := bind_eq_ok.mp h
    exact hentry

/-- Without the inspection only the rules for the entry are asked. -/
theorem Graph.startOf_of_plain (g : Graph) {options : CompileOptions}
    (h : options.inspectFirst = false) : g.startOf options = g.checkEntry := by
  rw [startOf, h]
  rfl

namespace Diagram

/-- The text of a script whose routines are made of these elements. -/
def textOf (d : Diagram) (options : CompileOptions) (elements : List ElementId) : String :=
  Text.unlines Trampoline.openingLines
    ++ String.join (elements.map fun x => (d.graph.routine (d.graph.symbols options) x).text)
    ++ Text.unlines (Trampoline.closingLines options.entrySymbol options.maxIterations)

/-- Written out, the text declares the routines of the elements. -/
theorem textOf_eq (d : Diagram) (options : CompileOptions) (elements : List ElementId) :
    d.textOf options elements
      = Trampoline.preamble
        ++ String.join (elements.map fun x =>
          (d.graph.routine (d.graph.symbols options) x).declaration)
        ++ Trampoline.epilogue options.entrySymbol options.maxIterations := by
  simp only [textOf, Routine.text_eq_declaration, Trampoline.unlines_openingLines,
    Trampoline.unlines_closingLines]

theorem compile_eq_ok {d : Diagram} {options : CompileOptions} {script : Script} :
    d.compile options = .ok script ↔
      ∃ start, d.graph.startOf options = .ok start ∧
        script = { source := Text.unlines (d.graph.scriptLines options start)
                   name := d.name
                   description := d.description } := by
  rw [compile]
  cases d.graph.startOf options with
  | error defect => simp
  | ok start => simp [eq_comm]

theorem compile_isOk {d : Diagram} {options : CompileOptions} {start : ElementId}
    (h : d.graph.startOf options = .ok start) : ∃ script, d.compile options = .ok script :=
  ⟨_, compile_eq_ok.mpr ⟨start, h, rfl⟩⟩

theorem unlines_scriptLines_eq_textOf (d : Diagram) (options : CompileOptions)
    (start : ElementId) :
    Text.unlines (d.graph.scriptLines options start)
      = d.textOf options (d.graph.emitted start) := by
  rw [Graph.unlines_scriptLines, Graph.routines, List.map_map]
  rfl

/-- A diagram that is compiled has an entry, and its script is made of the elements that become
    routines from there. -/
theorem source_of_compile {d : Diagram} {options : CompileOptions} {script : Script}
    (h : d.compile options = .ok script) :
    ∃ start, d.graph.entry = some start ∧
      script.source = d.textOf options (d.graph.emitted start) := by
  obtain ⟨start, hstart, rfl⟩ := compile_eq_ok.mp h
  have hentry := Graph.checkEntry_eq_ok.mp (Graph.checkEntry_of_startOf hstart)
  exact ⟨start, hentry.1, d.unlines_scriptLines_eq_textOf options start⟩

end Diagram

/-! ## Closed scripts -/

namespace Graph

/-- The elements whose symbols are looked up while routines are made: each element that
    becomes one, and the elements its way leads to. -/
def lookedUp (g : Graph) (start : ElementId) : List ElementId :=
  (g.emitted start).flatMap fun x => x :: (g.way x).toList

variable {g : Graph} {start : ElementId}

theorem emitted_head? (hstart : start ∈ g.ids) : (g.emitted start).head? = some start := by
  rw [emitted, walk, if_pos hstart]
  rfl

namespace WellFormed

/-- Symbols are looked up for elements that become routines only. -/
theorem mem_lookedUp (h : g.WellFormed) {x : ElementId} :
    x ∈ g.lookedUp start ↔ x ∈ g.emitted start := by
  rw [lookedUp, List.mem_flatMap]
  refine ⟨?_, ?_⟩
  · rintro ⟨y, hy, hx⟩
    rcases List.mem_cons.mp hx with rfl | hx
    · exact hy
    · exact h.emitted_closed hy hx
  · intro hx
    exact ⟨x, hx, List.mem_cons_self⟩

/-- A name that the routine of an element hands over to is the symbol of an element that
    becomes a routine too. -/
theorem handsOver_emitted (h : g.WellFormed) {options : CompileOptions} {x : ElementId}
    (hx : x ∈ g.emitted start) {name : String}
    (hname : (g.routine (g.symbols options) x).HandsOver name) :
    ∃ y ∈ g.emitted start, symbolIn (g.symbols options) y = name := by
  rw [Routine.handsOver_iff, routine, Way.toList_map, List.mem_map] at hname
  obtain ⟨y, hy, rfl⟩ := hname
  exact ⟨y, h.emitted_closed hx hy, rfl⟩

end WellFormed

end Graph

/-- The script declares a routine of this name. -/
def Script.Declares (script : Script) (name : String) : Prop :=
  ∃ before rest, script.source = before ++ "    function " ++ name ++ "(env) \x7b\n" ++ rest

/-- A script whose text holds the declarations of some routines declares the name of each. -/
theorem Script.declares_of_mem (unit : ElementId → Routine) {script : Script}
    {before rest : String} {elements : List ElementId} {x : ElementId}
    (hsource : script.source
      = before ++ String.join (elements.map fun y => (unit y).declaration) ++ rest)
    (hx : x ∈ elements) : script.Declares (unit x).name := by
  have hmem : (unit x).declaration ∈ elements.map fun y => (unit y).declaration :=
    List.mem_map.mpr ⟨x, hx, rfl⟩
  obtain ⟨earlier, later, hjoin⟩ := Text.join_of_mem hmem
  obtain ⟨inner, hunit⟩ := (unit x).declaration_header
  refine ⟨before ++ earlier, inner ++ later ++ rest, ?_⟩
  rw [hsource, hjoin, hunit]
  simp only [String.append_assoc]

namespace Diagram

/-- The script is closed: it is made of live elements, each once and the entry first, and it
    mentions no name that it does not declare. -/
structure Closed (d : Diagram) (options : CompileOptions) (start : ElementId)
    (script : Script) : Prop where
  entry : d.graph.entry = some start
  /-- The text declares the routines of the elements that become one, in their order. -/
  source : script.source
    = Trampoline.preamble
      ++ String.join ((d.graph.emitted start).map fun x =>
        (d.graph.routine (d.graph.symbols options) x).declaration)
      ++ Trampoline.epilogue options.entrySymbol options.maxIterations
  live : ∀ x ∈ d.graph.emitted start, ∃ e ∈ d.graph.elements, e.id = x
  once : (d.graph.emitted start).Nodup
  first : (d.graph.emitted start).head? = some start
  /-- The routine of the entry has the symbol that the options give ... -/
  entry_name : (d.graph.routine (d.graph.symbols options) start).name = options.entrySymbol
  /-- ... and is declared before all others. -/
  opens : ∃ rest, script.source
    = "function runScript (env) \x7b\n" ++ "    function " ++ options.entrySymbol ++ "(env) \x7b\n"
      ++ rest
  /-- The driver starts with the routine of the entry. -/
  pushed : ∃ before rest, script.source
    = before ++ "    function_stack.push(" ++ options.entrySymbol ++ ");\n" ++ rest
  /-- Each routine is declared under the symbol of its element. -/
  declared : ∀ x ∈ d.graph.emitted start, script.Declares (symbolIn (d.graph.symbols options) x)
  /-- A name that a routine hands over to is the symbol of an element that becomes a routine, and
      the text declares it. -/
  handed_over : ∀ x ∈ d.graph.emitted start, ∀ name,
    (d.graph.routine (d.graph.symbols options) x).HandsOver name →
      script.Declares name ∧ ∃ y ∈ d.graph.emitted start, (y, name) ∈ d.graph.symbols options
  /-- No look-up in the table of symbols misses. -/
  found : ∀ x ∈ d.graph.lookedUp start,
    (x, symbolIn (d.graph.symbols options) x) ∈ d.graph.symbols options

/-- Whatever edits have led to its drawing, a diagram that is compiled at all becomes a closed
    script. -/
theorem compile_closed {d : Diagram} {edits : List Edit} {options : CompileOptions}
    {script : Script} (hdrawn : d.graph = Graph.ofEdits edits)
    (hcompiled : d.compile options = .ok script) : ∃ start, d.Closed options start script := by
  have h : d.graph.WellFormed := by
    rw [hdrawn]
    exact Graph.WellFormed.ofEdits edits
  obtain ⟨start, hentry, hsource⟩ := source_of_compile hcompiled
  have hkind := (h.entry_iff start).mp hentry
  have hname : (d.graph.routine (d.graph.symbols options) start).name = options.entrySymbol :=
    h.symbol_entry hkind
  rw [textOf_eq] at hsource
  have hfirst := Graph.emitted_head? hkind.mem_ids
  have hdeclared : ∀ x ∈ d.graph.emitted start,
      script.Declares (symbolIn (d.graph.symbols options) x) := by
    intro x hx
    show script.Declares (d.graph.routine (d.graph.symbols options) x).name
    exact Script.declares_of_mem (d.graph.routine (d.graph.symbols options)) hsource hx
  refine ⟨start, hentry, hsource, ?_, h.emitted_nodup, hfirst, hname, ?_, ?_, hdeclared, ?_, ?_⟩
  · intro x hx
    exact Graph.mem_ids.mp (Graph.emitted_live hx)
  · obtain ⟨others, hothers⟩ := List.head?_eq_some_iff.mp hfirst
    obtain ⟨unit, hunit⟩ := (d.graph.routine (d.graph.symbols options) start).declaration_header
    rw [hsource, hothers, List.map_cons, String.join_cons, hunit, hname, Trampoline.preamble]
    simp only [String.append_assoc]
    exact ⟨_, rfl⟩
  · obtain ⟨before, rest, hpush⟩ :=
      Trampoline.epilogue_pushes options.entrySymbol options.maxIterations
    rw [hsource, hpush]
    simp only [← String.append_assoc]
    exact ⟨_, _, rfl⟩
  · intro x hx name hhands
    obtain ⟨y, hy, rfl⟩ := h.handsOver_emitted hx hhands
    exact ⟨hdeclared y hy, y, hy, h.symbolIn_mem options (Graph.emitted_live hy)⟩
  · intro x hx
    exact h.symbolIn_mem options (Graph.emitted_live (h.mem_lookedUp.mp hx))

/-- A drawing that breaks most rules: an action with three arrows, one of them back to the
    entry, a branch without labels that leads to itself, and a loose end.  An element has been
    removed. -/
def tangled : List Edit :=
  [.addElement .action none, .addElement .entry none, .addElement .branch none,
   .addElement .action (some "go();"), .drawArrow ⟨1⟩ ⟨3⟩ none, .drawArrow ⟨3⟩ ⟨0⟩ none,
   .removeElement ⟨0⟩, .drawUnchecked ⟨3⟩ ⟨2⟩ none, .drawUnchecked ⟨3⟩ ⟨1⟩ (some .yes),
   .drawUnchecked ⟨3⟩ ⟨3⟩ none, .drawUnchecked ⟨2⟩ ⟨2⟩ none, .beginArrow ⟨2⟩ (some .no)]

theorem tangled_closed :
    ∃ script, { graph := Graph.ofEdits tangled : Diagram }.compile {} = .ok script ∧
      ∃ start, { graph := Graph.ofEdits tangled : Diagram }.Closed {} start script := by
  have hstart : (Graph.ofEdits tangled).startOf {} = .ok ⟨1⟩ := by decide +kernel
  obtain ⟨script, hcompiled⟩ :=
    compile_isOk (d := { graph := Graph.ofEdits tangled }) hstart
  exact ⟨script, hcompiled, compile_closed rfl hcompiled⟩

end Diagram

end Flowchart
