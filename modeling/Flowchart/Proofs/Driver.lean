/-
  Flowchart.Proofs.Driver

  Running the routines of a script.  The driver takes a name off its stack, runs
  the routine of that name and puts the name of the next one on the stack
  (`Trampoline.round`).  When the script comes from a drawing that has passed the
  inspection, the driver stands at one place of the flow at any time: the
  stack holds the symbol of that place and nothing else, and a round takes it to
  the next place (`round_at`).  So a run passes the places of the flow in their
  order and never comes to a name that it does not know (`run_at`).  The routines
  that are run are those that the text of the script declares, word by word
  (`Routine.declaration`).
-/

import Flowchart.Proofs.Flow
import Flowchart.Proofs.RoutineText
import Flowchart.Proofs.Symbols
import Flowchart.Proofs.Walk

namespace Flowchart

/-! ## The driver -/

namespace Trampoline

/-- What the driver holds between two rounds. -/
structure State where
  /-- The names of the routines to run, the top first. -/
  stack : List String
  /-- The routines that have been run, oldest first. -/
  ran : List Routine

/-- The driver before its first round. -/
def State.start (symbol : String) : State :=
  ⟨[symbol], []⟩

/-- The routines that are declared under a name. -/
def declared (units : List Routine) (name : String) : List Routine :=
  units.filter fun r => r.name = name

/-- One round, where the body that is run has this outcome.  Of several routines with one
    name the last counts; a name without a routine stops the driver for good. -/
def round (units : List Routine) (outcome : Bool) (s : State) : Option State :=
  match s.stack with
  | [] => some s
  | name :: rest =>
      (declared units name).getLast?.map fun r =>
        { stack := (r.way.follow outcome).toList ++ rest
          ran := s.ran ++ [r] }

/-- One round for each outcome. -/
def run (units : List Routine) : List Bool → State → Option State
  | [], s => some s
  | outcome :: outcomes, s => (round units outcome s).bind (run units outcomes)

/-- With nothing on its stack the driver does nothing more. -/
theorem run_idle (units : List Routine) (outcomes : List Bool) (ran : List Routine) :
    run units outcomes ⟨[], ran⟩ = some ⟨[], ran⟩ := by
  induction outcomes with
  | nil => rfl
  | cons outcome outcomes ih => exact ih

end Trampoline

/-! ## The elements that become routines -/

namespace Graph

variable {g : Graph} {options : CompileOptions} {start : ElementId}

theorem mem_targets_of_way {x y : ElementId} (h : y ∈ (g.way x).toList) :
    y ∈ g.targets x := by
  rw [way] at h
  rw [targets]
  rcases hout : g.outgoing x with _ | ⟨first, _ | ⟨second, rest⟩⟩
  · rw [hout] at h
    cases h
  · rw [hout] at h
    exact h
  · rw [hout] at h
    -- each arm of a fork is one of the two oldest targets
    have harm : y = first.1 ∨ y = second.1 := by
      simp only [fork, Way.toList, List.mem_cons, List.not_mem_nil, or_false] at h
      rcases h with rfl | rfl
      · exact ite_eq_or_eq _ _ _
      · exact ite_eq_or_eq _ _ _
    rcases harm with rfl | rfl
    · exact List.mem_cons_self
    · exact List.mem_cons_of_mem _ List.mem_cons_self

theorem emitted_live {x : ElementId} (hx : x ∈ g.emitted start) : x ∈ g.ids :=
  mem_unseen_of_mem_walk hx

theorem start_emitted (hstart : start ∈ g.ids) : start ∈ g.emitted start :=
  mem_walk_of_mem_stack (List.mem_singleton_self start) hstart

namespace WellFormed

theorem emitted_nodup (h : g.WellFormed) : (g.emitted start).Nodup :=
  walk_nodup h.ids_nodup

/-- With an element, every element its way leads to becomes a routine. -/
theorem emitted_closed (h : g.WellFormed) {x y : ElementId} (hx : x ∈ g.emitted start)
    (hy : y ∈ (g.way x).toList) : y ∈ g.emitted start := by
  have hleads := h.mem_targets.mp (mem_targets_of_way hy)
  exact mem_walk_of_follows hx hy (h.leads_live hleads).2

/-! ## One routine for each symbol -/

/-- Where symbols tell elements apart, one routine is declared under the symbol of an
    element that became one. -/
theorem declared_symbol (h : g.WellFormed)
    (hapart : options.SetsEntryApart (numbered g.elements)) {x : ElementId}
    (hx : x ∈ g.emitted start) :
    Trampoline.declared (g.routines options start) (symbolIn (g.symbols options) x)
      = [g.routine (g.symbols options) x] := by
  have hsame : ∀ y ∈ g.emitted start,
      decide (symbolIn (g.symbols options) y = symbolIn (g.symbols options) x)
        = decide (y = x) := by
    intro y hy
    refine decide_eq_decide.mpr ⟨?_, fun hyx => by rw [hyx]⟩
    exact h.symbol_injective hapart (emitted_live hy) (emitted_live hx)
  -- no element becomes two routines, so of the elements with this symbol one is left
  have hfilter : (g.emitted start).filter
      (fun y => symbolIn (g.symbols options) y = symbolIn (g.symbols options) x) = [x] := by
    rw [List.filter_congr hsame, List.filter_eq, List.count_eq_one_of_mem h.emitted_nodup hx]
    rfl
  rw [Trampoline.declared, routines, List.filter_map]
  exact congrArg (List.map (g.routine (g.symbols options))) hfilter

theorem body_eq (h : g.WellFormed) {e : Element} (he : e ∈ g.elements) :
    g.body e.id = e.script.getD "" := by
  rw [body, h.element?_eq_some.mpr ⟨he, rfl⟩]

/-! ## A round is a step of the flow -/

/-- A round runs the routine of the place where the driver stands and takes it to where the
    way leads. -/
theorem round_at (h : g.WellFormed)
    (hapart : options.SetsEntryApart (numbered g.elements)) {x : ElementId}
    (hx : x ∈ g.emitted start) (outcome : Bool) (ran : List Routine) :
    Trampoline.round (g.routines options start) outcome ⟨[symbolIn (g.symbols options) x], ran⟩
      = some ⟨(((g.way x).follow outcome).map (symbolIn (g.symbols options))).toList,
          ran ++ [g.routine (g.symbols options) x]⟩ := by
  rw [Trampoline.round]
  simp only [h.declared_symbol hapart hx, List.getLast?_singleton, Option.map_some, routine,
    Way.follow_map, List.append_nil]

/-- A run from a place passes the places of the flow from there, and ends with an empty
    stack or at a place that has a routine. -/
theorem run_at (h : g.WellFormed) (hok : g.inspect = .ok ())
    (hapart : options.SetsEntryApart (numbered g.elements)) {x : ElementId}
    (hx : x ∈ g.emitted start) (outcomes : List Bool) (ran : List Routine) :
    ∃ s places,
      Trampoline.run (g.routines options start) outcomes
          ⟨[symbolIn (g.symbols options) x], ran⟩ = some s ∧
        (s.stack = [] ∨ ∃ y ∈ g.emitted start, s.stack = [symbolIn (g.symbols options) y]) ∧
          (∀ others, g.Flow outcomes x others ↔ others = places) ∧
            s.ran = ran ++ places.map (g.routine (g.symbols options)) := by
  -- the run and the flow take one outcome at a time, from any place and after any past
  induction outcomes generalizing x ran with
  | nil =>
    refine ⟨_, [], rfl, Or.inr ⟨x, hx, rfl⟩, fun others => flow_nil_iff, ?_⟩
    rw [List.map_nil, List.append_nil]
  | cons outcome outcomes ih =>
    have hfollows : ∀ y, g.Follows outcome x y ↔ (g.way x).follow outcome = some y :=
      fun y => h.follows_iff hok (emitted_live hx)
    rw [Trampoline.run, h.round_at hapart hx, Option.bind_some]
    cases hway : (g.way x).follow outcome with
    | none =>
      -- the flow ends here, the stack is empty and the other outcomes are not asked for
      refine ⟨_, [x], Trampoline.run_idle _ _ _, Or.inl rfl, fun others => ?_, rfl⟩
      refine flow_none_iff fun y hy => ?_
      rw [hfollows, hway] at hy
      cases hy
    | some y =>
      -- the next place has a routine too, so the run goes on from there
      have hy := h.emitted_closed hx (Way.mem_toList_of_follow hway)
      obtain ⟨s, places, hrun, hstack, hflow, hran⟩ :=
        ih hy (ran ++ [g.routine (g.symbols options) x])
      refine ⟨s, x :: places, hrun, hstack, fun others => ?_, ?_⟩
      · have hone : ∀ z, g.Follows outcome x z ↔ z = y := by
          intro z
          rw [hfollows, hway, Option.some.injEq, eq_comm]
        rw [flow_some_iff hone]
        simp only [hflow, exists_eq_right]
      · rw [hran, List.map_cons, List.append_assoc, List.singleton_append]

end WellFormed

end Graph

/-! ## Compiling and running -/

/-- A drawing that has passed the inspection is compiled from its entry. -/
theorem Graph.startOf_eq_ok {g : Graph} (hok : g.inspect = .ok ()) (options : CompileOptions) :
    ∃ start, g.entry = some start ∧ g.startOf options = .ok start := by
  obtain ⟨⟨start, hentry⟩, -⟩ := inspect_eq_ok.mp hok
  refine ⟨start, (checkEntry_eq_ok.mp hentry).1, ?_⟩
  rw [startOf, hentry, hok]
  cases options.inspectFirst <;> rfl

namespace Diagram

/-- The script of a diagram runs the flow of its drawing. -/
structure RunsFlow (d : Diagram) (options : CompileOptions) (start : ElementId)
    (script : Script) : Prop where
  entry : d.graph.entry = some start
  compiled : d.compile options = .ok script
  /-- The text declares the routines, each under its name, with its body and with the names that
      it hands over to, between the head of the function around them and the driver. -/
  source : script.source
    = Trampoline.preamble
      ++ String.join ((d.graph.routines options start).map Routine.declaration)
      ++ Trampoline.epilogue options.entrySymbol options.maxIterations
  /-- The routine of an element runs the script of the element. -/
  body : ∀ e ∈ d.graph.elements,
    (d.graph.routine (d.graph.symbols options) e.id).body = e.script.getD ""
  /-- Elements are told apart by the names of their routines. -/
  name_injective : ∀ x ∈ d.graph.ids, ∀ y ∈ d.graph.ids,
    (d.graph.routine (d.graph.symbols options) x).name
      = (d.graph.routine (d.graph.symbols options) y).name → x = y
  /-- Whatever the outcomes of the bodies, the driver is never stuck, has one name on its
      stack at most and one routine for that name, and has run the routines of the places of
      the flow from the entry. -/
  run : ∀ outcomes : List Bool, ∃ s places,
    Trampoline.run (d.graph.routines options start) outcomes (.start options.entrySymbol)
        = some s ∧
      s.stack.length ≤ 1 ∧
      (∀ name ∈ s.stack, ∃ x ∈ d.graph.ids,
        Trampoline.declared (d.graph.routines options start) name
          = [d.graph.routine (d.graph.symbols options) x]) ∧
      (∀ others, d.graph.Flow outcomes start others ↔ others = places) ∧
      s.ran = places.map (d.graph.routine (d.graph.symbols options))

/-- Compiling keeps the meaning of a drawing: where the drawing passes the inspection and the
    entry's symbol is none of the numbered ones, there is a script and it runs the flow. -/
theorem compile_runsFlow {d : Diagram} {edits : List Edit} {options : CompileOptions}
    (hdrawn : d.graph = Graph.ofEdits edits) (hok : d.graph.inspect = .ok ())
    (hapart : ∀ k, 1 ≤ k → k ≤ numbered d.graph.elements →
      options.entrySymbol ≠ options.stem ++ Nat.repr k) :
    ∃ start script, d.RunsFlow options start script := by
  have h : d.graph.WellFormed := by
    rw [hdrawn]
    exact Graph.WellFormed.ofEdits edits
  obtain ⟨start, hentry, hstart⟩ := Graph.startOf_eq_ok hok options
  have hkind := (h.entry_iff start).mp hentry
  refine ⟨start, { source := Text.unlines (d.graph.scriptLines options start)
                   name := d.name
                   description := d.description }, ?_⟩
  refine ⟨hentry, ?_, d.graph.unlines_scriptLines_eq options start, ?_, ?_, ?_⟩
  · rw [compile, hstart]
  · exact fun e he => h.body_eq he
  · exact fun x hx y hy => h.symbol_injective hapart hx hy
  · intro outcomes
    have hemitted := Graph.start_emitted hkind.mem_ids
    obtain ⟨s, places, hrun, hstack, hflow, hran⟩ := h.run_at hok hapart hemitted outcomes []
    rw [h.symbol_entry hkind] at hrun
    refine ⟨s, places, hrun, ?_, ?_, hflow, hran⟩
    · rcases hstack with hs | ⟨y, -, hs⟩
      · simp [hs]
      · simp [hs]
    · intro name hname
      rcases hstack with hs | ⟨y, hy, hs⟩
      · rw [hs] at hname
        cases hname
      · rw [hs] at hname
        rw [List.mem_singleton.mp hname]
        exact ⟨y, Graph.emitted_live hy, h.declared_symbol hapart hy⟩

/-- A branch waits in a loop until it may go on.  The arrow for `no` is older than the one for
    `yes`, the entry is not the oldest element, and one element has been removed. -/
def waiting : List Edit :=
  [.addElement .action (some "gone"), .addElement .branch (some "return ready;"),
   .addElement .entry none, .addElement .action (some "wait();"),
   .addElement .action (some "go();"), .removeElement ⟨0⟩,
   .drawArrow ⟨1⟩ ⟨3⟩ (some .no), .drawArrow ⟨1⟩ ⟨4⟩ (some .yes), .drawArrow ⟨3⟩ ⟨1⟩ none,
   .drawArrow ⟨2⟩ ⟨1⟩ none]

theorem waiting_runsFlow :
    (Graph.ofEdits waiting).inspect = .ok () ∧ numbered (Graph.ofEdits waiting).elements = 3 ∧
      ∃ start script, { graph := Graph.ofEdits waiting : Diagram }.RunsFlow {} start script := by
  have hok : (Graph.ofEdits waiting).inspect = .ok () := by decide +kernel
  have hcount : numbered (Graph.ofEdits waiting).elements = 3 := by decide +kernel
  refine ⟨hok, hcount, compile_runsFlow rfl hok ?_⟩
  intro k hlow hhigh
  rw [hcount] at hhigh
  obtain rfl | rfl | rfl : k = 1 ∨ k = 2 ∨ k = 3 := by omega
  · decide
  · decide
  · decide

end Diagram

end Flowchart
