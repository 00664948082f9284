/-
  Flowchart.Proofs.Traversal

  The three searches of a drawing, each as the loop that carries it out: the
  search for a loop of branches, which stops where it finds one, the walk from
  the entry, and the walk on which the routines of a script are written.  On
  every drawing the loops end and give what the check, the list of reachable
  elements and the script are made of.

  The order of the two walks is that of the recursive one.  The walk from the
  entry follows the arrows of an element from the newest to the oldest
  (`newestFirst`); the other follows the two oldest at most, the one for `yes`
  before the one for `no` by their labels (`yesFirst`).
-/

import Flowchart.Proofs.BranchLoop
import Flowchart.Proofs.Acceptance
import Flowchart.Proofs.ClosedScript
import Flowchart.Proofs.Preorder

namespace Flowchart

/-! ## What the visits of a loop add up to -/

/-- Visits that stop at one place stop just when that place is among those visited. -/
theorem foldlM_stop {α ε : Type} [DecidableEq α] (goal : α) (e : ε) (order : List α) :
    order.foldlM (fun _ x => if x = goal then Except.error e else .ok ()) ()
      = if goal ∈ order then .error e else .ok () := by
  induction order with
  | nil => rfl
  | cons x rest ih =>
    rw [List.foldlM_cons]
    by_cases hx : x = goal
    · rw [if_pos hx, if_pos (List.mem_cons.mpr (Or.inl hx.symm))]
      rfl
    · have hmem : goal ∈ x :: rest ↔ goal ∈ rest := by
        rw [List.mem_cons, or_iff_right (Ne.symm hx)]
      rw [if_neg hx, if_congr hmem rfl rfl, ← ih]
      rfl

/-- Visits that write a text for each place write the texts one behind the other and count
    them. -/
theorem foldl_write {α : Type} (write : α → String) (text : String) (count : Nat)
    (order : List α) :
    order.foldl (fun (done : String × Nat) x => (done.1 ++ write x, done.2 + 1)) (text, count)
      = (text ++ String.join (order.map write), count + order.length) := by
  induction order generalizing text count with
  | nil => rw [List.foldl_nil, List.map_nil, String.join_nil, String.append_empty]; rfl
  | cons x rest ih =>
    rw [List.foldl_cons, ih, List.map_cons, String.join_cons, String.append_assoc,
      List.length_cons, Nat.add_assoc, Nat.add_comm 1]

namespace Graph

variable {g : Graph}

/-! ## The search for a loop of branches -/

/-- The search for `source` from `target` through branches, which stops where it is met, ends
    with `result`. -/
def SearchEnds (g : Graph) (source target : ElementId) (result : Except Defect Unit) : Prop :=
  if g.isBranch source ∧ g.isBranch target then
    LoopEnds (fun x => (g.branchTargets x).reverse)
      (fun _ x => if x = source then .error (.branchLoop source target) else .ok ())
      [] () [target] result
  else result = .ok ()

namespace WellFormed

theorem divides_branches (h : g.WellFormed) :
    Divides (fun x => (g.branchTargets x).reverse) g.ids [] := by
  refine Divides.start h.ids_nodup fun x _ y hy => ?_
  exact (h.leads_live (h.mem_branchTargets.mp hy).2).2

/-- The search ends, with what the check for loops says. -/
theorem searchEnds_iff (h : g.WellFormed) {source target : ElementId}
    {result : Except Defect Unit} :
    g.SearchEnds source target result ↔ result = g.checkLoop source target := by
  rw [SearchEnds, checkLoop]
  by_cases hboth : g.isBranch source = true ∧ g.isBranch target = true
  · have htarget := (h.isBranch_iff.mp hboth.2).mem_ids
    -- the visits stop at `source`, so they stop just when the walk would meet it
    rw [if_pos hboth, loopEnds_iff_walk h.divides_branches (Divides.known_top htarget),
      foldlM_stop]
    simp only [hboth, true_and]
    rfl
  · rw [if_neg hboth, if_neg fun hloop => hboth ⟨hloop.1, hloop.2.1⟩]

end WellFormed

/-- Whatever edits have led to a drawing, and whether or not the two elements are on it, the
    search for a loop of branches ends, just with the verdict of the check: an arrow from `source`
    to `target` is refused just when both are branches and a path of arrows between branches,
    which may be empty, leads back from `target` to `source`.  Otherwise it passes. -/
theorem ofEdits_checkLoop (edits : List Edit) (source target : ElementId) :
    (∀ result, (ofEdits edits).SearchEnds source target result ↔
        result = (ofEdits edits).checkLoop source target) ∧
      (∀ defect, (ofEdits edits).checkLoop source target = .error defect ↔
        defect = .branchLoop source target ∧ (ofEdits edits).ClosesLoop source target) ∧
      ((ofEdits edits).checkLoop source target = .ok () ↔
        ¬ (ofEdits edits).ClosesLoop source target) := by
  have h := WellFormed.ofEdits edits
  exact ⟨fun _ => h.searchEnds_iff, fun _ => h.checkLoop_eq_error, h.checkLoop_eq_ok⟩

/-! ## The walk from the entry -/

/-- Where the anchored arrows that start at an element lead, the newest arrow first. -/
def newestFirst (g : Graph) (x : ElementId) : List ElementId :=
  (g.arrowsFrom x).reverse.filterMap Arrow.target

/-- The walk from the entry, which lists the elements it meets, ends with `result`. -/
def ReachEnds (g : Graph) (result : Except Defect (List ElementId)) : Prop :=
  match g.entry with
  | none => result = .error .noEntry
  | some entry => LoopEnds g.newestFirst (fun met x => .ok (met ++ [x])) [] [] [entry] result

namespace WellFormed

theorem targets_reverse (h : g.WellFormed) (x : ElementId) :
    (g.targets x).reverse = g.newestFirst x := by
  have hfst : ∀ a : Arrow, a.pointing.map Prod.fst = a.target := by
    intro a
    rw [Arrow.pointing, Option.map_map]
    exact Option.map_id'
  rw [targets, h.outgoing_eq, List.map_filterMap, newestFirst, List.filterMap_reverse]
  simp only [hfst]

theorem walkFrom_eq (h : g.WellFormed) (x : ElementId) :
    g.walkFrom x = walk g.newestFirst g.ids [x] := by
  have hnext : (fun y => (g.targets y).reverse) = g.newestFirst := funext h.targets_reverse
  rw [walkFrom, hnext]

theorem divides_newestFirst (h : g.WellFormed) : Divides g.newestFirst g.ids [] := by
  refine Divides.start h.ids_nodup fun x _ y hy => ?_
  rw [← h.targets_reverse, List.mem_reverse, h.mem_targets] at hy
  exact (h.leads_live hy).2

/-- The walk from the entry ends, with the list of reachable elements. -/
theorem reachEnds_iff (h : g.WellFormed) {result : Except Defect (List ElementId)} :
    g.ReachEnds result ↔ result = g.reachable := by
  cases hentry : g.entry with
  | none => simp only [ReachEnds, reachable, hentry]
  | some start =>
    have hstart := ((h.entry_iff start).mp hentry).mem_ids
    -- visits that put each element behind those before it make the list of the visits
    have hlist : (g.walkFrom start).foldlM (fun met x => pure (met ++ [x])) []
        = (.ok (g.walkFrom start) : Except Defect (List ElementId)) := by
      rw [List.foldlM_pure, List.foldl_append_eq_append, ← List.flatMap_def,
        List.flatMap_singleton', List.nil_append]
      rfl
    simp only [ReachEnds, reachable, hentry]
    rw [loopEnds_iff_walk h.divides_newestFirst (Divides.known_top hstart),
      ← h.walkFrom_eq, ← hlist]
    rfl

/-- The recursive walk from an element ends, and its order is that of the walk. -/
theorem depthFirst_newestFirst (h : g.WellFormed) {x : ElementId} (hx : x ∈ g.ids)
    {order : List ElementId} :
    DepthFirst g.newestFirst [] [x] order ↔ order = g.walkFrom x := by
  rw [depthFirst_iff_walk h.divides_newestFirst (Divides.known_top hx),
    List.nil_append, h.walkFrom_eq]

end WellFormed

/-- The list holds the elements that can be reached from `start`, in the order of the
    recursive walk that follows newer arrows before older ones, and that walk ends. -/
structure InPreorder (g : Graph) (start : ElementId) (order : List ElementId) : Prop where
  recursive : ∀ after, DepthFirst g.newestFirst [] [start] after ↔ after = order
  first : order.head? = some start
  once : order.Nodup
  live : ∀ x ∈ order, ∃ e ∈ g.elements, e.id = x
  mem_iff : ∀ x, x ∈ order ↔ g.Path start x

theorem WellFormed.walkFrom_preorder (h : g.WellFormed) {start : ElementId}
    (hstart : start ∈ g.ids) : g.InPreorder start (g.walkFrom start) where
  recursive := fun _ => h.depthFirst_newestFirst hstart
  first := by
    rw [walkFrom, walk, if_pos hstart]
    rfl
  once := walk_nodup h.ids_nodup
  live := fun x hx => mem_ids.mp (mem_unseen_of_mem_walk hx)
  mem_iff := fun x => h.mem_walkFrom hstart

/-- Whatever edits have led to a drawing with an entry, the walk from the entry ends, and it
    lists just the elements that a path leads to, each once, in the order of the recursive
    walk. -/
theorem ofEdits_reachable {edits : List Edit} {start : ElementId}
    (hentry : (ofEdits edits).entry = some start) :
    ∃ order, (∀ result, (ofEdits edits).ReachEnds result ↔ result = .ok order) ∧
      (ofEdits edits).reachable = .ok order ∧ (ofEdits edits).InPreorder start order := by
  have h := WellFormed.ofEdits edits
  have hstart := ((h.entry_iff start).mp hentry).mem_ids
  have hreachable : (ofEdits edits).reachable = .ok ((ofEdits edits).walkFrom start) := by
    rw [reachable, hentry]
  refine ⟨_, fun result => ?_, hreachable, h.walkFrom_preorder hstart⟩
  rw [h.reachEnds_iff, hreachable]

/-- Elements wait on the stack that are met before their turn: `#3` is pushed for `#1`, which
    has three arrows, and again for `#2`, which is met from `#4`.  There is a cycle, and an
    element that nothing leads to points at the entry. -/
def crossed : List Edit :=
  [.addElement .entry none, .addElement .branch none, .addElement .action none,
   .addElement .action none, .addElement .action none, .addElement .action none,
   .drawArrow ⟨0⟩ ⟨1⟩ none, .drawUnchecked ⟨1⟩ ⟨2⟩ none, .drawUnchecked ⟨1⟩ ⟨3⟩ none,
   .drawUnchecked ⟨1⟩ ⟨4⟩ none, .drawArrow ⟨4⟩ ⟨2⟩ none, .drawArrow ⟨2⟩ ⟨3⟩ none,
   .drawArrow ⟨3⟩ ⟨1⟩ none, .drawUnchecked ⟨5⟩ ⟨0⟩ none]

theorem crossed_preorder :
    (ofEdits crossed).entry = some ⟨0⟩ ∧
      (ofEdits crossed).InPreorder ⟨0⟩ [⟨0⟩, ⟨1⟩, ⟨4⟩, ⟨2⟩, ⟨3⟩] := by
  have hentry : (ofEdits crossed).entry = some ⟨0⟩ := by decide +kernel
  have hreached : (ofEdits crossed).reachable = .ok [⟨0⟩, ⟨1⟩, ⟨4⟩, ⟨2⟩, ⟨3⟩] := by
    decide +kernel
  obtain ⟨order, -, hreachable, hpreorder⟩ := ofEdits_reachable hentry
  rw [hreached] at hreachable
  cases hreachable
  exact ⟨hentry, hpreorder⟩

/-! ## The walk on which routines are written -/

/-- Where the two oldest of the anchored arrows that start at an element lead, that for `yes`
    before that for `no`.  The label of the older arrow tells which it is; without a label it
    is neither, and the other is both. -/
def yesFirst (g : Graph) (x : ElementId) : List ElementId :=
  match (g.arrowsFrom x).filterMap Arrow.pointing with
  | [] => []
  | [only] => [only.1]
  | older :: newer :: _ =>
      match older.2.label with
      | some .yes => [older.1, newer.1]
      | some .no => [newer.1, older.1]
      | none => [newer.1, newer.1]

theorem WellFormed.way_toList (h : g.WellFormed) (x : ElementId) :
    (g.way x).toList = g.yesFirst x := by
  rw [way, yesFirst, ← h.outgoing_eq]
  rcases g.outgoing x with _ | ⟨older, _ | ⟨newer, rest⟩⟩
  · rfl
  · rfl
  · simp only [fork, Way.toList]
    rcases older.2.label with _ | _ | _
    · rfl
    · rfl
    · rfl

/-- The walk from `start` along the ways of elements, which writes the routine of each element
    it meets and counts them, ends with `result`.  Nothing stops it on the way. -/
def EmitEnds (g : Graph) (table : List (ElementId × String)) (start : ElementId)
    (result : Except Empty (String × Nat)) : Prop :=
  LoopEnds (fun x => (g.way x).toList)
    (fun done x => .ok (done.1 ++ (g.routine table x).text, done.2 + 1))
    [] ("", 0) [start] result

/-- The declarations of the routines of some elements, one behind the other. -/
def unitsText (g : Graph) (table : List (ElementId × String)) (order : List ElementId) :
    String :=
  String.join (order.map fun x => (g.routine table x).declaration)

theorem emitEnds_iff {unseen : List ElementId} {table : List (ElementId × String)}
    {start : ElementId} {result : Except Empty (String × Nat)}
    (hdivides : Divides (fun x => (g.way x).toList) unseen []) (hstart : start ∈ unseen) :
    g.EmitEnds table start result ↔
      result = .ok (g.unitsText table (walk (fun x => (g.way x).toList) unseen [start]),
        (walk (fun x => (g.way x).toList) unseen [start]).length) := by
  have hwrite : ∀ order : List ElementId,
      order.foldlM (fun (done : String × Nat) x =>
          pure (done.1 ++ (g.routine table x).text, done.2 + 1)) ("", 0)
        = (.ok (g.unitsText table order, order.length) : Except Empty (String × Nat)) := by
    intro order
    rw [List.foldlM_pure, foldl_write, String.empty_append, Nat.zero_add]
    simp only [Routine.text_eq_declaration]
    rfl
  rw [EmitEnds, loopEnds_iff_walk hdivides (Divides.known_top hstart), ← hwrite]
  rfl

theorem way_of_not_live {x : ElementId} (hx : x ∉ g.ids) : g.way x = .stop := by
  have hnone : g.element? x = none := by
    rw [← contains_iff, contains, Option.not_isSome_iff_eq_none] at hx
    exact hx
  rw [way, outgoing, hnone]

namespace WellFormed

theorem divides_way (h : g.WellFormed) : Divides (fun x => (g.way x).toList) g.ids [] := by
  refine Divides.start h.ids_nodup fun x _ y hy => ?_
  exact (h.leads_live (h.mem_targets.mp (mem_targets_of_way hy))).2

/-- From every start there are finitely many places that no way leads out of: the elements of
    the drawing, or the start alone where it is not one of them. -/
theorem exists_divides_way (h : g.WellFormed) (start : ElementId) :
    ∃ unseen, Divides (fun x => (g.way x).toList) unseen [] ∧ start ∈ unseen ∧
      (start ∈ g.ids → unseen = g.ids) := by
  by_cases hstart : start ∈ g.ids
  · exact ⟨g.ids, h.divides_way, hstart, fun _ => rfl⟩
  · -- a start that is not on the drawing has no arrows, so no way leads on from it
    refine ⟨[start], ?_, List.mem_singleton_self _, fun hlive => absurd hlive hstart⟩
    refine Divides.start (List.nodup_singleton _) fun x hx y hy => ?_
    rw [List.mem_singleton.mp hx, way_of_not_live hstart] at hy
    cases hy

end WellFormed

/-- The routines of a script that starts at `start` are those of the elements in the list, in
    the order of the recursive walk that follows `yes` before `no`. -/
structure EmitsInPreorder (g : Graph) (options : CompileOptions) (start : ElementId)
    (order : List ElementId) : Prop where
  recursive : ∀ after, DepthFirst g.yesFirst [] [start] after ↔ after = order
  /-- The loop ends with the text of these routines and their number. -/
  loop : ∀ result, g.EmitEnds (g.symbols options) start result ↔
    result = .ok (g.unitsText (g.symbols options) order, order.length)
  /-- From an element of the drawing, these are the routines of the script ... -/
  routines : start ∈ g.ids →
    g.routines options start = order.map (g.routine (g.symbols options))
  /-- ... and the text of the script is theirs, between the lines around it. -/
  source : start ∈ g.ids →
    Text.unlines (g.scriptLines options start)
      = Trampoline.preamble ++ g.unitsText (g.symbols options) order
        ++ Trampoline.epilogue options.entrySymbol options.maxIterations

/-- Whatever edits have led to a drawing and wherever its script starts, the loop that writes
    the routines ends, and it writes them in the order of the recursive walk. -/
theorem ofEdits_emitsInPreorder (edits : List Edit) (options : CompileOptions)
    (start : ElementId) :
    ∃ order, (ofEdits edits).EmitsInPreorder options start order := by
  have h := WellFormed.ofEdits edits
  obtain ⟨unseen, hdivides, hstart, hids⟩ := h.exists_divides_way start
  have hroutines : start ∈ (ofEdits edits).ids →
      (ofEdits edits).routines options start
        = (walk (fun x => ((ofEdits edits).way x).toList) unseen [start]).map
            ((ofEdits edits).routine ((ofEdits edits).symbols options)) := by
    intro hlive
    rw [routines, emitted, hids hlive]
  refine ⟨_, fun after => ?_, fun _ => emitEnds_iff hdivides hstart, hroutines, ?_⟩
  · have hnext : (ofEdits edits).yesFirst = fun x => ((ofEdits edits).way x).toList :=
      funext fun x => (h.way_toList x).symm
    rw [hnext, depthFirst_iff_walk hdivides (Divides.known_top hstart), List.nil_append]
  · intro hlive
    rw [unlines_scriptLines_eq, hroutines hlive, List.map_map]
    rfl

end Graph

end Flowchart
