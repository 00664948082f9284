/-
  Flowchart.Proofs.Removal

  Taking an element off a drawing takes the arrows at it off as well, and nothing
  else.  `Graph.Removed` says what is left: the other elements and the arrows that
  do not touch the element, in their order and as they were, except that the lists
  of arrows no longer name what is gone.

  The arrows go in one sweep.  Taking them off one by one, in whatever order, and
  then the element comes to the same drawing (`WellFormed.removed_stepwise`): an
  arrow that is removed leaves the drawing without its number (`after_removeArrow`),
  so a run of removals leaves it without all of theirs (`foldl_removeArrow`).
-/

import Flowchart.Proofs.Arena

namespace Flowchart
namespace Graph

variable {g : Graph}

/-! ## Arrows taken off one by one -/

/-- The drawing without the arrows of these numbers. -/
def withoutArrows (g : Graph) (gone : List ArrowId) : Graph :=
  { g with
    elements := g.elements.map (detach gone)
    arrows := g.arrows.filter fun a => a.id ∉ gone }

theorem detach_nil : detach [] = id := by
  funext e
  rw [detach, id_eq]
  simp

theorem detach_detach (first later : List ArrowId) (e : Element) :
    detach later (detach first e) = detach (first ++ later) e := by
  simp only [detach, List.filter_filter, List.mem_append, not_or, Bool.decide_and, Bool.and_comm]

theorem withoutArrows_ids (g : Graph) (gone : List ArrowId) :
    (g.withoutArrows gone).ids = g.ids := by
  rw [ids, withoutArrows, List.map_map]
  rfl

theorem withoutArrows_nil (g : Graph) : g.withoutArrows [] = g := by
  rw [withoutArrows, detach_nil, List.map_id]
  simp

theorem withoutArrows_append (g : Graph) (first later : List ArrowId) :
    (g.withoutArrows first).withoutArrows later = g.withoutArrows (first ++ later) := by
  have hdetach : detach later ∘ detach first = detach (first ++ later) :=
    funext (detach_detach first later)
  simp only [withoutArrows, List.map_map, hdetach, List.filter_filter, List.mem_append, not_or,
    Bool.decide_and, Bool.and_comm]

namespace WellFormed

/-- Where no arrow has one of the numbers, there is nothing to take off. -/
theorem withoutArrows_eq_self (h : g.WellFormed) {gone : List ArrowId}
    (hnone : ∀ a ∈ g.arrows, a.id ∉ gone) : g.withoutArrows gone = g := by
  have helements : g.elements.map (detach gone) = g.elements := by
    have hself : ∀ e ∈ g.elements, detach gone e = e := fun e he =>
      h.detach_eq_self he fun a ha => hnone a (mem_arrowsFrom.mp ha).1
    rw [List.map_congr_left hself, List.map_id']
  have harrows : (g.arrows.filter fun a => a.id ∉ gone) = g.arrows := by
    rw [List.filter_eq_self]
    exact fun a ha => decide_eq_true (hnone a ha)
  rw [withoutArrows, helements, harrows]

/-- Removing an arrow, if there is one of that number, leaves the drawing without it. -/
theorem after_removeArrow (h : g.WellFormed) (i : ArrowId) :
    g.after (.removeArrow i) = g.withoutArrows [i] := by
  cases hfind : g.arrow? i with
  | none =>
    have hnone : ∀ a ∈ g.arrows, a.id ∉ [i] := by
      intro a ha hid
      rw [h.arrow?_eq_some.mpr ⟨ha, List.mem_singleton.mp hid⟩] at hfind
      cases hfind
    have hrefused : g.apply (.removeArrow i) = .error (.noArrow i) := by
      rw [apply, removeArrow, hfind]
      rfl
    rw [after_of_error hrefused, h.withoutArrows_eq_self hnone]
  | some a =>
    obtain ⟨ha, rfl⟩ := h.arrow?_eq_some.mp hfind
    have hremoved : g.apply (.removeArrow a.id) = .ok (.oldArrow a, g.withoutArrow a) := by
      rw [apply, removeArrow_eq_ok.mpr ⟨a, hfind, rfl⟩]
      rfl
    rw [after_of_ok hremoved]
    show { g with
        elements := (g.withoutArrow a).elements
        arrows := g.arrows.filter fun b => b.id ≠ a.id } = g.withoutArrows [a.id]
    simp only [h.withoutArrow_elements ha, withoutArrows, List.mem_singleton, ne_eq]

/-- Removing arrows one after the other leaves the drawing without all of them. -/
theorem foldl_removeArrow (h : g.WellFormed) (gone : List ArrowId) :
    (gone.map Edit.removeArrow).foldl Graph.after g = g.withoutArrows gone := by
  induction gone generalizing g with
  | nil => exact g.withoutArrows_nil.symm
  | cons i rest ih =>
    rw [List.map_cons, List.foldl_cons, ih (h.after _), h.after_removeArrow, withoutArrows_append,
      List.singleton_append]

/-! ## The element -/

/-- The list of an element names live arrows only, so it matters which of them are gone and not
    how that is said. -/
theorem detach_congr (h : g.WellFormed) {e : Element} (he : e ∈ g.elements)
    {gone gone' : List ArrowId} (hsame : ∀ a ∈ g.arrows, a.id ∈ gone ↔ a.id ∈ gone') :
    detach gone e = detach gone' e := by
  have hlist : (detach gone e).outgoing = (detach gone' e).outgoing := by
    rw [h.detach_outgoing he (p := fun a => decide (a.id ∈ gone')) ?_,
      h.detach_outgoing he (p := fun a => decide (a.id ∈ gone')) ?_]
    · intro a _
      rw [decide_eq_true_eq]
    · intro a ha
      rw [decide_eq_true_eq]
      exact hsame a ha
  show { e with outgoing := (detach gone e).outgoing }
    = { e with outgoing := (detach gone' e).outgoing }
  rw [hlist]

/-- Once the arrows at an element are gone, taking it off comes to what it comes to with them. -/
theorem withoutElement_withoutArrows (h : g.WellFormed) {x : ElementId} {gone : List ArrowId}
    (hgone : ∀ a ∈ g.arrows, a.id ∈ gone ↔ a.touches x = true) :
    (g.withoutArrows gone).withoutElement x = g.withoutElement x := by
  -- no arrow is left at the element, so nothing more is taken off the lists
  have hat : (g.withoutArrows gone).arrowsAt x = [] := by
    rw [arrowsAt, List.map_eq_nil_iff, List.filter_eq_nil_iff]
    intro a ha htouch
    obtain ⟨hmem, hstays⟩ := List.mem_filter.mp ha
    exact of_decide_eq_true hstays ((hgone a hmem).mpr htouch)
  have helements : ((g.withoutArrows gone).elements.filter fun e => e.id ≠ x)
      = (g.elements.filter fun e => e.id ≠ x).map (detach (g.arrowsAt x)) := by
    rw [withoutArrows, List.filter_map]
    refine List.map_congr_left fun e he => h.detach_congr (List.mem_filter.mp he).1 ?_
    intro a ha
    rw [hgone a ha, h.mem_arrowsAt ha]
  have harrows : ((g.withoutArrows gone).arrows.filter fun a => !a.touches x)
      = g.arrows.filter fun a => !a.touches x := by
    rw [withoutArrows, List.filter_filter]
    refine List.filter_congr fun a ha => ?_
    cases htouch : a.touches x with
    | true => rfl
    | false =>
      have hstays : a.id ∉ gone := by
        intro hid
        rw [(hgone a ha).mp hid] at htouch
        cases htouch
      rw [decide_eq_true hstays]
      rfl
  rw [Graph.withoutElement, hat, helements, harrows, detach_nil, List.map_id]
  rfl

end WellFormed

/-! ## What is left -/

/-- The drawing `g'` is `g` without the element `x` and the arrows at it. -/
structure Removed (g : Graph) (x : ElementId) (g' : Graph) : Prop where
  /-- The arrows that stay are those that neither start nor end at `x`, as they were. -/
  arrows : g'.arrows = g.arrows.filter fun a => a.source ≠ x ∧ a.target ≠ some x
  /-- All other elements stay with their numbers, kinds and scripts, and each still lists, in
      the same order, those of its arrows that stay. -/
  elements : g'.elements = (g.elements.filter fun e => e.id ≠ x).map fun e =>
    { e with outgoing := e.outgoing.filter fun i => (g'.arrow? i).isSome }
  /-- The entry is cleared if it was `x` ... -/
  entry_cleared : g.entry = some x → g'.entry = none
  /-- ... and kept if it was not. -/
  entry_kept : g.entry ≠ some x → g'.entry = g.entry
  /-- No number becomes free. -/
  made : g'.elementsMade = g.elementsMade ∧ g'.arrowsMade = g.arrowsMade
  /-- Removing the arrows at `x` one by one, in whatever order, and then `x` comes to the same. -/
  stepwise : ∀ gone : List ArrowId,
    (∀ i, i ∈ gone ↔ ∃ a ∈ g.arrows, a.id = i ∧ (a.source = x ∨ a.target = some x)) →
      (gone.map Edit.removeArrow ++ [Edit.removeElement x]).foldl after g = g'

variable {x : ElementId}

theorem after_removeElement (hx : x ∈ g.ids) :
    g.after (.removeElement x) = g.withoutElement x := by
  obtain ⟨e, he⟩ := Option.isSome_iff_exists.mp (contains_iff.mpr hx)
  have hremoved : g.apply (.removeElement x) = .ok (.oldElement e, g.withoutElement x) := by
    rw [apply, removeElement_eq_ok.mpr ⟨e, he, rfl⟩]
    rfl
  exact after_of_ok hremoved

namespace WellFormed

/-- An arrow is found on the drawing without an element if it does not touch the element. -/
theorem arrow?_withoutElement (h : g.WellFormed) {a : Arrow} (ha : a ∈ g.arrows) :
    ((g.withoutElement x).arrow? a.id).isSome = !a.touches x := by
  have h' := h.withoutElement x
  cases htouch : a.touches x with
  | false =>
    have hstays : a ∈ (g.withoutElement x).arrows :=
      List.mem_filter.mpr ⟨ha, by rw [htouch]; rfl⟩
    rw [h'.arrow?_eq_some.mpr ⟨hstays, rfl⟩]
    rfl
  | true =>
    cases hfind : (g.withoutElement x).arrow? a.id with
    | none => rfl
    | some b =>
      -- it would be the arrow itself, which is gone
      obtain ⟨hb, hid⟩ := h'.arrow?_eq_some.mp hfind
      obtain ⟨hmem, hstays⟩ := List.mem_filter.mp hb
      rw [h.arrow_unique hmem ha hid, htouch] at hstays
      cases hstays

/-- Removing the arrows at an element one by one and then the element leaves the drawing without
    both. -/
theorem removed_stepwise (h : g.WellFormed) (hx : x ∈ g.ids) {gone : List ArrowId}
    (hgone : ∀ i, i ∈ gone ↔ ∃ a ∈ g.arrows, a.id = i ∧ (a.source = x ∨ a.target = some x)) :
    (gone.map Edit.removeArrow ++ [Edit.removeElement x]).foldl Graph.after g
      = g.withoutElement x := by
  have htouches : ∀ a ∈ g.arrows, a.id ∈ gone ↔ a.touches x = true := by
    intro a ha
    rw [hgone, Arrow.touches, decide_eq_true_eq]
    refine ⟨?_, fun htouch => ⟨a, ha, rfl, htouch⟩⟩
    rintro ⟨b, hb, hid, htouch⟩
    rw [← h.arrow_unique hb ha hid]
    exact htouch
  have hlive : x ∈ (g.withoutArrows gone).ids := by
    rw [withoutArrows_ids]
    exact hx
  rw [List.foldl_append, h.foldl_removeArrow, List.foldl_cons, List.foldl_nil,
    after_removeElement hlive, h.withoutElement_withoutArrows htouches]

theorem removed (h : g.WellFormed) (hx : x ∈ g.ids) : g.Removed x (g.withoutElement x) := by
  refine ⟨?_, ?_, ?_, ?_, ⟨rfl, rfl⟩, fun _ => h.removed_stepwise hx⟩
  · refine List.filter_congr fun a _ => ?_
    rw [Arrow.touches, ← decide_not]
    exact decide_eq_decide.mpr not_or
  · refine List.map_congr_left fun e he => ?_
    -- what is listed is a live arrow, and it stays if it is not at `x`
    have hlist : (e.outgoing.filter fun i => i ∉ g.arrowsAt x)
        = e.outgoing.filter fun i => ((g.withoutElement x).arrow? i).isSome := by
      refine List.filter_congr fun i hi => ?_
      rw [h.outgoing_listed e (List.mem_filter.mp he).1] at hi
      obtain ⟨a, ha, rfl⟩ := List.mem_map.mp hi
      have hmem := (mem_arrowsFrom.mp ha).1
      have hat : decide (a.id ∈ g.arrowsAt x) = a.touches x := by
        rw [Bool.eq_iff_iff, decide_eq_true_eq]
        exact h.mem_arrowsAt hmem
      rw [h.arrow?_withoutElement hmem, decide_not, hat]
    rw [detach, hlist]
  · intro hentry
    exact if_pos hentry
  · intro hentry
    exact if_neg hentry

end WellFormed

/-! ## Runs of edits -/

/-- Whatever edits have led to a drawing, removing an element of it gives the element back as it
    was and leaves the drawing without it and the arrows at it.  Removing what is not there is
    refused and changes nothing. -/
theorem ofEdits_removeElement (edits : List Edit) :
    (∀ e ∈ (ofEdits edits).elements, ∃ g', (ofEdits edits).removeElement e.id = .ok (e, g') ∧
      ofEdits (edits ++ [.removeElement e.id]) = g' ∧ (ofEdits edits).Removed e.id g') ∧
    ∀ x, x ∉ (ofEdits edits).ids →
      (ofEdits edits).removeElement x = .error (.noElement x) ∧
        ofEdits (edits ++ [.removeElement x]) = ofEdits edits := by
  have h := WellFormed.ofEdits edits
  refine ⟨fun e he => ?_, fun x hx => ?_⟩
  · have hx : e.id ∈ (ofEdits edits).ids := mem_ids.mpr ⟨e, he, rfl⟩
    refine ⟨(ofEdits edits).withoutElement e.id, ?_, ?_, h.removed hx⟩
    · exact removeElement_eq_ok.mpr ⟨e, h.element?_eq_some.mpr ⟨he, rfl⟩, rfl⟩
    · rw [ofEdits_concat, after_removeElement hx]
  · have hnone : (ofEdits edits).element? x = none := by
      rw [← Option.not_isSome_iff_eq_none]
      exact fun hsome => hx (contains_iff.mp hsome)
    have hrefused : (ofEdits edits).removeElement x = .error (.noElement x) := by
      rw [removeElement, hnone]
    have happly : (ofEdits edits).apply (.removeElement x) = .error (.noElement x) := by
      rw [apply, hrefused]
      rfl
    exact ⟨hrefused, by rw [ofEdits_concat, after_of_error happly]⟩

/-- A branch with an arrow to itself, two arrows to one action, an arrow whose end is loose and so
    more arrows than it has room for; the action leads back to it. -/
def overdrawn : List Edit :=
  [.addElement .entry none, .addElement .branch (some "return ready;"),
   .addElement .action (some "go();"), .beginArrow ⟨1⟩ none, .drawArrow ⟨0⟩ ⟨1⟩ none,
   .drawUnchecked ⟨1⟩ ⟨1⟩ (some .no), .drawUnchecked ⟨1⟩ ⟨2⟩ (some .yes),
   .drawUnchecked ⟨1⟩ ⟨2⟩ none, .drawUnchecked ⟨2⟩ ⟨1⟩ none, .drawUnchecked ⟨2⟩ ⟨0⟩ none]

/-- The branch of that drawing. -/
def overdrawnBranch : Element :=
  { id := ⟨1⟩, kind := .branch, script := some "return ready;",
    outgoing := [⟨0⟩, ⟨2⟩, ⟨3⟩, ⟨4⟩] }

/-- Without the branch, one arrow is left of seven, and the list of the action names it alone. -/
theorem overdrawn_removed :
    overdrawnBranch ∈ (ofEdits overdrawn).elements ∧ (∃ g',
      (ofEdits overdrawn).removeElement ⟨1⟩ = .ok (overdrawnBranch, g') ∧
        g'.arrows = [{ id := ⟨6⟩, source := ⟨2⟩, target := some ⟨0⟩, label := none }] ∧
          g'.elements.map Element.outgoing = [[], [⟨6⟩]] ∧ (ofEdits overdrawn).Removed ⟨1⟩ g') ∧
      (⟨3⟩ : ElementId) ∉ (ofEdits overdrawn).ids ∧
        (ofEdits overdrawn).removeElement ⟨3⟩ = .error (.noElement ⟨3⟩) := by
  have hbranch : overdrawnBranch ∈ (ofEdits overdrawn).elements := by decide +kernel
  have hthird : (⟨3⟩ : ElementId) ∉ (ofEdits overdrawn).ids := by decide +kernel
  obtain ⟨hlive, hgone⟩ := ofEdits_removeElement overdrawn
  obtain ⟨g', hremoved, rfl, hleft⟩ := hlive overdrawnBranch hbranch
  exact ⟨hbranch, ⟨_, hremoved, by decide +kernel, by decide +kernel, hleft⟩, hthird,
    (hgone ⟨3⟩ hthird).1⟩

end Graph
end Flowchart
