/-
  Flowchart.Proofs.TwoSteps

  An arrow can be drawn at once, or it can be begun and its loose end dropped on
  an element later.  The two ways ask the same questions of different drawings:
  the second asks about the target where the loose arrow already stands.  As a
  loose end changes no answer (`Alike`), the questions have the same answers, and
  dropping the end gives the arrow that is drawn at once (`withTarget_begun`).  So
  once an arrow has been begun, drawing it at once comes to what dropping its end
  comes to, be it a drawing or a refusal (`drawArrow_of_begun`).

  The questions come in another order, which shows where an arrow cannot even be
  begun: drawn at once, it misses its target before it finds its source full.
-/

import Flowchart.Proofs.LooseEnds

namespace Flowchart
namespace Graph

variable {g : Graph}

/-! ## The loose arrow -/

namespace WellFormed

variable {source : ElementId} (label : Option Label)

/-- The arrow that has just been begun is found under the number it was given. -/
theorem arrow?_begun (h : g.WellFormed) (hs : source ∈ g.ids) :
    (g.withArrow source none label).arrow? ⟨g.arrowsMade⟩
      = some { id := ⟨g.arrowsMade⟩, source, target := none, label } := by
  have h' : (g.withArrow source none label).WellFormed :=
    h.withArrow label hs fun x hx => by cases hx
  refine h'.arrow?_eq_some.mpr ⟨?_, rfl⟩
  rw [withArrow_arrows]
  exact List.mem_append_right _ (List.mem_singleton_self _)

/-- Dropping the end of the arrow that has just been begun gives the drawing on which it is
    drawn at once. -/
theorem withTarget_begun (h : g.WellFormed) (source target : ElementId) :
    (g.withArrow source none label).withTarget ⟨g.arrowsMade⟩ target
      = g.withArrow source (some target) label := by
  -- the number is new, so the older arrows keep their ends
  have hold : ∀ a ∈ g.arrows,
      (if a.id = ⟨g.arrowsMade⟩ then { a with target := some target } else a) = a := by
    intro a ha
    have hlt := h.arrows_made a ha
    have hne : a.id ≠ ⟨g.arrowsMade⟩ := by
      intro hid
      rw [hid] at hlt
      exact Nat.lt_irrefl _ hlt
    rw [if_neg hne]
  have harrows : ((g.withArrow source none label).withTarget ⟨g.arrowsMade⟩ target).arrows
      = (g.withArrow source (some target) label).arrows := by
    show (g.withArrow source none label).arrows.map _ = _
    rw [withArrow_arrows, withArrow_arrows, List.map_append, List.map_congr_left hold,
      List.map_id', List.map_singleton, if_pos rfl]
  show { g.withArrow source none label with
      arrows := ((g.withArrow source none label).withTarget ⟨g.arrowsMade⟩ target).arrows } = _
  rw [harrows]
  rfl

/-- What is asked about the target is answered as before the arrow was begun. -/
theorem checkTarget_begun (h : g.WellFormed) (hs : source ∈ g.ids) (target : ElementId) :
    (g.withArrow source none label).checkTarget source target = g.checkTarget source target := by
  have halike := h.alike_begun label hs
  rw [checkTarget, checkTarget, halike.entry, halike.checkLoop]

/-- The end of the arrow that has just been begun is dropped on an element under the guards that
    would be asked before it is begun. -/
theorem anchorArrow_begun (h : g.WellFormed) (hs : source ∈ g.ids) (target : ElementId) :
    (g.withArrow source none label).anchorArrow ⟨g.arrowsMade⟩ target = (do
      g.requireElement target
      requireRule (g.checkTarget source target)
      return g.withArrow source (some target) label) := by
  have hloose : ¬ Arrow.isAnchored { id := ⟨g.arrowsMade⟩, source, target := none, label } :=
    Bool.false_ne_true
  have hlive : (g.withArrow source none label).requireElement target
      = g.requireElement target := by
    by_cases ht : target ∈ g.ids
    · have ht' : target ∈ (g.withArrow source none label).ids := by
        rw [withArrow_ids]
        exact ht
      rw [requireElement_of_mem ht, requireElement_of_mem ht']
    · have ht' : target ∉ (g.withArrow source none label).ids := by
        rw [withArrow_ids]
        exact ht
      rw [requireElement_of_not_mem ht, requireElement_of_not_mem ht']
  rw [anchorArrow, h.arrow?_begun label hs]
  show (if _ then _ else _) = _
  rw [if_neg hloose, hlive, h.checkTarget_begun label hs]
  show (do
      g.requireElement target
      requireRule (g.checkTarget source target)
      return (g.withArrow source none label).withTarget ⟨g.arrowsMade⟩ target) = _
  rw [h.withTarget_begun label]

/-! ## Drawing at once -/

/-- Once an arrow has been begun, drawing it at once comes to what dropping its end comes to. -/
theorem drawArrow_of_begun (h : g.WellFormed) {a : ArrowId} {begun : Graph}
    (hbegun : g.beginArrow source label = .ok (a, begun)) (target : ElementId) :
    g.drawArrow source target label
      = (begun.anchorArrow a target).map fun drawn => (a, drawn) := by
  obtain ⟨hs, hroom, heq⟩ := beginArrow_eq_ok.mp hbegun
  obtain ⟨rfl, rfl⟩ := Prod.mk.inj heq
  rw [h.anchorArrow_begun label hs, drawArrow, requireElement_of_mem hs, checkArrow_of_room hroom]
  -- the same two guards are left on both sides
  cases g.requireElement target with
  | error refusal => rfl
  | ok _ =>
    cases requireRule (g.checkTarget source target) with
    | error refusal => rfl
    | ok _ => rfl

end WellFormed

/-- An arrow that cannot be begun cannot be drawn at once either.  The reason is the same, unless
    its target is missed first. -/
theorem drawArrow_of_not_begun {source target : ElementId} {label : Option Label}
    {refusal : Refusal} (hrefused : g.beginArrow source label = .error refusal) :
    g.drawArrow source target label
      = .error (if source ∈ g.ids ∧ target ∉ g.ids then .noElement target else refusal) := by
  by_cases hs : source ∈ g.ids
  · by_cases ht : target ∈ g.ids
    · -- nothing is missing, so the source is full
      rw [if_neg (fun hmiss => hmiss.2 ht)]
      rw [beginArrow, requireElement_of_mem hs] at hrefused
      rw [drawArrow, requireElement_of_mem hs, requireElement_of_mem ht, checkArrow]
      cases hroom : g.checkRoom source with
      | error defect =>
        rw [hroom] at hrefused
        exact hrefused
      | ok _ =>
        rw [hroom] at hrefused
        cases hrefused
    · rw [if_pos ⟨hs, ht⟩, drawArrow, requireElement_of_mem hs, requireElement_of_not_mem ht]
      rfl
  · rw [if_neg (fun hmiss => hs hmiss.1)]
    rw [beginArrow, requireElement_of_not_mem hs] at hrefused
    rw [drawArrow, requireElement_of_not_mem hs]
    exact hrefused

/-! ## Runs of edits -/

/-- Whatever edits have led to a drawing, an arrow is drawn at once just when it can be begun and
    its end be dropped on the target, and the two ways lead to the same drawing.  Where the end
    cannot be dropped, drawing at once is refused for the same reason, and the arrow stays as it
    was begun.  Where the arrow cannot be begun, drawing at once is refused, for the same reason
    unless the target is missed first. -/
theorem ofEdits_drawnInTwoSteps (edits : List Edit) (source target : ElementId)
    (label : Option Label) :
    (∀ a drawn, (ofEdits edits).drawArrow source target label = .ok (a, drawn) ↔
      ∃ begun, (ofEdits edits).beginArrow source label = .ok (a, begun) ∧
        begun.anchorArrow a target = .ok drawn) ∧
    (∀ a begun refusal, (ofEdits edits).beginArrow source label = .ok (a, begun) →
      begun.anchorArrow a target = .error refusal →
        (ofEdits edits).drawArrow source target label = .error refusal ∧
          ofEdits (edits ++ [.beginArrow source label, .anchorArrow a target]) = begun) ∧
    ∀ refusal, (ofEdits edits).beginArrow source label = .error refusal →
      (ofEdits edits).drawArrow source target label
        = .error (if source ∈ (ofEdits edits).ids ∧ target ∉ (ofEdits edits).ids then
            .noElement target else refusal) := by
  have h := WellFormed.ofEdits edits
  refine ⟨fun a drawn => ⟨fun hdrawn => ?_, ?_⟩, ?_, fun _ => drawArrow_of_not_begun⟩
  · -- what lets the arrow be drawn lets it be begun
    obtain ⟨hfree, hroom, -⟩ := drawArrow_eq_ok.mp hdrawn
    obtain ⟨hs, -, heq⟩ := drawUnchecked_eq_ok.mp hfree
    have hbegun : (ofEdits edits).beginArrow source label
        = .ok (a, (ofEdits edits).withArrow source none label) :=
      beginArrow_eq_ok.mpr ⟨hs, hroom, by rw [(Prod.mk.inj heq).1]⟩
    rw [h.drawArrow_of_begun label hbegun] at hdrawn
    refine ⟨_, hbegun, ?_⟩
    cases hanchor : ((ofEdits edits).withArrow source none label).anchorArrow a target with
    | error refusal =>
      rw [hanchor] at hdrawn
      cases hdrawn
    | ok _ =>
      rw [hanchor] at hdrawn
      cases hdrawn
      rfl
  · rintro ⟨begun, hbegun, hanchor⟩
    rw [h.drawArrow_of_begun label hbegun, hanchor]
    rfl
  · intro a begun refusal hbegun hanchor
    have hbegin : (ofEdits edits).apply (.beginArrow source label) = .ok (.newArrow a, begun) := by
      rw [apply, hbegun]
      rfl
    have hrefused : begun.apply (.anchorArrow a target) = .error refusal := by
      rw [apply, hanchor]
      rfl
    refine ⟨?_, ?_⟩
    · rw [h.drawArrow_of_begun label hbegun, hanchor]
      rfl
    · rw [← List.singleton_append, ← List.append_assoc, ofEdits_concat, ofEdits_concat,
        after_of_ok hbegin, after_of_error hrefused]

/-- Two branches, the first of which leads to the second, and an action. -/
def askedInTurn : List Edit :=
  [.addElement .entry none, .addElement .branch (some "return open;"),
   .addElement .branch (some "return full;"), .addElement .action (some "go();"),
   .drawArrow ⟨0⟩ ⟨1⟩ none, .drawArrow ⟨1⟩ ⟨2⟩ (some .yes)]

/-- An arrow from the second branch can be begun; dropped on the action it is drawn, dropped on
    the first branch it is refused. -/
theorem askedInTurn_drawnInTwoSteps :
    ∃ begun, (ofEdits askedInTurn).beginArrow ⟨2⟩ (some .no) = .ok (⟨2⟩, begun) ∧
      (∃ drawn, begun.anchorArrow ⟨2⟩ ⟨3⟩ = .ok drawn ∧
        (ofEdits askedInTurn).drawArrow ⟨2⟩ ⟨3⟩ (some .no) = .ok (⟨2⟩, drawn)) ∧
      begun.anchorArrow ⟨2⟩ ⟨1⟩ = .error (.broken (.branchLoop ⟨2⟩ ⟨1⟩)) ∧
        (ofEdits askedInTurn).drawArrow ⟨2⟩ ⟨1⟩ (some .no)
          = .error (.broken (.branchLoop ⟨2⟩ ⟨1⟩)) := by
  have hbegun : (ofEdits askedInTurn).beginArrow ⟨2⟩ (some .no)
      = .ok (⟨2⟩, (ofEdits askedInTurn).withArrow ⟨2⟩ none (some .no)) := by decide +kernel
  have hanchor : ((ofEdits askedInTurn).withArrow ⟨2⟩ none (some .no)).anchorArrow ⟨2⟩ ⟨3⟩
      = .ok ((ofEdits askedInTurn).withArrow ⟨2⟩ (some ⟨3⟩) (some .no)) := by decide +kernel
  have hrefused : ((ofEdits askedInTurn).withArrow ⟨2⟩ none (some .no)).anchorArrow ⟨2⟩ ⟨1⟩
      = .error (.broken (.branchLoop ⟨2⟩ ⟨1⟩)) := by decide +kernel
  obtain ⟨hdrawn, -⟩ := ofEdits_drawnInTwoSteps askedInTurn ⟨2⟩ ⟨3⟩ (some .no)
  obtain ⟨-, hsame, -⟩ := ofEdits_drawnInTwoSteps askedInTurn ⟨2⟩ ⟨1⟩ (some .no)
  exact ⟨_, hbegun, ⟨_, hanchor, (hdrawn _ _).mpr ⟨_, hbegun, hanchor⟩⟩, hrefused,
    (hsame _ _ _ hbegun hrefused).1⟩

end Graph
end Flowchart
