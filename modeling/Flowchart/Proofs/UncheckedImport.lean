/-
  Flowchart.Proofs.UncheckedImport

  What a report without defects says of a diagram that was made without the
  rules for arrows.  Of the three rules the report asks two: no element has too
  many arrows and none points at the entry.  They hold on a drawing before an
  arrow is placed if they hold after (`checkLimits_drawn_iff`), so of the arrows
  of such a diagram none is refused for these two (`placeArrows_refused`).

  A loop that runs through branches only breaks the third rule and no report
  tells of it: a definition can make a diagram without defects and be refused
  under the rules.
-/

import Flowchart.Proofs.Import

namespace Flowchart

namespace Graph

variable {g : Graph}

/-! ## Limits -/

theorem defectOf_eq_nil {α : Type} {check : Except Defect α} :
    defectOf check = [] ↔ ∃ a, check = .ok a := by
  cases check with
  | error defect => simp [defectOf]
  | ok a => simp [defectOf]

/-- A report without defects has found the limits on arrows kept. -/
theorem checkLimits_of_report (h : g.report = []) : g.checkLimits = .ok () := by
  simp only [report, List.append_eq_nil_iff, defectOf_eq_nil] at h
  obtain ⟨⟨⟨⟨-, ⟨⟩, hlimits⟩, -⟩, -⟩, -⟩ := h
  exact hlimits

/-- An arrow drawn to an element leaves the limits kept just when there is room for it and it
    does not point at the entry. -/
theorem WellFormed.checkLimits_drawn_iff (h : g.WellFormed) {source target : ElementId}
    {label : Option Label} (h' : (g.withArrow source (some target) label).WellFormed) :
    (g.withArrow source (some target) label).checkLimits = .ok () ↔
      g.checkLimits = .ok () ∧ g.checkRoom source = .ok () ∧ ¬ g.HasKind target .entry := by
  rw [h'.checkLimits_eq_ok, h.checkLimits_eq_ok, h.capacity_withArrow_iff]
  simp only [hasKind_withArrow, leads_withArrow]
  refine ⟨?_, ?_⟩
  · rintro ⟨⟨hcap, hroom⟩, hfree⟩
    refine ⟨⟨hcap, fun x y hl => hfree x y (Or.inl hl)⟩, hroom, ?_⟩
    exact hfree source target (Or.inr ⟨rfl, rfl⟩)
  · rintro ⟨⟨hcap, hfree⟩, hroom, htarget⟩
    refine ⟨⟨hcap, hroom⟩, ?_⟩
    rintro x y (hl | ⟨-, heq⟩)
    · exact hfree x y hl
    · rw [← Option.some.inj heq]
      exact htarget

/-! ## Refusals -/

/-- Where there is room and the target is not the entry, an arrow between two elements is
    refused only for the loop it closes. -/
theorem drawArrow_refused {source target : ElementId} {label : Option Label} {refusal : Refusal}
    (hs : source ∈ g.ids) (ht : target ∈ g.ids) (hroom : g.checkRoom source = .ok ())
    (hentry : g.entry ≠ some target) (h : g.drawArrow source target label = .error refusal) :
    refusal = .broken (.branchLoop source target) := by
  -- the guards before the last one let the arrow through
  rw [drawArrow, requireElement_of_mem hs, requireElement_of_mem ht,
    checkArrow_of_room hroom] at h
  simp only [checkTarget, if_neg hentry, checkLoop] at h
  split at h
  · cases h
    rfl
  · cases h

end Graph

/-! ## Arrows of a definition -/

variable {keys : KeyTable} {g g' : Graph} {error : ImportError}

theorem placeArrow_unchecked_of_checked {spec : ArrowSpec}
    (h : placeArrow true keys g spec = .ok g') : placeArrow false keys g spec = .ok g' := by
  obtain ⟨source, target, a, hs, ht, hdrawn⟩ := placeArrow_eq_ok.mp h
  exact placeArrow_eq_ok.mpr ⟨source, target, a, hs, ht, (Graph.drawArrow_eq_ok.mp hdrawn).1⟩

/-- The limits are kept before arrows are placed if they are kept after. -/
theorem checkLimits_of_placeArrows {specs : List ArrowSpec} (hp : Placed keys g)
    (h : placeArrows false keys g specs = .ok g') (hlimits : g'.checkLimits = .ok ()) :
    g.checkLimits = .ok () :=
  holds_before_placeArrows (P := fun g => g.checkLimits = .ok ())
    (fun _ _ _ _ hwf hwf' hdrawn => ((hwf.checkLimits_drawn_iff hwf').mp hdrawn).1) hp h hlimits

/-- An arrow that leaves the limits kept is refused only for the loop it closes. -/
theorem placeArrow_refused {spec : ArrowSpec} (hp : Placed keys g)
    (hfree : placeArrow false keys g spec = .ok g') (hlimits : g'.checkLimits = .ok ())
    (h : placeArrow true keys g spec = .error error) :
    ∃ source target, error = .refused spec.text (.broken (.branchLoop source target)) := by
  have hp' := hp.placeArrow hfree
  obtain ⟨source, target, hs, ht, rfl⟩ := (placeArrow_unchecked_iff hp).mp hfree
  obtain ⟨-, hroom, htarget⟩ :=
    (hp.wellFormed.checkLimits_drawn_iff hp'.wellFormed).mp hlimits
  refine ⟨source, target, ?_⟩
  -- both keys are known, so what is left of placing the arrow is drawing it
  rw [placeArrow, ArrowSpec.resolve_eq_ok.mpr hs, ArrowSpec.resolve_eq_ok.mpr ht] at h
  cases hdrawn : g.drawArrow source target spec.label with
  | ok r =>
    simp only [bind, Except.bind, if_true, hdrawn] at h
    cases h
  | error refusal =>
    simp only [bind, Except.bind, if_true, hdrawn, Except.error.injEq] at h
    rw [← h, Graph.drawArrow_refused (hp.keys_live _ _ hs) (hp.keys_live _ _ ht) hroom
      (fun hentry => htarget ((hp.wellFormed.entry_iff target).mp hentry)) hdrawn]

/-- Of arrows that leave the limits kept, the first that is refused closes a loop. -/
theorem placeArrows_refused {specs : List ArrowSpec} (hp : Placed keys g)
    (hfree : placeArrows false keys g specs = .ok g') (hlimits : g'.checkLimits = .ok ())
    (h : placeArrows true keys g specs = .error error) :
    ∃ spec ∈ specs, ∃ source target,
      error = .refused spec.text (.broken (.branchLoop source target)) := by
  induction specs generalizing g with
  | nil => cases h
  | cons spec rest ih =>
    obtain ⟨after, hone, hrest⟩ := placeArrows_cons_eq_ok.mp hfree
    have hp' := hp.placeArrow hone
    rw [placeArrows] at h
    cases hchecked : placeArrow true keys g spec with
    | error e =>
      rw [hchecked] at h
      cases h
      have hbetween := checkLimits_of_placeArrows hp' hrest hlimits
      exact ⟨spec, List.mem_cons_self, placeArrow_refused hp hone hbetween hchecked⟩
    | ok drawn =>
      rw [hchecked] at h
      -- both ways lead to the same drawing, so the rest is refused from there
      have hsame := placeArrow_unchecked_of_checked hchecked
      rw [hone] at hsame
      cases hsame
      obtain ⟨other, hother, hloop⟩ := ih hp' hrest h
      exact ⟨other, List.mem_cons_of_mem _ hother, hloop⟩

/-! ## Diagrams without defects -/

namespace Definition

/-- A definition that makes a diagram without defects when the rules for arrows are not asked
    makes the same diagram under the rules, unless arrows between branches close a loop.  Then
    it is refused for that loop. -/
theorem build_of_clean_report {d : Definition} {diagram : Diagram}
    (hfree : d.buildUnchecked = .ok diagram) (hclean : diagram.graph.report = []) :
    (diagram.graph.LoopFree → d.build = .ok diagram) ∧
      (¬ diagram.graph.LoopFree → ∃ spec ∈ d.arrows, ∃ source target,
        d.build = .error (.refused spec.text (.broken (.branchLoop source target)))) := by
  obtain ⟨keys, g, graph, hplace, harrows, rfl⟩ := buildWith_eq_ok.mp hfree
  obtain ⟨hp, hr⟩ := placed hplace
  have hwf := (hp.placeArrows harrows).wellFormed
  have hlimits : graph.checkLimits = .ok () := Graph.checkLimits_of_report hclean
  refine ⟨?_, ?_⟩
  · intro hloop
    have hrules := hwf.arrowRules_iff.mpr ⟨hlimits, hloop⟩
    exact buildWith_eq_ok.mpr
      ⟨keys, g, graph, hplace, (placeArrows_checked_iff hp hr).mpr ⟨harrows, hrules⟩, rfl⟩
  · intro hloop
    rw [build, buildWith, hplace]
    cases hchecked : placeArrows true keys g d.arrows with
    | ok graph' =>
      -- under the rules the drawing would be the same, and free of loops
      obtain ⟨hsame, hrules⟩ := (placeArrows_checked_iff hp hr).mp hchecked
      rw [harrows] at hsame
      cases hsame
      exact absurd hrules.loopFree hloop
    | error e =>
      obtain ⟨spec, hspec, source, target, rfl⟩ :=
        placeArrows_refused hp harrows hlimits hchecked
      refine ⟨spec, hspec, source, target, ?_⟩
      simp only [bind, Except.bind, hchecked]

/-- What gives a result that passes a test gives a result. -/
theorem exists_ok_of_any {ε α : Type} {result : Except ε α} {test : α → Bool}
    (h : result.toOption.any test = true) : ∃ a, result = .ok a ∧ test a = true := by
  cases result with
  | error e => cases h
  | ok a => exact ⟨a, rfl, h⟩

/-- Two branches ask in turn until the second says no.  The arrow between them leads one way
    only, and from the second a path through an action leads back. -/
def askedAgain : Definition :=
  { elements :=
      [{ key := "start", kind := .entry }, { key := "open", kind := .branch, script := some "o" },
       { key := "full", kind := .branch, script := some "f" },
       { key := "wait", script := some "w" }, { key := "go", script := some "g" }]
    arrows :=
      [{ source := "start", target := "open" },
       { source := "open", target := "full", label := some .yes },
       { source := "open", target := "wait", label := some .no },
       { source := "full", target := "go", label := some .no },
       { source := "full", target := "wait", label := some .yes },
       { source := "wait", target := "open" }] }

theorem askedAgain_built :
    ∃ diagram, askedAgain.buildUnchecked = .ok diagram ∧ diagram.graph.report = [] ∧
      diagram.graph.LoopFree ∧ askedAgain.build = .ok diagram := by
  have hbuilds : askedAgain.build.toOption.isSome = true := by decide +kernel
  obtain ⟨diagram, hfree, hreport⟩ : ∃ diagram, askedAgain.buildUnchecked = .ok diagram ∧
      decide (diagram.graph.report = []) = true := exists_ok_of_any (by decide +kernel)
  have hclean := of_decide_eq_true hreport
  obtain ⟨hbuilt, hrefused⟩ := build_of_clean_report hfree hclean
  -- it is not refused, so there is no loop of branches
  have hloop : diagram.graph.LoopFree := by
    by_contra hno
    obtain ⟨spec, -, source, target, herror⟩ := hrefused hno
    rw [herror] at hbuilds
    cases hbuilds
  exact ⟨diagram, hfree, hclean, hloop, hbuilt hloop⟩

/-- Two branches that lead to each other, with a way out of each. -/
def twinBranches : Definition :=
  { elements :=
      [{ key := "start", kind := .entry }, { key := "left", kind := .branch, script := some "l" },
       { key := "right", kind := .branch, script := some "r" }, { key := "go", script := some "g" }]
    arrows :=
      [{ source := "start", target := "left" },
       { source := "left", target := "right", label := some .yes },
       { source := "left", target := "go", label := some .no },
       { source := "right", target := "left", label := some .yes },
       { source := "right", target := "go", label := some .no }] }

/-- A definition makes a diagram without defects when the rules for arrows are not asked, and is
    refused under the rules. -/
theorem twinBranches_unreported :
    (∃ diagram, twinBranches.buildUnchecked = .ok diagram ∧ diagram.graph.report = []) ∧
      twinBranches.build
        = .error (.refused "right -> left" (.broken (.branchLoop ⟨2⟩ ⟨1⟩))) := by
  obtain ⟨diagram, hfree, hreport⟩ : ∃ diagram, twinBranches.buildUnchecked = .ok diagram ∧
      decide (diagram.graph.report = []) = true := exists_ok_of_any (by decide +kernel)
  exact ⟨⟨diagram, hfree, of_decide_eq_true hreport⟩, by decide +kernel⟩

end Definition

end Flowchart
