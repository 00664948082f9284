/-
  Flowchart.Proofs.Flow

  The flow through a drawing, said by its arrows.  From an element that is no
  branch the flow goes along any anchored arrow; from a branch it goes along an
  arrow that carries the label of the outcome.  Once a drawing has passed the
  inspection there is no choice left (`follows_iff`): the flow goes where the
  way of the element leads, and so the places of a flow are given by the
  outcomes (`flow_none_iff`, `flow_some_iff`).
-/

import Flowchart.Proofs.ArrowRules
import Flowchart.Way

namespace Flowchart

/-- The label of the arrow that stands for an outcome. -/
def Label.ofOutcome : Bool → Label
  | true => .yes
  | false => .no

/-- Where a way leads on an outcome. -/
def Way.follow {α : Type} (outcome : Bool) : Way α → Option α
  | .stop => none
  | .next place => some place
  | .fork yes no => some (if outcome then yes else no)

theorem Way.follow_map {α β : Type} (f : α → β) (outcome : Bool) (way : Way α) :
    (way.map f).follow outcome = (way.follow outcome).map f := by
  cases way with
  | stop => rfl
  | next place => rfl
  | fork yes no => cases outcome <;> rfl

theorem Way.mem_toList_of_follow {α : Type} {outcome : Bool} {way : Way α} {place : α}
    (h : way.follow outcome = some place) : place ∈ way.toList := by
  cases way with
  | stop => cases h
  | next next =>
    cases h
    exact List.mem_cons_self
  | fork yes no =>
    cases outcome with
    | false =>
      cases h
      exact List.mem_cons_of_mem _ List.mem_cons_self
    | true =>
      cases h
      exact List.mem_cons_self

namespace Graph

/-! ## The flow -/

/-- The flow can go from `x` to `y` on an outcome of `x`. -/
def Follows (g : Graph) (outcome : Bool) (x y : ElementId) : Prop :=
  ∃ a ∈ g.arrows, a.source = x ∧ a.target = some y ∧
    (g.HasKind x .branch → a.label = some (.ofOutcome outcome))

/-- The places of a flow that starts at an element, as long as there are outcomes. -/
inductive Flow (g : Graph) : List Bool → ElementId → List ElementId → Prop where
  /-- There is no outcome left. -/
  | pause (x : ElementId) : Flow g [] x []
  /-- There is nowhere to go. -/
  | rest {outcome : Bool} {outcomes : List Bool} {x : ElementId} :
      (∀ y, ¬ g.Follows outcome x y) → Flow g (outcome :: outcomes) x [x]
  /-- The flow goes on. -/
  | step {outcome : Bool} {outcomes : List Bool} {x y : ElementId} {places : List ElementId} :
      g.Follows outcome x y → Flow g outcomes y places →
        Flow g (outcome :: outcomes) x (x :: places)

theorem flow_nil_iff {g : Graph} {x : ElementId} {places : List ElementId} :
    g.Flow [] x places ↔ places = [] := by
  refine ⟨?_, ?_⟩
  · intro h
    cases h
    rfl
  · rintro rfl
    exact .pause x

/-- A flow that has nowhere to go has one place. -/
theorem flow_none_iff {g : Graph} {outcome : Bool} {outcomes : List Bool} {x : ElementId}
    {places : List ElementId} (hnone : ∀ y, ¬ g.Follows outcome x y) :
    g.Flow (outcome :: outcomes) x places ↔ places = [x] := by
  refine ⟨?_, ?_⟩
  · intro h
    cases h with
    | rest _ => rfl
    | step hfollows _ => exact absurd hfollows (hnone _)
  · rintro rfl
    exact .rest hnone

/-- A flow that can go to one element only goes on from there. -/
theorem flow_some_iff {g : Graph} {outcome : Bool} {outcomes : List Bool} {x y : ElementId}
    {places : List ElementId} (hone : ∀ z, g.Follows outcome x z ↔ z = y) :
    g.Flow (outcome :: outcomes) x places ↔
      ∃ after, places = x :: after ∧ g.Flow outcomes y after := by
  refine ⟨?_, ?_⟩
  · intro h
    cases h with
    | rest hnone => exact absurd ((hone y).mpr rfl) (hnone y)
    | step hfollows hafter =>
      rw [(hone _).mp hfollows] at hafter
      exact ⟨_, rfl, hafter⟩
  · rintro ⟨after, rfl, hafter⟩
    exact .step ((hone y).mpr rfl) hafter

/-! ## What the inspection has asked for -/

theorem inspect_eq_ok {g : Graph} :
    g.inspect = .ok () ↔
      (∃ x, g.checkEntry = .ok x) ∧ g.checkLimits = .ok () ∧ g.checkReachability = .ok () ∧
        g.checkScripts = .ok () ∧ g.checkLabels = .ok () := by
  rw [inspect]
  simp only [bind_eq_ok]
  refine ⟨?_, ?_⟩
  · rintro ⟨x, hentry, ⟨⟩, hlimits, ⟨⟩, hreach, ⟨⟩, hscripts, hlabels⟩
    exact ⟨⟨x, hentry⟩, hlimits, hreach, hscripts, hlabels⟩
  · rintro ⟨⟨x, hentry⟩, hlimits, hreach, hscripts, hlabels⟩
    exact ⟨x, hentry, (), hlimits, (), hreach, (), hscripts, hlabels⟩

theorem checkEntry_eq_ok {g : Graph} {x : ElementId} :
    g.checkEntry = .ok x ↔ g.entry = some x ∧ (g.outgoing x).length ≤ 1 := by
  rw [checkEntry]
  cases g.entry with
  | none => simp
  | some y =>
    by_cases hmany : 1 < (g.outgoing y).length
    · simp only [hmany, if_true, Option.some.injEq, reduceCtorEq, false_iff, not_and]
      rintro rfl
      omega
    · simp only [hmany, if_false, Except.ok.injEq, Option.some.injEq]
      refine ⟨fun hy => ⟨hy, ?_⟩, fun h => h.1⟩
      rw [← hy]
      omega

theorem refuseFirst_eq_ok {defect : ElementId → Defect} {missed : List ElementId} :
    refuseFirst defect missed = .ok () ↔ missed = [] := by
  cases missed with
  | nil => simp [refuseFirst]
  | cons x rest => simp [refuseFirst]

theorem checkLabels_eq_ok {g : Graph} :
    g.checkLabels = .ok () ↔ ∀ x, g.HasKind x .branch → g.hasBothArms x = true := by
  rw [checkLabels, refuseFirst_eq_ok, unlabelled, List.map_eq_nil_iff, List.filter_eq_nil_iff]
  refine ⟨?_, ?_⟩
  · rintro h x ⟨e, he, rfl, hk⟩
    simpa [hk] using h e he
  · intro h e he
    by_cases hk : e.kind = .branch
    · simp [h e.id ⟨e, he, rfl, hk⟩]
    · simp [hk]

/-- Two arrows leave the element, one for each outcome, and either may be the older one. -/
theorem hasBothArms_iff {g : Graph} {x : ElementId} :
    g.hasBothArms x = true ↔
      ∃ yes no : ElementId × Arrow, yes.2.label = some .yes ∧ no.2.label = some .no ∧
        (g.outgoing x = [yes, no] ∨ g.outgoing x = [no, yes]) := by
  rw [hasBothArms]
  refine ⟨?_, ?_⟩
  · intro h
    obtain ⟨hlen, hyes, hno⟩ := of_decide_eq_true h
    obtain ⟨p, q, hpq⟩ := List.length_eq_two.mp hlen
    rw [hpq] at hyes hno ⊢
    simp only [countLabel, List.countP_cons, List.countP_nil, decide_eq_true_eq] at hyes hno
    -- the labels are counted, so which of the two arrows has which is found by trying one
    by_cases hp : p.2.label = some .yes
    · have hq : q.2.label = some .no := by
        by_contra hq
        simp [hp, hq] at hno
      exact ⟨p, q, hp, hq, Or.inl rfl⟩
    · have hq : q.2.label = some .yes := by
        by_contra hq
        simp [hp, hq] at hyes
      have hp' : p.2.label = some .no := by
        by_contra hp'
        simp [hp', hq] at hno
      exact ⟨q, p, hq, hp', Or.inr rfl⟩
  · rintro ⟨yes, no, hyes, hno, hout | hout⟩
    · simp [hout, countLabel, hyes, hno]
    · simp [hout, countLabel, hyes, hno]

/-! ## Where the flow goes on an accepted drawing -/

/-- With one arrow for each outcome, the way forks by the labels and not by age. -/
theorem way_of_arms {g : Graph} {x : ElementId} {yes no : ElementId × Arrow}
    (hyes : yes.2.label = some .yes) (hno : no.2.label = some .no)
    (hout : g.outgoing x = [yes, no] ∨ g.outgoing x = [no, yes]) :
    g.way x = .fork yes.1 no.1 := by
  rw [way]
  rcases hout with hout | hout
  · simp [hout, fork, hyes]
  · simp [hout, fork, hno]

namespace WellFormed

variable {g : Graph}

theorem follows_iff_outgoing (h : g.WellFormed) {outcome : Bool} {x y : ElementId} :
    g.Follows outcome x y ↔
      ∃ a, (y, a) ∈ g.outgoing x ∧
        (g.HasKind x .branch → a.label = some (.ofOutcome outcome)) := by
  refine exists_congr fun a => ?_
  rw [h.mem_outgoing]
  simp only [and_assoc]

/-- From a branch with one arrow for each outcome, the flow goes where its way leads. -/
theorem follows_branch_iff (h : g.WellFormed) {outcome : Bool} {x y : ElementId}
    (hx : g.HasKind x .branch) (harms : g.hasBothArms x = true) :
    g.Follows outcome x y ↔ (g.way x).follow outcome = some y := by
  obtain ⟨yes, no, hyes, hno, hout⟩ := hasBothArms_iff.mp harms
  -- from here on it does not matter which arrow is the older one
  have hmem : ∀ p : ElementId × Arrow, p ∈ g.outgoing x ↔ p = yes ∨ p = no := by
    intro p
    rcases hout with hout | hout
    · simp [hout]
    · simp [hout, or_comm]
  rw [h.follows_iff_outgoing, way_of_arms hyes hno hout]
  simp only [hmem, hx, true_implies]
  cases outcome with
  | false =>
    refine ⟨?_, ?_⟩
    · rintro ⟨a, rfl | rfl, hlabel⟩
      · rw [hyes] at hlabel
        cases hlabel
      · rfl
    · intro hfollow
      cases hfollow
      exact ⟨no.2, Or.inr rfl, hno⟩
  | true =>
    refine ⟨?_, ?_⟩
    · rintro ⟨a, rfl | rfl, hlabel⟩
      · rfl
      · rw [hno] at hlabel
        cases hlabel
    · intro hfollow
      cases hfollow
      exact ⟨yes.2, Or.inl rfl, hyes⟩

/-- From an element that is no branch and has one arrow at most, the flow goes where its way
    leads. -/
theorem follows_single_iff (h : g.WellFormed) {outcome : Bool} {x y : ElementId}
    (hx : ¬ g.HasKind x .branch) (hone : (g.arrowsFrom x).length ≤ 1) :
    g.Follows outcome x y ↔ (g.way x).follow outcome = some y := by
  have hlen : (g.outgoing x).length ≤ 1 := Nat.le_trans (h.length_outgoing_le x) hone
  rw [h.follows_iff_outgoing, way]
  simp only [hx, false_implies, and_true]
  match hout : g.outgoing x with
  | [] => simp [Way.follow]
  | [(z, a)] =>
    refine ⟨?_, ?_⟩
    · rintro ⟨b, hb⟩
      rw [(Prod.mk.inj (List.mem_singleton.mp hb)).1]
      rfl
    · intro hfollow
      cases hfollow
      exact ⟨a, List.mem_singleton_self _⟩
  | first :: second :: rest =>
    rw [hout] at hlen
    simp only [List.length_cons] at hlen
    omega

/-- Where the limits on arrows are kept, one arrow at most starts at an element that is no
    branch. -/
theorem length_arrowsFrom_le_one (h : g.WellFormed) (hlimits : g.checkLimits = .ok ())
    {x : ElementId} (hx : x ∈ g.ids) (hb : ¬ g.HasKind x .branch) :
    (g.arrowsFrom x).length ≤ 1 := by
  obtain ⟨e, he, rfl⟩ := mem_ids.mp hx
  have hcap := (h.checkLimits_eq_ok.mp hlimits).1 e.id e.kind ⟨e, he, rfl, rfl⟩
  -- the kinds that are no branch have room for one arrow
  have hkind : e.kind.capacity = 1 := by
    cases hk : e.kind with
    | entry => rfl
    | action => rfl
    | branch => exact absurd ⟨e, he, rfl, hk⟩ hb
  omega

/-- On a drawing that has passed the inspection, the flow goes where the way of an element
    leads, and nowhere else. -/
theorem follows_iff (h : g.WellFormed) (hok : g.inspect = .ok ()) {outcome : Bool}
    {x y : ElementId} (hx : x ∈ g.ids) :
    g.Follows outcome x y ↔ (g.way x).follow outcome = some y := by
  obtain ⟨-, hlimits, -, -, hlabels⟩ := inspect_eq_ok.mp hok
  by_cases hb : g.HasKind x .branch
  · exact h.follows_branch_iff hb (checkLabels_eq_ok.mp hlabels x hb)
  · exact h.follows_single_iff hb (h.length_arrowsFrom_le_one hlimits hx hb)

end WellFormed

end Graph

end Flowchart
