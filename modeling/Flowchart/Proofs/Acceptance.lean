/-
  Flowchart.Proofs.Acceptance

  What the inspection accepts.  The checks read the lists that elements keep of
  their arrows and walk the drawing with a stack; `Graph.Acceptable` says the
  rules by the elements, the arrows and the paths along them.

  Each of the three checks that go over all elements makes a list first and
  refuses its first member.  The lists name just the elements that break the
  rule, in the order of their numbers (`WellFormed.offenders`), so a check
  passes just when no element breaks its rule (`Names.eq_nil_iff`).
-/

import Flowchart.Proofs.Flow

namespace Flowchart

/-- The element has something to run. -/
def Element.HasScript (e : Element) : Prop :=
  ∃ script, e.script = some script ∧ script ≠ ""

theorem Element.isUnscripted_iff {e : Element} : e.isUnscripted = true ↔ ¬ e.HasScript := by
  rw [Element.isUnscripted, Element.HasScript]
  cases e.script with
  | none => simp
  | some script => simp

/-- Of the arrows with their targets, the arrows alone are the anchored ones. -/
theorem map_snd_pointing (arrows : List Arrow) :
    (arrows.filterMap Arrow.pointing).map Prod.snd = arrows.filter Arrow.isAnchored := by
  induction arrows with
  | nil => rfl
  | cons a rest ih =>
    cases ht : a.target with
    | none =>
      have hp : a.pointing = none := by rw [Arrow.pointing, ht]; rfl
      have hloose : ¬ a.isAnchored = true := by simp [Arrow.isAnchored, ht]
      rw [List.filterMap_cons_none hp, List.filter_cons_of_neg hloose, ih]
    | some x =>
      have hp : a.pointing = some (x, a) := Arrow.pointing_eq_some.mpr ⟨rfl, ht⟩
      have hanchored : a.isAnchored = true := by simp [Arrow.isAnchored, ht]
      rw [List.filterMap_cons_some hp, List.map_cons, List.filter_cons_of_pos hanchored, ih]

namespace Graph

variable {g : Graph}

/-! ## The rules, said by elements and arrows -/

/-- The anchored arrows that start at an element, oldest first. -/
def anchoredFrom (g : Graph) (x : ElementId) : List Arrow :=
  g.arrows.filter fun a => a.source = x ∧ a.isAnchored

/-- A path of anchored arrows leads from one element to the other; it may be empty. -/
def Path (g : Graph) : ElementId → ElementId → Prop :=
  Relation.ReflTransGen g.Leads

/-- Two anchored arrows start at the element and no others, one labelled for each outcome. -/
def Arms (g : Graph) (x : ElementId) : Prop :=
  ∃ yes no : Arrow, yes.label = some .yes ∧ no.label = some .no ∧
    ∀ a, a ∈ g.anchoredFrom x ↔ a = yes ∨ a = no

/-- The drawing meets all the rules for a finished one. -/
structure Acceptable (g : Graph) : Prop where
  /-- There is an entry, and at most one anchored arrow starts at it. -/
  entry : ∃ e ∈ g.elements, e.kind = .entry ∧ (g.anchoredFrom e.id).length ≤ 1
  /-- No element is the source of more arrows than its kind allows, loose ones counted. -/
  capacity : ∀ e ∈ g.elements, (g.arrowsFrom e.id).length ≤ e.kind.capacity
  /-- No arrow points at the entry. -/
  entry_free : ∀ e ∈ g.elements, e.kind = .entry → ∀ a ∈ g.arrows, a.target ≠ some e.id
  /-- A path leads from the entry to every element. -/
  connected : ∀ e ∈ g.elements, e.kind = .entry → ∀ f ∈ g.elements, g.Path e.id f.id
  /-- Every element beside the entry has something to run. -/
  scripted : ∀ e ∈ g.elements, e.kind ≠ .entry → e.HasScript
  /-- Every branch has one arrow for each outcome. -/
  arms : ∀ e ∈ g.elements, e.kind = .branch → g.Arms e.id

/-! ## Lists of elements -/

/-- The list names the elements of the drawing that have a property, each once, in the order
    of their numbers. -/
structure Names (g : Graph) (l : List ElementId) (p : Element → Prop) : Prop where
  mem_iff : ∀ x, x ∈ l ↔ ∃ e ∈ g.elements, e.id = x ∧ p e
  sorted : l.Pairwise fun x y => x.index < y.index

theorem Names.eq_nil_iff {l : List ElementId} {p : Element → Prop} (h : g.Names l p) :
    l = [] ↔ ∀ e ∈ g.elements, ¬ p e := by
  rw [List.eq_nil_iff_forall_not_mem]
  refine ⟨?_, ?_⟩
  · intro hnone e he hp
    exact hnone e.id ((h.mem_iff _).mpr ⟨e, he, rfl, hp⟩)
  · intro hall x hx
    obtain ⟨e, he, -, hp⟩ := (h.mem_iff x).mp hx
    exact hall e he hp

namespace WellFormed

/-- The numbers of the elements that pass a test name the elements that have the property
    tested for. -/
theorem names_filter (h : g.WellFormed) {test : Element → Bool} {p : Element → Prop}
    (htest : ∀ e ∈ g.elements, test e = true ↔ p e) :
    g.Names ((g.elements.filter test).map Element.id) p := by
  refine ⟨?_, List.pairwise_map.mpr (h.elements_sorted.filter _)⟩
  intro x
  rw [List.mem_map]
  refine ⟨?_, ?_⟩
  · rintro ⟨e, he, rfl⟩
    obtain ⟨hmem, hpass⟩ := List.mem_filter.mp he
    exact ⟨e, hmem, rfl, (htest e hmem).mp hpass⟩
  · rintro ⟨e, he, rfl, hp⟩
    exact ⟨e, List.mem_filter.mpr ⟨he, (htest e he).mpr hp⟩, rfl⟩

/-! ## Anchored arrows -/

theorem outgoing_arrows (h : g.WellFormed) (x : ElementId) :
    (g.outgoing x).map Prod.snd = g.anchoredFrom x := by
  rw [h.outgoing_eq, map_snd_pointing, arrowsFrom, List.filter_filter, anchoredFrom]
  refine List.filter_congr fun a _ => ?_
  rw [Bool.and_comm, Bool.decide_and, Bool.decide_coe]

theorem anchoredFrom_nodup (h : g.WellFormed) (x : ElementId) : (g.anchoredFrom x).Nodup :=
  (h.arrow_ids_nodup.of_map _).filter _

/-- The branch has both arms in the list that is kept of its arrows just when it has them
    among the arrows. -/
theorem hasBothArms_iff_arms (h : g.WellFormed) {x : ElementId} :
    g.hasBothArms x = true ↔ g.Arms x := by
  refine ⟨?_, ?_⟩
  · intro hboth
    obtain ⟨yes, no, hyes, hno, hout⟩ := hasBothArms_iff.mp hboth
    refine ⟨yes.2, no.2, hyes, hno, fun a => ?_⟩
    rw [← h.outgoing_arrows]
    rcases hout with hout | hout
    · simp [hout]
    · simp [hout, or_comm]
  · rintro ⟨yes, no, hyes, hno, hall⟩
    -- in whatever order, the arrows are these two
    have hne : yes ≠ no := by
      rintro rfl
      rw [hyes] at hno
      cases hno
    have hperm : ((g.outgoing x).map Prod.snd).Perm [yes, no] := by
      rw [h.outgoing_arrows]
      refine (List.perm_ext_iff_of_nodup (h.anchoredFrom_nodup x) (by simp [hne])).mpr ?_
      simpa using hall
    have hcount : ∀ label, countLabel label (g.outgoing x)
        = [yes, no].countP fun a => a.label = some label := by
      intro label
      rw [← hperm.countP_eq, List.countP_map]
      rfl
    have hlength : (g.outgoing x).length = 2 := by
      rw [← List.length_map (f := Prod.snd), hperm.length_eq]
      rfl
    rw [hasBothArms]
    simp [hlength, hcount, hyes, hno]

/-! ## The walk from the entry -/

/-- The walk from an element meets just the elements that a path leads to. -/
theorem mem_walkFrom (h : g.WellFormed) {x y : ElementId} (hx : x ∈ g.ids) :
    y ∈ g.walkFrom x ↔ g.Path x y := by
  have hnext : (fun a b => b ∈ (g.targets a).reverse) = g.Leads := by
    funext a b
    rw [List.mem_reverse, h.mem_targets]
  have hclosed : ∀ a ∈ g.ids, ∀ b ∈ (g.targets a).reverse, b ∈ g.ids := by
    intro a _ b hb
    rw [List.mem_reverse, h.mem_targets] at hb
    exact (h.leads_live hb).2
  rw [walkFrom, mem_walk_iff_reaches hclosed hx, Reaches, hnext]
  rfl

theorem names_unreachable (h : g.WellFormed) {start : ElementId}
    (hentry : g.entry = some start) :
    ∃ missed, g.unreachable = .ok missed ∧
      g.Names missed fun e => ¬ g.Path start e.id := by
  have hstart := ((h.entry_iff start).mp hentry).mem_ids
  refine ⟨g.ids.filter fun x => x ∉ g.walkFrom start, ?_, ?_⟩
  · rw [unreachable, reachable, hentry]
  · rw [ids, List.filter_map]
    refine h.names_filter fun e _ => ?_
    rw [Function.comp_apply, decide_eq_true_eq, h.mem_walkFrom hstart]

theorem names_unscripted (h : g.WellFormed) :
    g.Names g.unscripted fun e => e.kind ≠ .entry ∧ ¬ e.HasScript := by
  refine h.names_filter fun e _ => ?_
  rw [decide_eq_true_eq, Element.isUnscripted_iff]

theorem names_unlabelled (h : g.WellFormed) :
    g.Names g.unlabelled fun e => e.kind = .branch ∧ ¬ g.Arms e.id := by
  refine h.names_filter fun e _ => ?_
  rw [decide_eq_true_eq, Bool.not_eq_true', ← Bool.not_eq_true, h.hasBothArms_iff_arms]

/-! ## The checks -/

theorem checkEntry_isOk (h : g.WellFormed) :
    (∃ x, g.checkEntry = .ok x) ↔
      ∃ e ∈ g.elements, e.kind = .entry ∧ (g.anchoredFrom e.id).length ≤ 1 := by
  have hlength : ∀ x, (g.outgoing x).length = (g.anchoredFrom x).length := by
    intro x
    rw [← h.outgoing_arrows, List.length_map]
  simp only [checkEntry_eq_ok, h.entry_iff, hlength]
  refine ⟨?_, ?_⟩
  · rintro ⟨x, ⟨e, he, rfl, hk⟩, hone⟩
    exact ⟨e, he, hk, hone⟩
  · rintro ⟨e, he, hk, hone⟩
    exact ⟨e.id, ⟨e, he, rfl, hk⟩, hone⟩

theorem checkReachability_eq_ok (h : g.WellFormed) {start : ElementId}
    (hentry : g.entry = some start) :
    g.checkReachability = .ok () ↔ ∀ e ∈ g.elements, g.Path start e.id := by
  obtain ⟨missed, hmissed, hnames⟩ := h.names_unreachable hentry
  rw [checkReachability, hmissed]
  simp only [refuseFirst_eq_ok, hnames.eq_nil_iff, not_not]

theorem checkScripts_eq_ok (h : g.WellFormed) :
    g.checkScripts = .ok () ↔ ∀ e ∈ g.elements, e.kind ≠ .entry → e.HasScript := by
  rw [checkScripts, refuseFirst_eq_ok, h.names_unscripted.eq_nil_iff]
  simp only [not_and, not_not]

theorem checkLabels_iff_arms (h : g.WellFormed) :
    g.checkLabels = .ok () ↔ ∀ e ∈ g.elements, e.kind = .branch → g.Arms e.id := by
  rw [checkLabels, refuseFirst_eq_ok, h.names_unlabelled.eq_nil_iff]
  simp only [not_and, not_not]

/-- The inspection accepts just the drawings that meet the rules. -/
theorem inspect_iff_acceptable (h : g.WellFormed) : g.inspect = .ok () ↔ g.Acceptable := by
  rw [inspect_eq_ok, h.checkEntry_isOk, h.checkLimits_eq_ok, h.checkScripts_eq_ok,
    h.checkLabels_iff_arms]
  refine ⟨?_, ?_⟩
  · rintro ⟨hentry, ⟨hcap, hfree⟩, hreach, hscripts, harms⟩
    refine ⟨hentry, ?_, ?_, ?_, hscripts, harms⟩
    · exact fun e he => hcap e.id e.kind ⟨e, he, rfl, rfl⟩
    · intro e he hk a ha ht
      exact hfree a.source e.id ⟨a, ha, rfl, ht⟩ ⟨e, he, rfl, hk⟩
    · intro e he hk
      exact (h.checkReachability_eq_ok ((h.entry_iff e.id).mpr ⟨e, he, rfl, hk⟩)).mp hreach
  · intro hok
    refine ⟨hok.entry, ⟨?_, ?_⟩, ?_, hok.scripted, hok.arms⟩
    · rintro x kind ⟨e, he, rfl, rfl⟩
      exact hok.capacity e he
    · rintro x y ⟨a, ha, -, ht⟩ ⟨e, he, rfl, hk⟩
      exact hok.entry_free e he hk a ha ht
    · -- whether all elements are reached is asked from the entry, which is there
      obtain ⟨e, he, hk, -⟩ := hok.entry
      exact (h.checkReachability_eq_ok ((h.entry_iff e.id).mpr ⟨e, he, rfl, hk⟩)).mpr
        (hok.connected e he hk)

end WellFormed

/-! ## Every drawing -/

/-- The lists of elements that break a rule are exact. -/
structure Offenders (g : Graph) : Prop where
  /-- From the entry, if there is one, the elements that no path leads to. -/
  unreachable : ∀ e ∈ g.elements, e.kind = .entry →
    ∃ missed, g.unreachable = .ok missed ∧ g.Names missed fun f => ¬ g.Path e.id f.id
  /-- Without an entry there is nothing to start from. -/
  no_entry : (∀ e ∈ g.elements, e.kind ≠ .entry) → g.unreachable = .error .noEntry
  /-- The elements beside the entry that have nothing to run. -/
  unscripted : g.Names g.unscripted fun e => e.kind ≠ .entry ∧ ¬ e.HasScript
  /-- The branches without an arrow for each outcome. -/
  unlabelled : g.Names g.unlabelled fun e => e.kind = .branch ∧ ¬ g.Arms e.id

theorem WellFormed.offenders (h : g.WellFormed) : g.Offenders := by
  refine ⟨?_, ?_, h.names_unscripted, h.names_unlabelled⟩
  · intro e he hk
    exact h.names_unreachable ((h.entry_iff e.id).mpr ⟨e, he, rfl, hk⟩)
  · intro hnone
    cases hentry : g.entry with
    | none => rw [Graph.unreachable, reachable, hentry]
    | some x =>
      obtain ⟨e, he, -, hk⟩ := (h.entry_iff x).mp hentry
      exact absurd hk (hnone e he)

/-- Whatever edits are made to the empty drawing, the inspection accepts the result just when
    it meets the rules, and the lists of elements that break a rule are exact. -/
theorem ofEdits_inspection (edits : List Edit) :
    ((ofEdits edits).inspect = .ok () ↔ (ofEdits edits).Acceptable) ∧
      (ofEdits edits).Offenders := by
  have h := WellFormed.ofEdits edits
  exact ⟨h.inspect_iff_acceptable, h.offenders⟩

end Graph

end Flowchart
