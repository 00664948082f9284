/-
  Flowchart.Proofs.ArrowRules

  The rules for arrows as a property of the whole drawing.  An element is the
  source of no more arrows than its kind allows, no arrow points at the entry,
  and no loop runs through branches only.  The checks that edits make one at a
  time, at different moments, keep all three: a new arrow leaves the rules
  intact just when it passes the checks for room and target
  (`arrowRules_drawn_iff`), and so does a loose end that is dropped on an
  element.
-/

import Flowchart.Inspection
import Flowchart.Proofs.Arena
import Flowchart.Proofs.BranchLoop

namespace Flowchart

/-- The edit asks the rules for arrows, if it draws one. -/
def Edit.underRules : Edit → Bool
  | .drawUnchecked _ _ _ => false
  | _ => true

namespace Graph

/-- The rules for arrows hold on the whole drawing. -/
structure ArrowRules (g : Graph) : Prop where
  /-- An element is the source of no more arrows than its kind allows, loose ones counted. -/
  capacity : ∀ x kind, g.HasKind x kind → (g.arrowsFrom x).length ≤ kind.capacity
  /-- No arrow points at the entry. -/
  entry_free : ∀ x y, g.Leads x y → ¬ g.HasKind y .entry
  /-- No loop runs through branches only. -/
  loopFree : g.LoopFree

/-- With less on the drawing the rules still hold. -/
theorem ArrowRules.mono {g g' : Graph} (h : g.ArrowRules)
    (hkind : ∀ x kind, g'.HasKind x kind → g.HasKind x kind)
    (hfrom : ∀ x, (g'.arrowsFrom x).length ≤ (g.arrowsFrom x).length)
    (hleads : ∀ x y, g'.Leads x y → g.Leads x y) : g'.ArrowRules := by
  refine ⟨?_, ?_, ?_⟩
  · intro x kind hx
    exact Nat.le_trans (hfrom x) (h.capacity x kind (hkind x kind hx))
  · intro x y hl hy
    exact h.entry_free x y (hleads x y hl) (hkind y .entry hy)
  · refine h.loopFree.mono ?_
    rintro x y ⟨hx, hy, hl⟩
    exact ⟨hkind x _ hx, hkind y _ hy, hleads x y hl⟩

/-! ## The checks as rules -/

theorem WellFormed.length_outgoing {g : Graph} (h : g.WellFormed) {e : Element}
    (he : e ∈ g.elements) : e.outgoing.length = (g.arrowsFrom e.id).length := by
  rw [h.outgoing_listed e he, List.length_map]

theorem WellFormed.checkRoom_of_mem {g : Graph} (h : g.WellFormed) {e : Element}
    (he : e ∈ g.elements) :
    g.checkRoom e.id = if e.kind.capacity ≤ (g.arrowsFrom e.id).length then
      .error (.noRoom e.id e.kind.capacity) else .ok () := by
  rw [checkRoom, h.element?_eq_some.mpr ⟨he, rfl⟩, ← h.length_outgoing he]
  simp only [Element.isFull, decide_eq_true_eq]

theorem checkRoom_of_not_mem {g : Graph} {x : ElementId} (hx : x ∉ g.ids) :
    g.checkRoom x = .ok () := by
  have hnone : g.element? x = none := by
    rw [← Option.not_isSome_iff_eq_none]
    exact fun hsome => hx (contains_iff.mp hsome)
  rw [checkRoom, hnone]

/-- There is no room at an element that has all the arrows its kind allows. -/
theorem WellFormed.checkRoom_eq_error {g : Graph} (h : g.WellFormed) {x : ElementId}
    {defect : Defect} :
    g.checkRoom x = .error defect ↔
      ∃ kind, g.HasKind x kind ∧ kind.capacity ≤ (g.arrowsFrom x).length ∧
        defect = .noRoom x kind.capacity := by
  refine ⟨fun hfull => ?_, ?_⟩
  · by_cases hx : x ∈ g.ids
    · obtain ⟨e, he, rfl⟩ := mem_ids.mp hx
      rw [h.checkRoom_of_mem he] at hfull
      split at hfull
      · next hle => exact ⟨e.kind, ⟨e, he, rfl, rfl⟩, hle, (Except.error.inj hfull).symm⟩
      · cases hfull
    · rw [checkRoom_of_not_mem hx] at hfull
      cases hfull
  · rintro ⟨kind, ⟨e, he, rfl, rfl⟩, hle, rfl⟩
    rw [h.checkRoom_of_mem he, if_pos hle]

/-- There is room at an element for one more arrow. -/
theorem WellFormed.checkRoom_eq_ok {g : Graph} (h : g.WellFormed) {x : ElementId} :
    g.checkRoom x = .ok () ↔
      ∀ kind, g.HasKind x kind → (g.arrowsFrom x).length < kind.capacity := by
  refine ⟨fun hroom kind hk => ?_, fun hall => ?_⟩
  · by_contra hle
    rw [h.checkRoom_eq_error.mpr ⟨kind, hk, Nat.not_lt.mp hle, rfl⟩] at hroom
    cases hroom
  · cases hroom : g.checkRoom x with
    | ok _ => rfl
    | error defect =>
      obtain ⟨kind, hk, hle, -⟩ := h.checkRoom_eq_error.mp hroom
      exact absurd (hall kind hk) (Nat.not_lt.mpr hle)

/-- The rule that a new arrow between two elements breaks.  Room is asked for first, then what
    the arrow points at. -/
inductive Breaks (g : Graph) (source target : ElementId) : Defect → Prop where
  | noRoom {kind : Kind} (hkind : g.HasKind source kind)
      (hfull : kind.capacity ≤ (g.arrowsFrom source).length) :
      Breaks g source target (.noRoom source kind.capacity)
  | arrowToEntry (hroom : ∀ kind, g.HasKind source kind →
        (g.arrowsFrom source).length < kind.capacity)
      (hentry : g.HasKind target .entry) : Breaks g source target .arrowToEntry
  | branchLoop (hroom : ∀ kind, g.HasKind source kind →
        (g.arrowsFrom source).length < kind.capacity)
      (hentry : ¬ g.HasKind target .entry) (hloop : g.ClosesLoop source target) :
      Breaks g source target (.branchLoop source target)

/-- A new arrow is refused for the rule that it breaks. -/
theorem WellFormed.checkArrow_eq_error {g : Graph} (h : g.WellFormed)
    {source target : ElementId} {defect : Defect} :
    g.checkArrow source (some target) = .error defect ↔ g.Breaks source target defect := by
  cases hroom : g.checkRoom source with
  | error full =>
    have hfirst : g.checkArrow source (some target) = .error full := by rw [checkArrow, hroom]
    rw [hfirst, Except.error.injEq]
    obtain ⟨kind, hkind, hle, rfl⟩ := h.checkRoom_eq_error.mp hroom
    refine ⟨?_, fun hbreaks => ?_⟩
    · rintro rfl
      exact .noRoom hkind hle
    · cases hbreaks with
      | noRoom hkind' _ => rw [h.kind_unique hkind hkind']
      | arrowToEntry hlt _ => exact absurd (hlt kind hkind) (Nat.not_lt.mpr hle)
      | branchLoop hlt _ _ => exact absurd (hlt kind hkind) (Nat.not_lt.mpr hle)
  | ok _ =>
    have hlt := h.checkRoom_eq_ok.mp hroom
    rw [checkArrow_of_room hroom, h.checkTarget_eq_error]
    refine ⟨?_, fun hbreaks => ?_⟩
    · rintro (⟨hentry, rfl⟩ | ⟨hentry, hloop, rfl⟩)
      · exact .arrowToEntry hlt hentry
      · exact .branchLoop hlt hentry hloop
    · cases hbreaks with
      | noRoom hkind hle => exact absurd (hlt _ hkind) (Nat.not_lt.mpr hle)
      | arrowToEntry _ hentry => exact .inl ⟨hentry, rfl⟩
      | branchLoop _ hentry hloop => exact .inr ⟨hentry, hloop, rfl⟩

/-- The check of the finished drawing asks for room and for an entry that no arrow points
    at. -/
theorem WellFormed.checkLimits_eq_ok {g : Graph} (h : g.WellFormed) :
    g.checkLimits = .ok () ↔
      (∀ x kind, g.HasKind x kind → (g.arrowsFrom x).length ≤ kind.capacity) ∧
        ∀ x y, g.Leads x y → ¬ g.HasKind y .entry := by
  have hover : g.elements.find? Element.isOverfull = none ↔
      ∀ x kind, g.HasKind x kind → (g.arrowsFrom x).length ≤ kind.capacity := by
    rw [List.find?_eq_none]
    refine ⟨?_, ?_⟩
    · rintro hall x kind ⟨e, he, rfl, rfl⟩
      have hnot := hall e he
      rw [Element.isOverfull, decide_eq_true_eq, h.length_outgoing he] at hnot
      omega
    · intro hall e he
      have hle := hall e.id e.kind ⟨e, he, rfl, rfl⟩
      rw [Element.isOverfull, decide_eq_true_eq, h.length_outgoing he]
      omega
  have hpoints : (∀ entry, g.entry = some entry →
      (g.arrows.any fun a => a.target = some entry) = false) ↔
        ∀ x y, g.Leads x y → ¬ g.HasKind y .entry := by
    refine ⟨?_, ?_⟩
    · rintro hnone x y ⟨a, ha, -, ht⟩ hy
      have hno := hnone y ((h.entry_iff y).mpr hy)
      rw [List.any_eq_false] at hno
      exact hno a ha (by simpa using ht)
    · intro hnone entry hentry
      rw [List.any_eq_false]
      intro a ha ht
      exact hnone a.source entry ⟨a, ha, rfl, by simpa using ht⟩ ((h.entry_iff entry).mp hentry)
  -- the check asks the two one after the other
  rw [← hover, ← hpoints, checkLimits]
  cases hfind : g.elements.find? Element.isOverfull with
  | some e => simp
  | none =>
    cases hentry : g.entry with
    | none => simp
    | some entry =>
      show (if (g.arrows.any fun a => a.target = some entry) = true then _ else _) = _ ↔ _
      by_cases hany : (g.arrows.any fun a => a.target = some entry) = true
      · rw [if_pos hany]
        refine ⟨fun hno => (by cases hno), fun hall => ?_⟩
        rw [hall.2 entry rfl] at hany
        cases hany
      · rw [if_neg hany]
        refine ⟨fun _ => ⟨rfl, fun x hx => ?_⟩, fun _ => rfl⟩
        rw [← Option.some.inj hx]
        exact Bool.eq_false_iff.mpr hany

theorem WellFormed.arrowRules_iff {g : Graph} (h : g.WellFormed) :
    g.ArrowRules ↔ g.checkLimits = .ok () ∧ g.LoopFree := by
  rw [h.checkLimits_eq_ok]
  refine ⟨fun hr => ⟨⟨hr.capacity, hr.entry_free⟩, hr.loopFree⟩, ?_⟩
  rintro ⟨⟨hcap, hentry⟩, hloop⟩
  exact ⟨hcap, hentry, hloop⟩

/-! ## One more arrow -/

theorem length_arrowsFrom_withArrow (g : Graph) (source : ElementId) (target : Option ElementId)
    (label : Option Label) (x : ElementId) :
    ((g.withArrow source target label).arrowsFrom x).length
      = (g.arrowsFrom x).length + if source = x then 1 else 0 := by
  rw [arrowsFrom, withArrow_arrows, List.filter_append, List.length_append, arrowsFrom,
    List.filter_singleton]
  by_cases hs : source = x
  · simp [hs]
  · simp [hs]

/-- A new arrow leaves no element with too many just when there is room for it. -/
theorem WellFormed.capacity_withArrow_iff {g : Graph} (h : g.WellFormed) {source : ElementId}
    {target : Option ElementId} {label : Option Label} :
    (∀ x kind, (g.withArrow source target label).HasKind x kind →
        ((g.withArrow source target label).arrowsFrom x).length ≤ kind.capacity) ↔
      (∀ x kind, g.HasKind x kind → (g.arrowsFrom x).length ≤ kind.capacity) ∧
        g.checkRoom source = .ok () := by
  simp only [h.checkRoom_eq_ok, hasKind_withArrow, length_arrowsFrom_withArrow]
  refine ⟨fun hall => ⟨fun x kind hx => ?_, fun kind hx => ?_⟩, ?_⟩
  · have hle := hall x kind hx
    omega
  · have hle := hall source kind hx
    rw [if_pos rfl] at hle
    omega
  · rintro ⟨hcap, hroom⟩ x kind hx
    by_cases hs : source = x
    · subst hs
      rw [if_pos rfl]
      have hlt := hroom kind hx
      omega
    · rw [if_neg hs]
      exact hcap x kind hx

/-- Where one more way leads from `source` to `target`, the rules on where arrows point are
    left intact just when `target` may be pointed at. -/
theorem WellFormed.pointing_insert_iff {g : Graph} (h : g.WellFormed) (g' : Graph)
    {source target : ElementId} (hkind : ∀ x kind, g'.HasKind x kind ↔ g.HasKind x kind)
    (hleads : ∀ x y, g'.Leads x y ↔ g.Leads x y ∨ (x = source ∧ y = target)) :
    ((∀ x y, g'.Leads x y → ¬ g'.HasKind y .entry) ∧ g'.LoopFree) ↔
      ((∀ x y, g.Leads x y → ¬ g.HasKind y .entry) ∧ g.LoopFree) ∧
        g.checkTarget source target = .ok () := by
  have hentry : (∀ x y, g'.Leads x y → ¬ g'.HasKind y .entry) ↔
      (∀ x y, g.Leads x y → ¬ g.HasKind y .entry) ∧ ¬ g.HasKind target .entry := by
    simp only [hkind, hleads]
    -- the one new way is the only one that can point at the entry without being old
    refine ⟨fun hall => ⟨fun x y hl => hall x y (.inl hl), ?_⟩, ?_⟩
    · exact hall source target (.inr ⟨rfl, rfl⟩)
    · rintro ⟨hold, hnew⟩ x y (hl | ⟨-, rfl⟩)
      · exact hold x y hl
      · exact hnew
  rw [hentry, loopFree_insert_iff (fun x => hkind x .branch) hleads, h.checkTarget_eq_ok]
  exact and_and_and_comm

/-- An arrow drawn to an element leaves the rules intact just when there is room for it and
    its target may be pointed at. -/
theorem WellFormed.arrowRules_drawn_iff {g : Graph} (h : g.WellFormed)
    {source target : ElementId} {label : Option Label} :
    (g.withArrow source (some target) label).ArrowRules ↔
      g.ArrowRules ∧ g.checkRoom source = .ok () ∧ g.checkTarget source target = .ok () := by
  have hleads : ∀ x y, (g.withArrow source (some target) label).Leads x y ↔
      g.Leads x y ∨ (x = source ∧ y = target) := by
    intro x y
    rw [leads_withArrow, Option.some.injEq, eq_comm (a := target)]
  have hpoint := h.pointing_insert_iff _ (fun x kind => hasKind_withArrow) hleads
  refine ⟨?_, ?_⟩
  · intro hr
    obtain ⟨hcap, hok⟩ := h.capacity_withArrow_iff.mp hr.capacity
    obtain ⟨⟨hentry, hloop⟩, htarget⟩ := hpoint.mp ⟨hr.entry_free, hr.loopFree⟩
    exact ⟨⟨hcap, hentry, hloop⟩, hok, htarget⟩
  · rintro ⟨hr, hok, htarget⟩
    obtain ⟨hentry, hloop⟩ := hpoint.mpr ⟨⟨hr.entry_free, hr.loopFree⟩, htarget⟩
    exact ⟨h.capacity_withArrow_iff.mpr ⟨hr.capacity, hok⟩, hentry, hloop⟩

/-! ## Every change under the rules -/

theorem ArrowRules.beginArrow {g : Graph} (hr : g.ArrowRules) (h : g.WellFormed)
    {source : ElementId} (label : Option Label) (hroom : g.checkRoom source = .ok ()) :
    (g.withArrow source none label).ArrowRules := by
  -- a loose arrow leads nowhere, so only the room counts
  have hleads : ∀ x y, (g.withArrow source none label).Leads x y → g.Leads x y := by
    intro x y hl
    rcases leads_withArrow.mp hl with hl | ⟨-, hno⟩
    · exact hl
    · cases hno
  refine ⟨h.capacity_withArrow_iff.mpr ⟨hr.capacity, hroom⟩, ?_, ?_⟩
  · intro x y hl hy
    exact hr.entry_free x y (hleads x y hl) (hasKind_withArrow.mp hy)
  · refine hr.loopFree.mono ?_
    rintro x y ⟨hx, hy, hl⟩
    exact ⟨hasKind_withArrow.mp hx, hasKind_withArrow.mp hy, hleads x y hl⟩

theorem ArrowRules.anchorArrow {g : Graph} (hr : g.ArrowRules) (h : g.WellFormed) {a : Arrow}
    (ha : a ∈ g.arrows) (hloose : a.target = none) {target : ElementId}
    (htarget : g.checkTarget a.source target = .ok ()) :
    (g.withTarget a.id target).ArrowRules := by
  obtain ⟨hentry, hloop⟩ :=
    (h.pointing_insert_iff (g.withTarget a.id target) (fun _ _ => Iff.rfl)
      (fun _ _ => leads_withTarget h ha hloose)).mpr ⟨⟨hr.entry_free, hr.loopFree⟩, htarget⟩
  refine ⟨fun x kind hx => ?_, hentry, hloop⟩
  have hfrom := arrowsFrom_inPlace g (g.withTarget a.id target) rfl
    (fun b => by split <;> rfl) x
  rw [hfrom, List.length_map]
  exact hr.capacity x kind hx

theorem ArrowRules.addElement {g : Graph} (hr : g.ArrowRules) (h : g.WellFormed) (kind : Kind)
    (script : Option String) : (g.withElement kind script).ArrowRules := by
  -- no arrow of the drawing knows the new number
  have hnew : (⟨g.elementsMade⟩ : ElementId) ∉ g.ids := fun hx => Nat.lt_irrefl _ (h.id_lt hx)
  have hold : ∀ x k, x ∈ g.ids → (g.withElement kind script).HasKind x k → g.HasKind x k := by
    intro x k hx hk
    rcases hasKind_withElement.mp hk with hk | ⟨rfl, -⟩
    · exact hk
    · exact absurd hx hnew
  refine ⟨?_, ?_, ?_⟩
  · intro x k hk
    show (g.arrowsFrom x).length ≤ k.capacity
    rcases hasKind_withElement.mp hk with hk | ⟨rfl, rfl⟩
    · exact hr.capacity x k hk
    · rw [h.arrowsFrom_eq_nil hnew]
      exact Nat.zero_le _
  · intro x y hl hy
    exact hr.entry_free x y hl (hold y .entry (h.leads_live hl).2 hy)
  · refine hr.loopFree.mono ?_
    rintro x y ⟨hx, hy, hl⟩
    obtain ⟨hxlive, hylive⟩ := h.leads_live hl
    exact ⟨hold x _ hxlive hx, hold y _ hylive hy, hl⟩

theorem ArrowRules.removeElement {g : Graph} (hr : g.ArrowRules) (x : ElementId) :
    (g.withoutElement x).ArrowRules :=
  hr.mono (fun _ _ hk => (hasKind_withoutElement.mp hk).1)
    (fun _ => (List.filter_sublist.filter _).length_le)
    (fun _ _ hl => (leads_withoutElement.mp hl).1)

theorem ArrowRules.removeArrow {g : Graph} (hr : g.ArrowRules) (a : Arrow) :
    (g.withoutArrow a).ArrowRules := by
  refine hr.mono (fun _ _ hk => hasKind_withoutArrow.mp hk)
    (fun _ => (List.filter_sublist.filter _).length_le) ?_
  rintro x y ⟨b, hb, hs, ht⟩
  exact ⟨b, (List.mem_filter.mp hb).1, hs, ht⟩

theorem ArrowRules.relabel {g : Graph} (hr : g.ArrowRules) (i : ArrowId)
    (label : Option Label) : (g.withLabel i label).ArrowRules := by
  refine hr.mono (fun _ _ hk => hk) (fun x => ?_) (fun _ _ hl => leads_withLabel.mp hl)
  have hfrom := arrowsFrom_inPlace g (g.withLabel i label) rfl
    (fun b => by split <;> rfl) x
  rw [hfrom, List.length_map]

theorem ArrowRules.setScript {g : Graph} (hr : g.ArrowRules) (x : ElementId)
    (script : Option String) : (g.withScript x script).ArrowRules :=
  hr.mono (fun _ _ hk => hasKind_withScript.mp hk) (fun _ => Nat.le_refl _) (fun _ _ hl => hl)

/-! ## Runs of edits under the rules -/

theorem ArrowRules.empty : Graph.empty.ArrowRules := by
  refine ⟨?_, ?_, ?_⟩
  · rintro x kind ⟨e, he, -⟩
    exact absurd he List.not_mem_nil
  · rintro x y ⟨a, ha, -⟩
    exact absurd ha List.not_mem_nil
  · intro x hx
    obtain ⟨y, ⟨-, -, a, ha, -⟩, -⟩ := Relation.TransGen.head'_iff.mp hx
    exact absurd ha List.not_mem_nil

/-- Every change that an edit under the rules makes keeps them. -/
theorem ArrowRules.change {g g' : Graph} {edit : Edit} (hr : g.ArrowRules) (h : g.WellFormed)
    (hedit : edit.underRules = true) (hc : g.Change edit g') : g'.ArrowRules := by
  cases hc with
  | addElement _ => exact hr.addElement h _ _
  | removeElement _ => exact hr.removeElement _
  | beginArrow _ hroom => exact hr.beginArrow h _ hroom
  | anchorArrow ha hloose _ hrule =>
    obtain ⟨hmem, rfl⟩ := h.arrow?_eq_some.mp ha
    exact hr.anchorArrow h hmem hloose hrule
  | drawArrow _ _ hroom hrule => exact h.arrowRules_drawn_iff.mpr ⟨hr, hroom, hrule⟩
  | drawUnchecked _ _ => cases hedit
  | removeArrow _ => exact hr.removeArrow _
  | relabel _ => exact hr.relabel _ _
  | setScript _ => exact hr.setScript _ _

theorem ArrowRules.ofEdits {edits : List Edit} (hall : ∀ edit ∈ edits, edit.underRules = true) :
    (Graph.ofEdits edits).ArrowRules := by
  have hboth : (Graph.ofEdits edits).WellFormed ∧ (Graph.ofEdits edits).ArrowRules := by
    refine ofEdits_induction (P := fun g => g.WellFormed ∧ g.ArrowRules)
      (fun edit => edit.underRules = true) ⟨.empty, .empty⟩ ?_ edits hall
    rintro g edit g' hedit ⟨h, hr⟩ hc
    exact ⟨h.change hc, hr.change h hedit hc⟩
  exact hboth.2

/-- Within its capacity the entry does not fork. -/
theorem WellFormed.checkEntry_ne_entryForks {g : Graph} (h : g.WellFormed) (hr : g.ArrowRules)
    (children : Nat) : g.checkEntry ≠ .error (.entryForks children) := by
  rw [checkEntry]
  cases hentry : g.entry with
  | none => simp
  | some x =>
    have hone : (g.outgoing x).length ≤ 1 :=
      Nat.le_trans (h.length_outgoing_le x)
        (hr.capacity x .entry ((h.entry_iff x).mp hentry))
    have hnot : ¬ 1 < (g.outgoing x).length := by omega
    simp [hnot]

/-- Edits under the rules, in any order and with any arguments, lead to drawings on which
    the rules for arrows hold, so the checks that ask for them find nothing. -/
theorem ofEdits_underRules {edits : List Edit}
    (hall : ∀ edit ∈ edits, edit.underRules = true) :
    (ofEdits edits).ArrowRules ∧ (ofEdits edits).checkLimits = .ok () ∧
      ∀ children, (ofEdits edits).checkEntry ≠ .error (.entryForks children) := by
  have h := WellFormed.ofEdits edits
  have hr := ArrowRules.ofEdits hall
  exact ⟨hr, (h.arrowRules_iff.mp hr).1, h.checkEntry_ne_entryForks hr⟩

/-- Two branches, an arrow begun at one before the other points at it, and an entry that is
    taken away and replaced.  Dropping the loose end on the other branch is refused, and so
    is dropping it on the new entry. -/
def replacedEntry : List Edit :=
  [.addElement .entry none, .addElement .branch (some "a"), .addElement .branch (some "b"),
   .beginArrow ⟨1⟩ (some .yes), .drawArrow ⟨2⟩ ⟨1⟩ none, .anchorArrow ⟨0⟩ ⟨2⟩,
   .removeElement ⟨0⟩, .addElement .entry none, .drawArrow ⟨3⟩ ⟨1⟩ none, .anchorArrow ⟨0⟩ ⟨3⟩,
   .relabel ⟨1⟩ (some .no)]

theorem replacedEntry_underRules :
    (∀ edit ∈ replacedEntry, edit.underRules = true) ∧
      (ofEdits replacedEntry).ArrowRules ∧ (ofEdits replacedEntry).checkLimits = .ok () ∧
        ∀ children, (ofEdits replacedEntry).checkEntry ≠ .error (.entryForks children) :=
  ⟨by decide, ofEdits_underRules (by decide)⟩

end Graph
end Flowchart
