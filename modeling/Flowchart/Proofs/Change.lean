/-
  Flowchart.Proofs.Change

  What an edit can do to a drawing.  Each edit that is carried out changes the
  drawing in one of seven ways (`withElement`, `withoutElement`, `withScript`,
  `withArrow`, `withTarget`, `withoutArrow`, `withLabel`), and only when its
  guards let it.  `Graph.Change` lists the edits with their guards and results;
  `apply_change` says that this is all an edit does.

  Whatever holds of the empty drawing and is kept by every change holds of all
  drawings (`ofEdits_induction`).
-/

import Flowchart.Edit
import Flowchart.Proofs.WellFormed

namespace Flowchart

/-- A sequence of two steps succeeds when both do. -/
theorem bind_eq_ok {ε α β : Type} {step : Except ε α} {f : α → Except ε β} {b : β} :
    (step >>= f) = .ok b ↔ ∃ a, step = .ok a ∧ f a = .ok b := by
  cases step with
  | error e =>
    refine ⟨?_, ?_⟩
    · intro h
      cases h
    · rintro ⟨a, h, -⟩
      cases h
  | ok a =>
    refine ⟨?_, ?_⟩
    · intro h
      exact ⟨a, rfl, h⟩
    · rintro ⟨a', h, hf⟩
      cases h
      exact hf

/-- A sequence of two steps fails where the first of them does that fails. -/
theorem bind_eq_error {ε α β : Type} {step : Except ε α} {f : α → Except ε β} {e : ε} :
    (step >>= f) = .error e ↔ step = .error e ∨ ∃ a, step = .ok a ∧ f a = .error e := by
  cases step with
  | error e' =>
    constructor
    · intro h
      cases h
      exact Or.inl rfl
    · rintro (h | ⟨a, h, -⟩)
      · cases h
        rfl
      · cases h
  | ok a =>
    constructor
    · intro h
      exact Or.inr ⟨a, rfl, h⟩
    · rintro (h | ⟨a', h, hf⟩)
      · cases h
      · cases h
        exact hf

namespace Graph

/-! ## The seven ways -/

/-- The drawing with a new element on it. -/
def withElement (g : Graph) (kind : Kind) (script : Option String) : Graph :=
  { g with
    elements := g.elements ++ [{ id := ⟨g.elementsMade⟩, kind, script }]
    entry := if kind = .entry then some ⟨g.elementsMade⟩ else g.entry
    elementsMade := g.elementsMade + 1 }

/-- The numbers of the arrows that start or end at an element. -/
def arrowsAt (g : Graph) (x : ElementId) : List ArrowId :=
  (g.arrows.filter fun a => a.touches x).map Arrow.id

/-- The drawing without an element and the arrows at it. -/
def withoutElement (g : Graph) (x : ElementId) : Graph :=
  { g with
    elements := (g.elements.filter fun e => e.id ≠ x).map (detach (g.arrowsAt x))
    arrows := g.arrows.filter fun a => !a.touches x
    entry := if g.entry = some x then none else g.entry }

/-- The drawing with another script for an element. -/
def withScript (g : Graph) (x : ElementId) (script : Option String) : Graph :=
  g.modifyElement x fun e => { e with script }

/-- The drawing with a new arrow on it. -/
def withArrow (g : Graph) (source : ElementId) (target : Option ElementId)
    (label : Option Label) : Graph :=
  (g.insertArrow source target label).2

/-- The drawing with the end of an arrow dropped on an element. -/
def withTarget (g : Graph) (i : ArrowId) (target : ElementId) : Graph :=
  g.modifyArrow i fun a => { a with target := some target }

/-- The drawing without an arrow. -/
def withoutArrow (g : Graph) (a : Arrow) : Graph :=
  { g.modifyElement a.source (detach [a.id]) with
    arrows := g.arrows.filter fun b => b.id ≠ a.id }

/-- The drawing with another label for an arrow. -/
def withLabel (g : Graph) (i : ArrowId) (label : Option Label) : Graph :=
  g.modifyArrow i fun a => { a with label }

/-! ## Kinds and arrows after a change -/

theorem hasKind_withElement {g : Graph} {kind k : Kind} {script : Option String}
    {x : ElementId} :
    (g.withElement kind script).HasKind x k ↔
      g.HasKind x k ∨ (x = ⟨g.elementsMade⟩ ∧ k = kind) := by
  refine ⟨?_, ?_⟩
  · rintro ⟨e, he, rfl, rfl⟩
    rcases List.mem_append.mp he with he | he
    · exact .inl ⟨e, he, rfl, rfl⟩
    · rw [List.mem_singleton.mp he]
      exact .inr ⟨rfl, rfl⟩
  · rintro (⟨e, he, hx⟩ | ⟨rfl, rfl⟩)
    · exact ⟨e, List.mem_append_left _ he, hx⟩
    · exact ⟨_, List.mem_append_right _ (List.mem_singleton_self _), rfl, rfl⟩

theorem hasKind_withoutElement {g : Graph} {k : Kind} {x y : ElementId} :
    (g.withoutElement y).HasKind x k ↔ g.HasKind x k ∧ x ≠ y := by
  refine ⟨?_, ?_⟩
  · rintro ⟨e', he', rfl, rfl⟩
    obtain ⟨e, he, rfl⟩ := List.mem_map.mp he'
    obtain ⟨hmem, hne⟩ := List.mem_filter.mp he
    have hid : e.id ≠ y := by simpa using hne
    exact ⟨⟨e, hmem, rfl, rfl⟩, hid⟩
  · rintro ⟨⟨e, he, rfl, rfl⟩, hne⟩
    have hkeep : e ∈ g.elements.filter fun e => e.id ≠ y :=
      List.mem_filter.mpr ⟨he, by simpa using hne⟩
    exact ⟨_, List.mem_map_of_mem hkeep, rfl, rfl⟩

/-- Changing elements in place leaves the kinds, as long as it leaves each number and
    each kind. -/
theorem hasKind_inPlace {g g' : Graph} {u : Element → Element}
    (helements : g'.elements = g.elements.map u) (hid : ∀ e, (u e).id = e.id)
    (hkind : ∀ e, (u e).kind = e.kind) {x : ElementId} {k : Kind} :
    g'.HasKind x k ↔ g.HasKind x k := by
  rw [HasKind, HasKind, helements]
  refine ⟨?_, ?_⟩
  · rintro ⟨e', he', hx, hk⟩
    obtain ⟨e, he, rfl⟩ := List.mem_map.mp he'
    exact ⟨e, he, (hid e).symm.trans hx, (hkind e).symm.trans hk⟩
  · rintro ⟨e, he, hx, hk⟩
    exact ⟨u e, List.mem_map_of_mem he, (hid e).trans hx, (hkind e).trans hk⟩

theorem hasKind_withScript {g : Graph} {x y : ElementId} {script : Option String} {k : Kind} :
    (g.withScript y script).HasKind x k ↔ g.HasKind x k :=
  hasKind_inPlace rfl (fun e => by split <;> rfl) (fun e => by split <;> rfl)

theorem hasKind_withArrow {g : Graph} {source : ElementId} {target : Option ElementId}
    {label : Option Label} {x : ElementId} {k : Kind} :
    (g.withArrow source target label).HasKind x k ↔ g.HasKind x k :=
  hasKind_inPlace rfl (fun e => by split <;> rfl) (fun e => by split <;> rfl)

theorem hasKind_withoutArrow {g : Graph} {a : Arrow} {x : ElementId} {k : Kind} :
    (g.withoutArrow a).HasKind x k ↔ g.HasKind x k :=
  hasKind_inPlace rfl (fun e => by split <;> rfl) (fun e => by split <;> rfl)

theorem leads_withoutElement {g : Graph} {x y z : ElementId} :
    (g.withoutElement z).Leads x y ↔ g.Leads x y ∧ x ≠ z ∧ y ≠ z := by
  refine ⟨?_, ?_⟩
  · rintro ⟨a, ha, rfl, ht⟩
    obtain ⟨hmem, htouch⟩ := List.mem_filter.mp ha
    simp only [Arrow.touches, ht, Option.some.injEq, Bool.not_eq_true',
      decide_eq_false_iff_not, not_or] at htouch
    exact ⟨⟨a, hmem, rfl, ht⟩, htouch⟩
  · rintro ⟨⟨a, ha, rfl, ht⟩, hx, hy⟩
    have hkeep : (!a.touches z) = true := by
      simp [Arrow.touches, ht, hx, hy]
    exact ⟨a, List.mem_filter.mpr ⟨ha, hkeep⟩, rfl, ht⟩

theorem leads_withArrow {g : Graph} {source : ElementId} {target : Option ElementId}
    {label : Option Label} {x y : ElementId} :
    (g.withArrow source target label).Leads x y ↔
      g.Leads x y ∨ (x = source ∧ target = some y) := by
  refine ⟨?_, ?_⟩
  · rintro ⟨a, ha, rfl, ht⟩
    rcases List.mem_append.mp ha with ha | ha
    · exact .inl ⟨a, ha, rfl, ht⟩
    · rw [List.mem_singleton.mp ha] at ht ⊢
      exact .inr ⟨rfl, ht⟩
  · rintro (⟨a, ha, hs, ht⟩ | ⟨rfl, rfl⟩)
    · exact ⟨a, List.mem_append_left _ ha, hs, ht⟩
    · exact ⟨_, List.mem_append_right _ (List.mem_singleton_self _), rfl, rfl⟩

theorem leads_withTarget {g : Graph} (h : g.WellFormed) {a : Arrow} (ha : a ∈ g.arrows)
    (hloose : a.target = none) {x y target : ElementId} :
    (g.withTarget a.id target).Leads x y ↔ g.Leads x y ∨ (x = a.source ∧ y = target) := by
  refine ⟨?_, ?_⟩
  · rintro ⟨b', hb', rfl, ht⟩
    obtain ⟨b, hb, rfl⟩ := List.mem_map.mp hb'
    by_cases hid : b.id = a.id
    · rw [if_pos hid] at ht ⊢
      rw [h.arrow_unique hb ha hid]
      exact .inr ⟨rfl, (Option.some.inj ht).symm⟩
    · rw [if_neg hid] at ht ⊢
      exact .inl ⟨b, hb, rfl, ht⟩
  · rintro (⟨b, hb, rfl, ht⟩ | ⟨rfl, rfl⟩)
    · -- an arrow that led somewhere is not the loose one
      have hid : b.id ≠ a.id := by
        intro hid
        rw [h.arrow_unique hb ha hid, hloose] at ht
        cases ht
      refine ⟨b, List.mem_map.mpr ⟨b, hb, ?_⟩, rfl, ht⟩
      rw [if_neg hid]
    · refine ⟨_, List.mem_map.mpr ⟨a, ha, rfl⟩, ?_, ?_⟩
      · rw [if_pos rfl]
      · rw [if_pos rfl]

/-- Changing arrows in place changes the arrows that start at an element in the same way,
    as long as it leaves each source. -/
theorem arrowsFrom_inPlace (g g' : Graph) {v : Arrow → Arrow}
    (harrows : g'.arrows = g.arrows.map v) (hsource : ∀ a, (v a).source = a.source)
    (x : ElementId) : g'.arrowsFrom x = (g.arrowsFrom x).map v := by
  rw [arrowsFrom, harrows, List.filter_map, arrowsFrom]
  refine congrArg (List.map v) (List.filter_congr fun a _ => ?_)
  rw [Function.comp_apply, hsource]

theorem leads_withLabel {g : Graph} {i : ArrowId} {label : Option Label} {x y : ElementId} :
    (g.withLabel i label).Leads x y ↔ g.Leads x y := by
  have hsource : ∀ a : Arrow, (if a.id = i then { a with label } else a).source = a.source := by
    intro a
    split <;> rfl
  have htarget : ∀ a : Arrow, (if a.id = i then { a with label } else a).target = a.target := by
    intro a
    split <;> rfl
  refine ⟨?_, ?_⟩
  · rintro ⟨a', ha', hs, ht⟩
    obtain ⟨a, ha, rfl⟩ := List.mem_map.mp ha'
    exact ⟨a, ha, (hsource a).symm.trans hs, (htarget a).symm.trans ht⟩
  · rintro ⟨a, ha, hs, ht⟩
    exact ⟨_, List.mem_map_of_mem ha, (hsource a).trans hs, (htarget a).trans ht⟩

/-! ## Guards -/

theorem requireElement_eq_ok {g : Graph} {x : ElementId} {u : Unit} :
    g.requireElement x = .ok u ↔ x ∈ g.ids := by
  rw [requireElement, ← contains_iff]
  by_cases h : g.contains x = true
  · rw [if_pos h]
    simp [h]
  · rw [if_neg h]
    simp [h]

theorem requireElement_of_mem {g : Graph} {x : ElementId} (hx : x ∈ g.ids) :
    g.requireElement x = .ok () :=
  requireElement_eq_ok.mpr hx

theorem requireElement_of_not_mem {g : Graph} {x : ElementId} (hx : x ∉ g.ids) :
    g.requireElement x = .error (.noElement x) := by
  have hno : ¬ g.contains x = true := fun hc => hx (contains_iff.mp hc)
  rw [requireElement, if_neg hno]

theorem requireRule_eq_ok {check : Except Defect Unit} {u : Unit} :
    requireRule check = .ok u ↔ check = .ok () := by
  cases check with
  | error defect => simp [requireRule, Except.mapError]
  | ok v => simp [requireRule, Except.mapError]

theorem checkArrow_eq_ok {g : Graph} {source target : ElementId} :
    g.checkArrow source (some target) = .ok () ↔
      g.checkRoom source = .ok () ∧ g.checkTarget source target = .ok () := by
  rw [checkArrow]
  cases g.checkRoom source with
  | error defect => simp
  | ok u => simp

/-- Where there is room at its source, what is left to ask of an arrow is its target. -/
theorem checkArrow_of_room {g : Graph} {source : ElementId}
    (hroom : g.checkRoom source = .ok ()) (target : ElementId) :
    g.checkArrow source (some target) = g.checkTarget source target := by
  rw [checkArrow, hroom]

/-! ## When an edit is carried out -/

theorem addElement_eq_ok {g : Graph} {kind : Kind} {script : Option String}
    {r : ElementId × Graph} :
    g.addElement kind script = .ok r ↔
      (kind = .entry → g.entry = none) ∧ r = (⟨g.elementsMade⟩, g.withElement kind script) := by
  refine ⟨?_, ?_⟩
  · intro h
    unfold addElement at h
    split at h
    · cases h
    · next hnot =>
      -- the only case that is refused is a second entry
      refine ⟨fun hk => ?_, (Except.ok.inj h).symm⟩
      cases hentry : g.entry with
      | none => rfl
      | some entry => exact absurd hentry (hnot entry hk)
  · rintro ⟨hguard, rfl⟩
    unfold addElement
    split
    · next hentry =>
      rw [hguard rfl] at hentry
      cases hentry
    · rfl

/-- An element is refused only as a second entry. -/
theorem addElement_eq_error {g : Graph} {kind : Kind} {script : Option String}
    {refusal : Refusal} :
    g.addElement kind script = .error refusal ↔
      kind = .entry ∧ ∃ x, g.entry = some x ∧ refusal = .secondEntry x := by
  refine ⟨fun h => ?_, ?_⟩
  · unfold addElement at h
    split at h
    · next x hentry => exact ⟨rfl, x, hentry, (Except.error.inj h).symm⟩
    · cases h
  · rintro ⟨rfl, x, hentry, rfl⟩
    unfold addElement
    rw [hentry]

theorem removeElement_eq_ok {g : Graph} {x : ElementId} {r : Element × Graph} :
    g.removeElement x = .ok r ↔ ∃ e, g.element? x = some e ∧ r = (e, g.withoutElement x) := by
  rw [removeElement]
  cases g.element? x with
  | none => simp
  | some e =>
    refine ⟨?_, ?_⟩
    · intro h
      exact ⟨e, rfl, (Except.ok.inj h).symm⟩
    · rintro ⟨f, hf, rfl⟩
      cases hf
      rfl

theorem setScript_eq_ok {g g' : Graph} {x : ElementId} {script : Option String} :
    g.setScript x script = .ok g' ↔ x ∈ g.ids ∧ g' = g.withScript x script := by
  rw [setScript, bind_eq_ok]
  simp only [requireElement_eq_ok]
  refine ⟨?_, ?_⟩
  · rintro ⟨-, hx, h⟩
    exact ⟨hx, (Except.ok.inj h).symm⟩
  · rintro ⟨hx, rfl⟩
    exact ⟨(), hx, rfl⟩

theorem beginArrow_eq_ok {g : Graph} {source : ElementId} {label : Option Label}
    {r : ArrowId × Graph} :
    g.beginArrow source label = .ok r ↔
      source ∈ g.ids ∧ g.checkRoom source = .ok () ∧
        r = (⟨g.arrowsMade⟩, g.withArrow source none label) := by
  rw [beginArrow]
  simp only [bind_eq_ok, requireElement_eq_ok, requireRule_eq_ok]
  refine ⟨?_, ?_⟩
  · rintro ⟨-, hs, -, hroom, h⟩
    exact ⟨hs, hroom, (Except.ok.inj h).symm⟩
  · rintro ⟨hs, hroom, rfl⟩
    exact ⟨(), hs, (), hroom, rfl⟩

theorem anchorArrow_eq_ok {g g' : Graph} {i : ArrowId} {target : ElementId} :
    g.anchorArrow i target = .ok g' ↔
      ∃ a, g.arrow? i = some a ∧ a.target = none ∧ target ∈ g.ids ∧
        g.checkTarget a.source target = .ok () ∧ g' = g.withTarget i target := by
  rw [anchorArrow]
  cases g.arrow? i with
  | none => simp
  | some a =>
    by_cases hloose : a.isAnchored = true
    · simp only [if_pos hloose]
      refine ⟨?_, ?_⟩
      · intro h
        cases h
      · rintro ⟨b, hb, hnone, -⟩
        cases hb
        simp [Arrow.isAnchored, hnone] at hloose
    · simp only [if_neg hloose]
      simp only [bind_eq_ok, requireElement_eq_ok, requireRule_eq_ok]
      refine ⟨?_, ?_⟩
      · rintro ⟨-, ht, -, hrule, h⟩
        exact ⟨a, rfl, by simpa [Arrow.isAnchored] using hloose, ht, hrule, (Except.ok.inj h).symm⟩
      · rintro ⟨b, hb, -, ht, hrule, rfl⟩
        cases hb
        exact ⟨(), ht, (), hrule, rfl⟩

theorem drawUnchecked_eq_ok {g : Graph} {source target : ElementId} {label : Option Label}
    {r : ArrowId × Graph} :
    g.drawUnchecked source target label = .ok r ↔
      source ∈ g.ids ∧ target ∈ g.ids ∧
        r = (⟨g.arrowsMade⟩, g.withArrow source (some target) label) := by
  rw [drawUnchecked]
  simp only [bind_eq_ok, requireElement_eq_ok]
  refine ⟨?_, ?_⟩
  · rintro ⟨-, hs, -, ht, h⟩
    exact ⟨hs, ht, (Except.ok.inj h).symm⟩
  · rintro ⟨hs, ht, rfl⟩
    exact ⟨(), hs, (), ht, rfl⟩

/-- Drawing under the rules is drawing without them where they hold. -/
theorem drawArrow_eq_ok {g : Graph} {source target : ElementId} {label : Option Label}
    {r : ArrowId × Graph} :
    g.drawArrow source target label = .ok r ↔
      g.drawUnchecked source target label = .ok r ∧
        g.checkRoom source = .ok () ∧ g.checkTarget source target = .ok () := by
  rw [drawUnchecked_eq_ok, drawArrow]
  simp only [bind_eq_ok, requireElement_eq_ok, requireRule_eq_ok, checkArrow_eq_ok]
  refine ⟨?_, ?_⟩
  · rintro ⟨-, hs, -, ht, -, hrules, h⟩
    exact ⟨⟨hs, ht, (Except.ok.inj h).symm⟩, hrules⟩
  · rintro ⟨⟨hs, ht, rfl⟩, hrules⟩
    exact ⟨(), hs, (), ht, (), hrules, rfl⟩

theorem removeArrow_eq_ok {g : Graph} {i : ArrowId} {r : Arrow × Graph} :
    g.removeArrow i = .ok r ↔ ∃ a, g.arrow? i = some a ∧ r = (a, g.withoutArrow a) := by
  rw [removeArrow]
  cases ha : g.arrow? i with
  | none => simp
  | some a =>
    -- the edit speaks of the number it was given, the change of the number of the arrow
    have hid : a.id = i := by simpa using List.find?_some ha
    subst hid
    refine ⟨?_, ?_⟩
    · intro h
      exact ⟨a, rfl, (Except.ok.inj h).symm⟩
    · rintro ⟨b, hb, rfl⟩
      cases hb
      rfl

theorem relabel_eq_ok {g g' : Graph} {i : ArrowId} {label : Option Label} :
    g.relabel i label = .ok g' ↔ ∃ a, g.arrow? i = some a ∧ g' = g.withLabel i label := by
  rw [relabel]
  cases g.arrow? i with
  | none => simp
  | some a =>
    refine ⟨?_, ?_⟩
    · intro h
      exact ⟨a, rfl, (Except.ok.inj h).symm⟩
    · rintro ⟨b, hb, rfl⟩
      rfl

/-! ## Changes -/

/-- The edit is let through by its guards and leads from `g` to the drawing. -/
inductive Change (g : Graph) : Edit → Graph → Prop where
  | addElement {kind : Kind} {script : Option String}
      (hentry : kind = .entry → g.entry = none) :
      Change g (.addElement kind script) (g.withElement kind script)
  | removeElement {x : ElementId} (hx : x ∈ g.ids) :
      Change g (.removeElement x) (g.withoutElement x)
  | beginArrow {source : ElementId} {label : Option Label} (hs : source ∈ g.ids)
      (hroom : g.checkRoom source = .ok ()) :
      Change g (.beginArrow source label) (g.withArrow source none label)
  | anchorArrow {i : ArrowId} {target : ElementId} {a : Arrow} (ha : g.arrow? i = some a)
      (hloose : a.target = none) (ht : target ∈ g.ids)
      (hrule : g.checkTarget a.source target = .ok ()) :
      Change g (.anchorArrow i target) (g.withTarget i target)
  | drawArrow {source target : ElementId} {label : Option Label} (hs : source ∈ g.ids)
      (ht : target ∈ g.ids) (hroom : g.checkRoom source = .ok ())
      (hrule : g.checkTarget source target = .ok ()) :
      Change g (.drawArrow source target label) (g.withArrow source (some target) label)
  | drawUnchecked {source target : ElementId} {label : Option Label} (hs : source ∈ g.ids)
      (ht : target ∈ g.ids) :
      Change g (.drawUnchecked source target label) (g.withArrow source (some target) label)
  | removeArrow {i : ArrowId} {a : Arrow} (ha : g.arrow? i = some a) :
      Change g (.removeArrow i) (g.withoutArrow a)
  | relabel {i : ArrowId} {label : Option Label} {a : Arrow} (ha : g.arrow? i = some a) :
      Change g (.relabel i label) (g.withLabel i label)
  | setScript {x : ElementId} {script : Option String} (hx : x ∈ g.ids) :
      Change g (.setScript x script) (g.withScript x script)

theorem mem_ids_of_element? {g : Graph} {x : ElementId} {e : Element}
    (h : g.element? x = some e) : x ∈ g.ids := by
  rw [← contains_iff, contains, h]
  rfl

/-- An edit that is carried out is one of the changes. -/
theorem apply_change {g g' : Graph} {edit : Edit} {reply : Edit.Reply}
    (h : g.apply edit = .ok (reply, g')) : g.Change edit g' := by
  cases edit with
  | addElement kind script =>
    obtain ⟨r, hr, h⟩ := bind_eq_ok.mp h
    obtain ⟨hentry, rfl⟩ := addElement_eq_ok.mp hr
    cases h
    exact .addElement hentry
  | removeElement x =>
    obtain ⟨r, hr, h⟩ := bind_eq_ok.mp h
    obtain ⟨e, he, rfl⟩ := removeElement_eq_ok.mp hr
    cases h
    exact .removeElement (mem_ids_of_element? he)
  | beginArrow source label =>
    obtain ⟨r, hr, h⟩ := bind_eq_ok.mp h
    obtain ⟨hs, hroom, rfl⟩ := beginArrow_eq_ok.mp hr
    cases h
    exact .beginArrow hs hroom
  | anchorArrow i target =>
    obtain ⟨r, hr, h⟩ := bind_eq_ok.mp h
    obtain ⟨a, ha, hloose, ht, hrule, rfl⟩ := anchorArrow_eq_ok.mp hr
    cases h
    exact .anchorArrow ha hloose ht hrule
  | drawArrow source target label =>
    obtain ⟨r, hr, h⟩ := bind_eq_ok.mp h
    obtain ⟨hdrawn, hroom, hrule⟩ := drawArrow_eq_ok.mp hr
    obtain ⟨hs, ht, rfl⟩ := drawUnchecked_eq_ok.mp hdrawn
    cases h
    exact .drawArrow hs ht hroom hrule
  | drawUnchecked source target label =>
    obtain ⟨r, hr, h⟩ := bind_eq_ok.mp h
    obtain ⟨hs, ht, rfl⟩ := drawUnchecked_eq_ok.mp hr
    cases h
    exact .drawUnchecked hs ht
  | removeArrow i =>
    obtain ⟨r, hr, h⟩ := bind_eq_ok.mp h
    obtain ⟨a, ha, rfl⟩ := removeArrow_eq_ok.mp hr
    cases h
    exact .removeArrow ha
  | relabel i label =>
    obtain ⟨r, hr, h⟩ := bind_eq_ok.mp h
    obtain ⟨a, ha, rfl⟩ := relabel_eq_ok.mp hr
    cases h
    exact .relabel ha
  | setScript x script =>
    obtain ⟨r, hr, h⟩ := bind_eq_ok.mp h
    obtain ⟨hx, rfl⟩ := setScript_eq_ok.mp hr
    cases h
    exact .setScript hx

theorem after_of_ok {g g' : Graph} {edit : Edit} {reply : Edit.Reply}
    (h : g.apply edit = .ok (reply, g')) : g.after edit = g' := by
  rw [after, h]

/-- A refused edit leaves the drawing as it was. -/
theorem after_of_error {g : Graph} {edit : Edit} {refusal : Refusal}
    (h : g.apply edit = .error refusal) : g.after edit = g := by
  rw [after, h]

/-- After an edit the drawing is as it was, or changed by it. -/
theorem after_cases (g : Graph) (edit : Edit) :
    g.after edit = g ∨ g.Change edit (g.after edit) := by
  cases h : g.apply edit with
  | error refusal => exact .inl (after_of_error h)
  | ok r =>
    rw [after_of_ok h]
    exact .inr (apply_change h)

/-! ## Runs of edits -/

theorem ofEdits_concat (edits : List Edit) (edit : Edit) :
    ofEdits (edits ++ [edit]) = (ofEdits edits).after edit := by
  rw [ofEdits, List.foldl_append]
  rfl

/-- What holds of the empty drawing and is kept by every change that `allowed`
    edits make holds of every drawing they lead to. -/
theorem ofEdits_induction {P : Graph → Prop} (allowed : Edit → Prop) (hempty : P empty)
    (hchange : ∀ g edit g', allowed edit → P g → g.Change edit g' → P g')
    (edits : List Edit) (hall : ∀ edit ∈ edits, allowed edit) : P (ofEdits edits) := by
  -- the induction is on the edits still to come, from any drawing that has the property
  have hrun : ∀ (l : List Edit) (g : Graph), (∀ edit ∈ l, allowed edit) → P g →
      P (l.foldl after g) := by
    intro l
    induction l with
    | nil => exact fun g _ hg => hg
    | cons edit rest ih =>
      intro g hl hg
      have hstep : P (g.after edit) := by
        rcases g.after_cases edit with h | h
        · rw [h]
          exact hg
        · exact hchange g edit _ (hl edit List.mem_cons_self) hg h
      exact ih _ (fun e he => hl e (List.mem_cons_of_mem _ he)) hstep
  exact hrun edits empty hall hempty

end Graph

end Flowchart
