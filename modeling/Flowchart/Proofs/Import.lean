/-
  Flowchart.Proofs.Import

  Making a diagram under the rules for arrows and without them.  The rules are
  asked of every arrow against the drawing so far, but a drawing only grows
  while arrows are placed on it, and less on a drawing breaks no rule.  So the
  rules let all arrows through just when they hold on the drawing that is made
  without them (`placeArrows_checked_iff`).

  The rules read the lines of a drawing (what each arrow joins, its number left
  out) in no order, so the order in which a definition gives its arrows does not
  decide whether they are let through.
-/

import Flowchart.Definition.Build
import Flowchart.Proofs.ArrowRules

namespace Flowchart

/-! ## Lines -/

/-- What an arrow joins and how it is labelled. -/
def Arrow.line (a : Arrow) : ElementId × Option ElementId × Option Label :=
  (a.source, a.target, a.label)

namespace Graph

/-- The lines of a drawing, oldest first. -/
def lines (g : Graph) : List (ElementId × Option ElementId × Option Label) :=
  g.arrows.map Arrow.line

theorem length_arrowsFrom_eq (g : Graph) (x : ElementId) :
    (g.arrowsFrom x).length = g.lines.countP fun l => l.1 = x := by
  rw [lines, List.countP_map, arrowsFrom, List.countP_eq_length_filter]
  rfl

theorem leads_iff_lines {g : Graph} {x y : ElementId} :
    g.Leads x y ↔ ∃ label, (x, some y, label) ∈ g.lines := by
  rw [lines]
  refine ⟨?_, ?_⟩
  · rintro ⟨a, ha, rfl, ht⟩
    refine ⟨a.label, List.mem_map.mpr ⟨a, ha, ?_⟩⟩
    rw [Arrow.line, ht]
  · rintro ⟨label, hl⟩
    obtain ⟨a, ha, heq⟩ := List.mem_map.mp hl
    obtain ⟨hs, hrest⟩ := Prod.mk.inj heq
    exact ⟨a, ha, hs, (Prod.mk.inj hrest).1⟩

/-- The rules for arrows do not ask in which order the lines were drawn. -/
theorem ArrowRules.of_perm {g g' : Graph} (hr : g.ArrowRules)
    (hkind : ∀ x kind, g'.HasKind x kind → g.HasKind x kind) (hlines : g'.lines.Perm g.lines) :
    g'.ArrowRules := by
  refine hr.mono hkind (fun x => ?_) (fun x y hl => ?_)
  · rw [length_arrowsFrom_eq, length_arrowsFrom_eq, hlines.countP_eq]
  · obtain ⟨label, hmem⟩ := leads_iff_lines.mp hl
    exact leads_iff_lines.mpr ⟨label, hlines.mem_iff.mp hmem⟩

end Graph

/-! ## Elements in their places -/

/-- The keys stand for elements of a well-formed drawing. -/
structure Placed (keys : KeyTable) (g : Graph) : Prop where
  wellFormed : g.WellFormed
  keys_live : ∀ key x, keys.element? key = some x → x ∈ g.ids

/-- A key stands for what it stood for before a key was added, or for the element added. -/
theorem KeyTable.element?_concat (keys : KeyTable) (k key : String) (x : ElementId) :
    KeyTable.element? (keys ++ [(k, x)]) key
      = (keys.element? key).or (if k = key then some x else none) := by
  rw [KeyTable.element?, List.find?_append, Option.map_or, List.find?_singleton]
  by_cases hk : k = key
  · rw [if_pos hk, if_pos (decide_eq_true hk)]
    rfl
  · rw [if_neg hk, if_neg (by simpa using hk)]
    rfl

theorem KeyTable.element?_append {keys : KeyTable} {key k : String} {x y : ElementId}
    (h : KeyTable.element? (keys ++ [(k, x)]) key = some y) :
    keys.element? key = some y ∨ y = x := by
  rw [KeyTable.element?_concat, Option.or_eq_some_iff] at h
  rcases h with h | ⟨-, h⟩
  · exact .inl h
  · by_cases hk : k = key
    · rw [if_pos hk] at h
      exact .inr (Option.some.inj h).symm
    · rw [if_neg hk] at h
      cases h

/-- Placing elements leaves the keys standing for elements of a drawing on which the rules
    for arrows hold. -/
theorem placeElements_placed {specs : List ElementSpec} {keys keys' : KeyTable} {g g' : Graph}
    (h : placeElements keys g specs = .ok (keys', g')) (hp : Placed keys g)
    (hr : g.ArrowRules) : Placed keys' g' ∧ g'.ArrowRules := by
  induction specs generalizing keys g with
  | nil =>
    cases h
    exact ⟨hp, hr⟩
  | cons spec rest ih =>
    rw [placeElements] at h
    cases hkey : keys.element? spec.key with
    | some x =>
      rw [hkey] at h
      cases h
    | none =>
      rw [hkey] at h
      cases hadd : g.addElement spec.kind spec.script with
      | error refusal =>
        rw [hadd] at h
        cases h
      | ok r =>
        rw [hadd] at h
        obtain ⟨hentry, rfl⟩ := Graph.addElement_eq_ok.mp hadd
        refine ih h ⟨hp.wellFormed.withElement _ hentry, ?_⟩ (hr.addElement hp.wellFormed _ _)
        -- the old keys stand for what they stood for, the new key for the new element
        intro key y hy
        rw [Graph.withElement_ids]
        rcases KeyTable.element?_append hy with hy | rfl
        · exact List.mem_append_left _ (hp.keys_live key y hy)
        · exact List.mem_append_right _ (List.mem_singleton_self _)

/-! ## One arrow -/

theorem ArrowSpec.resolve_eq_ok {spec : ArrowSpec} {keys : KeyTable} {key : String}
    {x : ElementId} : spec.resolve keys key = .ok x ↔ keys.element? key = some x := by
  rw [ArrowSpec.resolve]
  cases keys.element? key with
  | none => simp
  | some y => simp

theorem placeArrow_eq_ok {checked : Bool} {spec : ArrowSpec} {keys : KeyTable} {g g' : Graph} :
    placeArrow checked keys g spec = .ok g' ↔
      ∃ source target a, keys.element? spec.source = some source ∧
        keys.element? spec.target = some target ∧
          (if checked then g.drawArrow source target spec.label
            else g.drawUnchecked source target spec.label) = .ok (a, g') := by
  rw [placeArrow]
  simp only [bind_eq_ok, ArrowSpec.resolve_eq_ok]
  refine ⟨?_, ?_⟩
  · rintro ⟨source, hs, target, ht, h⟩
    split at h
    · cases h
    · next a g'' hdrawn =>
      cases h
      exact ⟨source, target, a, hs, ht, hdrawn⟩
  · rintro ⟨source, target, a, hs, ht, hdrawn⟩
    refine ⟨source, hs, target, ht, ?_⟩
    rw [hdrawn]

/-- An arrow is placed without the rules when its keys stand for elements. -/
theorem placeArrow_unchecked_iff {spec : ArrowSpec} {keys : KeyTable} {g g' : Graph}
    (hp : Placed keys g) :
    placeArrow false keys g spec = .ok g' ↔
      ∃ source target, keys.element? spec.source = some source ∧
        keys.element? spec.target = some target ∧
          g' = g.withArrow source (some target) spec.label := by
  rw [placeArrow_eq_ok]
  simp only [Bool.false_eq_true, if_false, Graph.drawUnchecked_eq_ok, Prod.mk.injEq]
  refine ⟨?_, ?_⟩
  · rintro ⟨source, target, a, hs, ht, -, -, -, hg⟩
    exact ⟨source, target, hs, ht, hg⟩
  · rintro ⟨source, target, hs, ht, hg⟩
    exact ⟨source, target, _, hs, ht, hp.keys_live _ _ hs, hp.keys_live _ _ ht, rfl, hg⟩

theorem Placed.withArrow {keys : KeyTable} {g : Graph} (hp : Placed keys g)
    {s t : String} {source target : ElementId} (label : Option Label)
    (hs : keys.element? s = some source) (ht : keys.element? t = some target) :
    Placed keys (g.withArrow source (some target) label) := by
  refine ⟨?_, ?_⟩
  · refine hp.wellFormed.withArrow label (hp.keys_live _ _ hs) fun x hx => ?_
    rw [← Option.some.inj hx]
    exact hp.keys_live _ _ ht
  · intro key x hx
    rw [Graph.withArrow_ids]
    exact hp.keys_live key x hx

theorem Placed.placeArrow {keys : KeyTable} {g g' : Graph} {spec : ArrowSpec}
    (hp : Placed keys g) (h : placeArrow false keys g spec = .ok g') : Placed keys g' := by
  obtain ⟨source, target, hs, ht, rfl⟩ := (placeArrow_unchecked_iff hp).mp h
  exact hp.withArrow _ hs ht

/-- Where the rules hold before, an arrow is placed under them just when it is placed without
    them and they hold after. -/
theorem placeArrow_checked_iff {spec : ArrowSpec} {keys : KeyTable} {g g' : Graph}
    (hp : Placed keys g) (hr : g.ArrowRules) :
    placeArrow true keys g spec = .ok g' ↔
      placeArrow false keys g spec = .ok g' ∧ g'.ArrowRules := by
  rw [placeArrow_unchecked_iff hp, placeArrow_eq_ok]
  simp only [if_true, Graph.drawArrow_eq_ok, Graph.drawUnchecked_eq_ok, Prod.mk.injEq]
  refine ⟨?_, ?_⟩
  · rintro ⟨source, target, a, hs, ht, ⟨-, -, -, rfl⟩, hroom, hrule⟩
    exact ⟨⟨source, target, hs, ht, rfl⟩,
      hp.wellFormed.arrowRules_drawn_iff.mpr ⟨hr, hroom, hrule⟩⟩
  · rintro ⟨⟨source, target, hs, ht, rfl⟩, hr'⟩
    obtain ⟨-, hroom, hrule⟩ := hp.wellFormed.arrowRules_drawn_iff.mp hr'
    exact ⟨source, target, _, hs, ht,
      ⟨hp.keys_live _ _ hs, hp.keys_live _ _ ht, rfl, rfl⟩, hroom, hrule⟩

/-! ## All arrows -/

theorem placeArrows_cons_eq_ok {checked : Bool} {spec : ArrowSpec} {specs : List ArrowSpec}
    {keys : KeyTable} {g g' : Graph} :
    placeArrows checked keys g (spec :: specs) = .ok g' ↔
      ∃ h, placeArrow checked keys g spec = .ok h ∧ placeArrows checked keys h specs = .ok g' := by
  rw [placeArrows]
  cases placeArrow checked keys g spec with
  | error e => simp
  | ok h => simp

theorem Placed.placeArrows {specs : List ArrowSpec} {keys : KeyTable} {g g' : Graph}
    (hp : Placed keys g) (h : placeArrows false keys g specs = .ok g') : Placed keys g' := by
  induction specs generalizing g with
  | nil =>
    cases h
    exact hp
  | cons spec rest ih =>
    obtain ⟨h', hone, hrest⟩ := placeArrows_cons_eq_ok.mp h
    exact ih (hp.placeArrow hone) hrest

/-- What holds before an arrow is drawn if it holds after also holds before arrows are placed if
    it holds after. -/
theorem holds_before_placeArrows {P : Graph → Prop} {keys : KeyTable}
    (hback : ∀ g source target label, g.WellFormed →
      (g.withArrow source (some target) label).WellFormed →
        P (g.withArrow source (some target) label) → P g)
    {specs : List ArrowSpec} {g g' : Graph} (hp : Placed keys g)
    (h : placeArrows false keys g specs = .ok g') (hafter : P g') : P g := by
  induction specs generalizing g with
  | nil =>
    cases h
    exact hafter
  | cons spec rest ih =>
    obtain ⟨h', hone, hrest⟩ := placeArrows_cons_eq_ok.mp h
    -- backwards: it holds before the last arrows, and so before the first
    have hp' := hp.placeArrow hone
    have hbetween := ih hp' hrest
    obtain ⟨source, target, -, -, rfl⟩ := (placeArrow_unchecked_iff hp).mp hone
    exact hback g source target spec.label hp.wellFormed hp'.wellFormed hbetween

/-- The rules hold on a drawing before arrows are placed if they hold after. -/
theorem arrowRules_of_placeArrows {specs : List ArrowSpec} {keys : KeyTable} {g g' : Graph}
    (hp : Placed keys g) (h : placeArrows false keys g specs = .ok g') (hr : g'.ArrowRules) :
    g.ArrowRules :=
  holds_before_placeArrows (P := Graph.ArrowRules)
    (fun _ _ _ _ hwf _ hdrawn => (hwf.arrowRules_drawn_iff.mp hdrawn).1) hp h hr

/-- Arrows are placed under the rules just when they are placed without them and the rules
    hold on the drawing at the end. -/
theorem placeArrows_checked_iff {specs : List ArrowSpec} {keys : KeyTable} {g g' : Graph}
    (hp : Placed keys g) (hr : g.ArrowRules) :
    placeArrows true keys g specs = .ok g' ↔
      placeArrows false keys g specs = .ok g' ∧ g'.ArrowRules := by
  induction specs generalizing g with
  | nil =>
    refine ⟨fun h => ?_, fun h => h.1⟩
    cases h
    exact ⟨rfl, hr⟩
  | cons spec rest ih =>
    rw [placeArrows_cons_eq_ok, placeArrows_cons_eq_ok]
    refine ⟨?_, ?_⟩
    · rintro ⟨h, hone, hrest⟩
      obtain ⟨hfree, hr'⟩ := (placeArrow_checked_iff hp hr).mp hone
      obtain ⟨hall, hend⟩ := (ih (hp.placeArrow hfree) hr').mp hrest
      exact ⟨⟨h, hfree, hall⟩, hend⟩
    · rintro ⟨⟨h, hfree, hall⟩, hend⟩
      -- what holds at the end held after the first arrow
      have hp' := hp.placeArrow hfree
      have hr' := arrowRules_of_placeArrows hp' hall hend
      exact ⟨h, (placeArrow_checked_iff hp hr).mpr ⟨hfree, hr'⟩, (ih hp' hr').mpr ⟨hall, hend⟩⟩

/-! ## The drawing without the rules -/

/-- The line that an arrow of a definition stands for. -/
def ArrowSpec.line? (keys : KeyTable) (spec : ArrowSpec) :
    Option (ElementId × Option ElementId × Option Label) := do
  let source ← keys.element? spec.source
  let target ← keys.element? spec.target
  return (source, some target, spec.label)

theorem ArrowSpec.line?_eq_some {keys : KeyTable} {spec : ArrowSpec} {source target : ElementId}
    (hs : keys.element? spec.source = some source)
    (ht : keys.element? spec.target = some target) :
    spec.line? keys = some (source, some target, spec.label) := by
  rw [ArrowSpec.line?, hs, ht]
  rfl

theorem ArrowSpec.ends_of_line? {keys : KeyTable} {spec : ArrowSpec}
    (h : (spec.line? keys).isSome = true) :
    ∃ source target, keys.element? spec.source = some source ∧
      keys.element? spec.target = some target := by
  rw [ArrowSpec.line?] at h
  cases hs : keys.element? spec.source with
  | none =>
    rw [hs] at h
    cases h
  | some source =>
    cases ht : keys.element? spec.target with
    | none =>
      rw [hs, ht] at h
      cases h
    | some target => exact ⟨source, target, rfl, rfl⟩

theorem lines_withArrow (g : Graph) (source : ElementId) (target : Option ElementId)
    (label : Option Label) :
    (g.withArrow source target label).lines = g.lines ++ [(source, target, label)] := by
  rw [Graph.lines, Graph.withArrow_arrows, List.map_append]
  rfl

/-- Without the rules, arrows are placed just when all their keys stand for elements. -/
theorem placeArrows_unchecked_isOk {specs : List ArrowSpec} {keys : KeyTable} {g : Graph}
    (hp : Placed keys g) :
    (∃ g', placeArrows false keys g specs = .ok g') ↔
      ∀ spec ∈ specs, (spec.line? keys).isSome = true := by
  induction specs generalizing g with
  | nil => exact ⟨fun _ spec hspec => absurd hspec List.not_mem_nil, fun _ => ⟨g, rfl⟩⟩
  | cons spec rest ih =>
    rw [List.forall_mem_cons]
    refine ⟨?_, ?_⟩
    · rintro ⟨g', h⟩
      obtain ⟨h', hone, hrest⟩ := placeArrows_cons_eq_ok.mp h
      obtain ⟨source, target, hs, ht, -⟩ := (placeArrow_unchecked_iff hp).mp hone
      refine ⟨?_, (ih (hp.placeArrow hone)).mp ⟨g', hrest⟩⟩
      rw [ArrowSpec.line?_eq_some hs ht]
      rfl
    · rintro ⟨hspec, hall⟩
      obtain ⟨source, target, hs, ht⟩ := ArrowSpec.ends_of_line? hspec
      obtain ⟨g', hrest⟩ := (ih (hp.withArrow spec.label hs ht)).mpr hall
      refine ⟨g', placeArrows_cons_eq_ok.mpr ⟨_, ?_, hrest⟩⟩
      exact (placeArrow_unchecked_iff hp).mpr ⟨source, target, hs, ht, rfl⟩

/-- Whether all keys stand for elements is asked of each arrow alone. -/
theorem placeArrows_unchecked_isOk_perm {specs specs' : List ArrowSpec} {keys : KeyTable}
    {g : Graph} (hp : Placed keys g) (hperm : specs'.Perm specs) :
    (∃ graph, placeArrows false keys g specs = .ok graph) ↔
      ∃ graph, placeArrows false keys g specs' = .ok graph := by
  rw [placeArrows_unchecked_isOk hp, placeArrows_unchecked_isOk hp]
  exact forall_congr' fun spec => by rw [hperm.mem_iff]

/-- Without the rules, the drawing gets the lines of the definition in their order, and its
    elements keep their kinds. -/
theorem placeArrows_unchecked_lines {specs : List ArrowSpec} {keys : KeyTable} {g g' : Graph}
    (hp : Placed keys g) (h : placeArrows false keys g specs = .ok g') :
    g'.lines = g.lines ++ specs.filterMap (ArrowSpec.line? keys) ∧
      ∀ x kind, g'.HasKind x kind ↔ g.HasKind x kind := by
  induction specs generalizing g with
  | nil =>
    cases h
    exact ⟨(List.append_nil _).symm, fun _ _ => Iff.rfl⟩
  | cons spec rest ih =>
    obtain ⟨h', hone, hrest⟩ := placeArrows_cons_eq_ok.mp h
    obtain ⟨hlines, hkind⟩ := ih (hp.placeArrow hone) hrest
    obtain ⟨source, target, hs, ht, rfl⟩ := (placeArrow_unchecked_iff hp).mp hone
    refine ⟨?_, fun x kind => (hkind x kind).trans Graph.hasKind_withArrow⟩
    rw [hlines, lines_withArrow, List.filterMap_cons_some (ArrowSpec.line?_eq_some hs ht),
      List.append_assoc, List.singleton_append]

/-- Arrows that are placed under the rules in one order are placed in any other. -/
theorem placeArrows_checked_perm {specs specs' : List ArrowSpec} {keys : KeyTable} {g g₁ : Graph}
    (hp : Placed keys g) (hr : g.ArrowRules) (hperm : specs'.Perm specs)
    (h : placeArrows true keys g specs = .ok g₁) :
    ∃ g₂, placeArrows true keys g specs' = .ok g₂ := by
  obtain ⟨hfree, hend⟩ := (placeArrows_checked_iff hp hr).mp h
  obtain ⟨hlines, hkind⟩ := placeArrows_unchecked_lines hp hfree
  -- without the rules only the keys are asked for, whatever the order
  obtain ⟨g₂, hfree'⟩ := (placeArrows_unchecked_isOk_perm hp hperm).mp ⟨g₁, hfree⟩
  obtain ⟨hlines', hkind'⟩ := placeArrows_unchecked_lines hp hfree'
  refine ⟨g₂, (placeArrows_checked_iff hp hr).mpr ⟨hfree', ?_⟩⟩
  -- the two drawings have the same elements, and the same lines in another order
  refine hend.of_perm (fun x kind hk => (hkind x kind).mpr ((hkind' x kind).mp hk)) ?_
  rw [hlines, hlines']
  exact (hperm.filterMap _).append_left _

/-! ## Diagrams -/

namespace Definition

/-- The diagram that shows a drawing under what the definition says of it. -/
def around (d : Definition) (graph : Graph) : Diagram :=
  { name := d.name
    description := d.description
    formerName := d.formerName
    version := d.version
    graph }

theorem buildWith_eq_ok {d : Definition} {checked : Bool} {diagram : Diagram} :
    d.buildWith checked = .ok diagram ↔
      ∃ keys g graph, placeElements [] .empty d.elements = .ok (keys, g) ∧
        placeArrows checked keys g d.arrows = .ok graph ∧ diagram = d.around graph := by
  rw [buildWith, bind_eq_ok]
  refine ⟨?_, ?_⟩
  · rintro ⟨⟨keys, g⟩, hplace, h⟩
    obtain ⟨graph, harrows, h⟩ := bind_eq_ok.mp h
    cases h
    exact ⟨keys, g, graph, hplace, harrows, rfl⟩
  · rintro ⟨keys, g, graph, hplace, harrows, rfl⟩
    exact ⟨(keys, g), hplace, bind_eq_ok.mpr ⟨graph, harrows, rfl⟩⟩

/-- Once its elements are placed, a definition's keys stand for elements and no rule for
    arrows is broken. -/
theorem placed {d : Definition} {keys : KeyTable} {g : Graph}
    (h : placeElements [] .empty d.elements = .ok (keys, g)) : Placed keys g ∧ g.ArrowRules := by
  refine placeElements_placed h ⟨Graph.WellFormed.empty, ?_⟩ Graph.ArrowRules.empty
  intro key x hx
  cases hx

theorem build_perm {d : Definition} {arrows : List ArrowSpec} {diagram : Diagram}
    (hperm : arrows.Perm d.arrows) (h : d.build = .ok diagram) :
    ∃ diagram', { d with arrows }.build = .ok diagram' := by
  obtain ⟨keys, g, graph, hplace, harrows, -⟩ := buildWith_eq_ok.mp h
  obtain ⟨hp, hr⟩ := placed hplace
  obtain ⟨graph', harrows'⟩ := placeArrows_checked_perm hp hr hperm harrows
  exact ⟨_, buildWith_eq_ok.mpr ⟨keys, g, graph', hplace, harrows', rfl⟩⟩

/-- A definition becomes a diagram under the rules for arrows just when it becomes that diagram
    without them, the diagram passes the check of its arrows, and no arrows between branches
    close a loop.  The order of its arrows does not decide whether it does. -/
theorem build_iff_buildUnchecked (d : Definition) :
    (∀ diagram, d.build = .ok diagram ↔
      d.buildUnchecked = .ok diagram ∧ diagram.graph.checkLimits = .ok () ∧
        diagram.graph.LoopFree) ∧
    ∀ arrows, arrows.Perm d.arrows →
      ((∃ diagram, d.build = .ok diagram) ↔ ∃ diagram, { d with arrows }.build = .ok diagram) := by
  refine ⟨fun diagram => ?_, fun arrows hperm => ⟨?_, ?_⟩⟩
  · rw [build, buildUnchecked, buildWith_eq_ok, buildWith_eq_ok]
    refine ⟨?_, ?_⟩
    · rintro ⟨keys, g, graph, hplace, harrows, rfl⟩
      obtain ⟨hp, hr⟩ := placed hplace
      obtain ⟨hfree, hend⟩ := (placeArrows_checked_iff hp hr).mp harrows
      have hwf := (hp.placeArrows hfree).wellFormed
      exact ⟨⟨keys, g, graph, hplace, hfree, rfl⟩, hwf.arrowRules_iff.mp hend⟩
    · rintro ⟨⟨keys, g, graph, hplace, hfree, rfl⟩, hend⟩
      obtain ⟨hp, hr⟩ := placed hplace
      have hwf := (hp.placeArrows hfree).wellFormed
      have hrules := hwf.arrowRules_iff.mpr hend
      exact ⟨keys, g, graph, hplace, (placeArrows_checked_iff hp hr).mpr ⟨hfree, hrules⟩, rfl⟩
  · rintro ⟨diagram, h⟩
    exact build_perm hperm h
  · rintro ⟨diagram, h⟩
    exact build_perm (d := { d with arrows }) hperm.symm h

end Definition

end Flowchart
