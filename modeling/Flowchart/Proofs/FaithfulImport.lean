/-
  Flowchart.Proofs.FaithfulImport

  What a definition becomes, and why it may become nothing.  `drawingOf` reads
  the drawing off a definition: the element in the i-th place has the number i,
  the arrow in the j-th place the number j, and its ends are the places of the
  elements whose keys it names.

  Elements and arrows are placed one after the other, and a placing that takes a
  list so is a scan (`Scans`): behind every prefix of the list it has come to the
  drawing of that prefix, and it stops at the first item with a fault.  What a
  fault is depends on the items before: `ElementSpec.Fault` and `ArrowSpec.Fault`
  list the faults, each with its error, in the order in which they are asked.

  A definition therefore becomes the drawing that it describes, or the error is
  that of its first fault (`build_faithful`).
-/

import Mathlib.Data.List.Induction
import Mathlib.Data.List.Nodup
import Flowchart.Proofs.UncheckedImport

namespace Flowchart

/-! ## The first fault in a list -/

section FirstFault

variable {α ε σ : Type}

/-- No item of the list is at fault.  Whether an item is, and with which error, may depend on
    the items before it. -/
def Faultless (fault : List α → α → ε → Prop) (items : List α) : Prop :=
  ∀ i item, items[i]? = some item → ∀ error, ¬ fault (items.take i) item error

/-- The first item at fault has this error. -/
def FirstFault (fault : List α → α → ε → Prop) (items : List α) (error : ε) : Prop :=
  ∃ i item, items[i]? = some item ∧ Faultless fault (items.take i) ∧
    fault (items.take i) item error

variable {fault : List α → α → ε → Prop}

/-- An item of a list with one more at its end is an item of the list, or the last. -/
theorem getElem?_concat_cases {items : List α} {last item : α} {i : Nat}
    (h : (items ++ [last])[i]? = some item) :
    (items[i]? = some item ∧ (items ++ [last]).take i = items.take i) ∨
      (item = last ∧ (items ++ [last]).take i = items) := by
  by_cases hi : i < items.length
  · rw [List.getElem?_append_left hi] at h
    exact .inl ⟨h, List.take_append_of_le_length (Nat.le_of_lt hi)⟩
  · have hlen := (List.getElem?_eq_some_iff.mp h).1
    have heq : i = items.length := by
      rw [List.length_append, List.length_singleton] at hlen
      omega
    subst heq
    rw [List.getElem?_concat_length] at h
    exact .inr ⟨(Option.some.inj h).symm, List.take_left⟩

theorem getElem?_concat_of_some {items : List α} {item : α} {i : Nat}
    (h : items[i]? = some item) (last : α) :
    (items ++ [last])[i]? = some item ∧ (items ++ [last]).take i = items.take i := by
  have hi := (List.getElem?_eq_some_iff.mp h).1
  rw [List.getElem?_append_left hi]
  exact ⟨h, List.take_append_of_le_length (Nat.le_of_lt hi)⟩

theorem faultless_concat {items : List α} {last : α} :
    Faultless fault (items ++ [last]) ↔
      Faultless fault items ∧ ∀ error, ¬ fault items last error := by
  refine ⟨fun h => ⟨fun i item hitem => ?_, ?_⟩, ?_⟩
  · obtain ⟨hitem', htake⟩ := getElem?_concat_of_some hitem last
    rw [← htake]
    exact h i item hitem'
  · have hlast := h items.length last List.getElem?_concat_length
    rwa [List.take_left] at hlast
  · rintro ⟨h, hlast⟩ i item hitem
    rcases getElem?_concat_cases hitem with ⟨hitem, htake⟩ | ⟨rfl, htake⟩
    · rw [htake]
      exact h i item hitem
    · rw [htake]
      exact hlast

theorem firstFault_concat {items : List α} {last : α} {error : ε} :
    FirstFault fault (items ++ [last]) error ↔
      FirstFault fault items error ∨ (Faultless fault items ∧ fault items last error) := by
  refine ⟨?_, ?_⟩
  · rintro ⟨i, item, hitem, hbefore, hfault⟩
    rcases getElem?_concat_cases hitem with ⟨hitem, htake⟩ | ⟨rfl, htake⟩
    · rw [htake] at hbefore hfault
      exact .inl ⟨i, item, hitem, hbefore, hfault⟩
    · rw [htake] at hbefore hfault
      exact .inr ⟨hbefore, hfault⟩
  · rintro (⟨i, item, hitem, hbefore, hfault⟩ | ⟨hbefore, hfault⟩)
    · obtain ⟨hitem', htake⟩ := getElem?_concat_of_some hitem last
      refine ⟨i, item, hitem', ?_, ?_⟩
      · rw [htake]
        exact hbefore
      · rw [htake]
        exact hfault
    · refine ⟨items.length, last, List.getElem?_concat_length, ?_, ?_⟩
      · rw [List.take_left]
        exact hbefore
      · rw [List.take_left]
        exact hfault

theorem faultless_or_firstFault (fault : List α → α → ε → Prop) (items : List α) :
    Faultless fault items ∨ ∃ error, FirstFault fault items error := by
  induction items using List.reverseRecOn with
  | nil => exact .inl fun i item hitem => by cases hitem
  | append_singleton items last ih =>
    rcases ih with hnone | ⟨error, hfirst⟩
    · by_cases hlast : ∃ error, fault items last error
      · obtain ⟨error, hfault⟩ := hlast
        exact .inr ⟨error, firstFault_concat.mpr (.inr ⟨hnone, hfault⟩)⟩
      · exact .inl (faultless_concat.mpr ⟨hnone, not_exists.mp hlast⟩)
    · exact .inr ⟨error, firstFault_concat.mpr (.inl hfirst)⟩

theorem foldlM_concat (step : σ → α → Except ε σ) (start : σ) (items : List α) (last : α) :
    (items ++ [last]).foldlM step start
      = items.foldlM step start >>= fun reached => step reached last := by
  simp only [List.foldlM_append, List.foldlM_cons, List.foldlM_nil, bind_pure]

/-- The step takes the items of a list one after the other.  Behind the items `before` it has
    come to `state before`; it refuses an item at fault with the error of the fault and takes
    any other, and what is `kept` is kept. -/
structure Scans (step : σ → α → Except ε σ) (state : List α → σ) (kept : List α → Prop)
    (fault : List α → α → ε → Prop) : Prop where
  start : kept []
  refuses : ∀ before item error, kept before → fault before item error →
    step (state before) item = .error error
  takes : ∀ before item, kept before → (∀ error, ¬ fault before item error) →
    step (state before) item = .ok (state (before ++ [item])) ∧ kept (before ++ [item])

namespace Scans

variable {step : σ → α → Except ε σ} {state : List α → σ} {kept : List α → Prop}

theorem of_faultless (h : Scans step state kept fault) {items : List α}
    (hnone : Faultless fault items) :
    items.foldlM step (state []) = .ok (state items) ∧ kept items := by
  induction items using List.reverseRecOn with
  | nil => exact ⟨rfl, h.start⟩
  | append_singleton items last ih =>
    obtain ⟨hbefore, hlast⟩ := faultless_concat.mp hnone
    obtain ⟨hrun, hkept⟩ := ih hbefore
    rw [foldlM_concat, hrun]
    exact h.takes items last hkept hlast

theorem of_firstFault (h : Scans step state kept fault) {items : List α} {error : ε}
    (hfirst : FirstFault fault items error) : items.foldlM step (state []) = .error error := by
  induction items using List.reverseRecOn with
  | nil =>
    obtain ⟨i, item, hitem, -⟩ := hfirst
    cases hitem
  | append_singleton items last ih =>
    rw [foldlM_concat]
    -- the fault is before the last item, or the scan comes to the last item and finds it there
    rcases firstFault_concat.mp hfirst with hbefore | ⟨hnone, hlast⟩
    · rw [ih hbefore]
      rfl
    · obtain ⟨hrun, hkept⟩ := h.of_faultless hnone
      rw [hrun]
      exact h.refuses items last error hkept hlast

/-- The list is taken as a whole just when no item of it is at fault. -/
theorem foldlM_eq_ok (h : Scans step state kept fault) {items : List α} {next : σ} :
    items.foldlM step (state []) = .ok next ↔ Faultless fault items ∧ next = state items := by
  refine ⟨fun hrun => ?_, ?_⟩
  · rcases faultless_or_firstFault fault items with hnone | ⟨error, hfirst⟩
    · rw [(h.of_faultless hnone).1] at hrun
      exact ⟨hnone, (Except.ok.inj hrun).symm⟩
    · rw [h.of_firstFault hfirst] at hrun
      cases hrun
  · rintro ⟨hnone, rfl⟩
    exact (h.of_faultless hnone).1

/-- The error is that of the first item at fault. -/
theorem foldlM_eq_error (h : Scans step state kept fault) {items : List α} {error : ε} :
    items.foldlM step (state []) = .error error ↔ FirstFault fault items error := by
  refine ⟨fun hrun => ?_, h.of_firstFault⟩
  rcases faultless_or_firstFault fault items with hnone | ⟨other, hfirst⟩
  · rw [(h.of_faultless hnone).1] at hrun
    cases hrun
  · rw [h.of_firstFault hfirst] at hrun
    cases hrun
    exact hfirst

end Scans

end FirstFault

/-! ## The drawing that a definition describes -/

/-- The keys of elements, in their order. -/
def keysOf (elements : List ElementSpec) : List String :=
  elements.map ElementSpec.key

/-- The number of the element with this key: how many stand before it. -/
def placeOf (elements : List ElementSpec) (key : String) : ElementId :=
  ⟨elements.findIdx fun spec => spec.key = key⟩

/-- The arrow that stands in a definition behind `j` others. -/
def ArrowSpec.drawn (elements : List ElementSpec) (j : Nat) (spec : ArrowSpec) : Arrow :=
  { id := ⟨j⟩
    source := placeOf elements spec.source
    target := some (placeOf elements spec.target)
    label := spec.label }

/-- The element that stands in a definition behind `i` others, with the arrows that start at
    it. -/
def ElementSpec.drawn (arrows : List Arrow) (i : Nat) (spec : ElementSpec) : Element :=
  { id := ⟨i⟩
    kind := spec.kind
    script := spec.script
    outgoing := (arrows.filter fun a => a.source = ⟨i⟩).map Arrow.id }

/-- The drawing that elements and arrows of a definition describe. -/
def drawingOf (elements : List ElementSpec) (arrows : List ArrowSpec) : Graph :=
  { elements := elements.mapIdx (ElementSpec.drawn (arrows.mapIdx (ArrowSpec.drawn elements)))
    arrows := arrows.mapIdx (ArrowSpec.drawn elements)
    entry := (elements.findIdx? fun spec => spec.kind = .entry).map ElementId.mk
    elementsMade := elements.length
    arrowsMade := arrows.length }

/-- The table of the keys of elements. -/
def keyTableOf (elements : List ElementSpec) : KeyTable :=
  elements.mapIdx fun i spec => (spec.key, ⟨i⟩)

theorem mem_keysOf {elements : List ElementSpec} {key : String} :
    key ∈ keysOf elements ↔
      (elements.findIdx fun spec => spec.key = key) < elements.length := by
  rw [keysOf, List.mem_map, List.findIdx_lt_length]
  simp only [decide_eq_true_eq]

/-- A key stands for the first element that has it. -/
theorem keyTableOf_element? (elements : List ElementSpec) (key : String) :
    (keyTableOf elements).element? key
      = if key ∈ keysOf elements then some (placeOf elements key) else none := by
  induction elements using List.reverseRecOn with
  | nil => rfl
  | append_singleton elements last ih =>
    have hmem : key ∈ keysOf (elements ++ [last]) ↔ key ∈ keysOf elements ∨ last.key = key := by
      rw [keysOf, List.map_append, List.mem_append, List.map_singleton, List.mem_singleton,
        eq_comm (a := key)]
      rfl
    rw [keyTableOf, List.mapIdx_concat, KeyTable.element?_concat]
    show ((keyTableOf elements).element? key).or _ = _
    rw [ih]
    -- a key that is given already keeps its place, whatever the last one is
    by_cases hkey : key ∈ keysOf elements
    · have hplace : placeOf (elements ++ [last]) key = placeOf elements key := by
        rw [placeOf, List.findIdx_append, if_pos (mem_keysOf.mp hkey)]
        rfl
      rw [if_pos hkey, if_pos (hmem.mpr (.inl hkey)), hplace]
      rfl
    · rw [if_neg hkey, Option.none_or]
      by_cases hlast : last.key = key
      · have hplace : placeOf (elements ++ [last]) key = ⟨elements.length⟩ := by
          rw [placeOf, List.findIdx_append, if_neg fun hlt => hkey (mem_keysOf.mpr hlt)]
          simp [hlast]
        rw [if_pos hlast, if_pos (hmem.mpr (.inr hlast)), hplace]
      · have hnone : key ∉ keysOf (elements ++ [last]) := by
          rw [hmem]
          exact fun h => h.elim hkey hlast
        rw [if_neg hlast, if_neg hnone]

theorem drawingOf_entry_eq_none {elements : List ElementSpec} {arrows : List ArrowSpec} :
    (drawingOf elements arrows).entry = none ↔ ∀ spec ∈ elements, spec.kind ≠ .entry := by
  show Option.map _ _ = none ↔ _
  rw [Option.map_eq_none_iff, List.findIdx?_eq_none_iff]
  simp only [decide_eq_false_iff_not, ne_eq]

/-- One element more in the definition is one element more on the drawing. -/
theorem withElement_drawingOf (elements : List ElementSpec) (spec : ElementSpec)
    (hentry : spec.kind = .entry → (drawingOf elements []).entry = none) :
    (drawingOf elements []).withElement spec.kind spec.script
      = drawingOf (elements ++ [spec]) [] := by
  have hfirst : (if spec.kind = .entry then some ⟨elements.length⟩
      else (drawingOf elements []).entry) = (drawingOf (elements ++ [spec]) []).entry := by
    show _ = Option.map _ ((elements ++ [spec]).findIdx? _)
    rw [List.findIdx?_append, Option.map_or]
    -- a new entry is the first one, and any other element leaves the entry where it was
    by_cases hk : spec.kind = .entry
    · have hnone : (elements.findIdx? fun spec => spec.kind = .entry) = none :=
        Option.map_eq_none_iff.mp (hentry hk)
      rw [if_pos hk, hnone]
      simp [hk]
    · rw [if_neg hk, List.findIdx?_singleton, if_neg (by simpa using hk), Option.map_none,
        Option.map_none, Option.or_none]
      rfl
  show Graph.mk _ _ _ _ _ = Graph.mk _ _ _ _ _
  rw [Graph.mk.injEq]
  exact ⟨List.mapIdx_concat.symm, rfl, hfirst, by rw [List.length_append]; rfl, rfl⟩

/-- One arrow more at an element is one more on its list. -/
theorem listed_drawn (g : Graph) (arrows : List Arrow) {a : Arrow} (ha : a.id = ⟨g.arrowsMade⟩)
    (i : Nat) (spec : ElementSpec) :
    g.listed a.source (spec.drawn arrows i) = spec.drawn (arrows ++ [a]) i := by
  rw [Graph.listed, ElementSpec.drawn, ElementSpec.drawn, List.filter_append, List.map_append,
    List.filter_singleton]
  by_cases hs : (⟨i⟩ : ElementId) = a.source
  · rw [if_pos hs, decide_eq_true hs.symm, ← ha]
    rfl
  · rw [if_neg hs, decide_eq_false fun heq => hs heq.symm, cond_false, List.map_nil,
      List.append_nil]

/-- One arrow more in the definition is one arrow more on the drawing. -/
theorem withArrow_drawingOf (elements : List ElementSpec) (arrows : List ArrowSpec)
    (spec : ArrowSpec) :
    (drawingOf elements arrows).withArrow (placeOf elements spec.source)
        (some (placeOf elements spec.target)) spec.label
      = drawingOf elements (arrows ++ [spec]) := by
  have harrows : (arrows ++ [spec]).mapIdx (ArrowSpec.drawn elements)
      = arrows.mapIdx (ArrowSpec.drawn elements) ++ [spec.drawn elements arrows.length] :=
    List.mapIdx_concat
  have helements : (drawingOf elements arrows).elements.map
      ((drawingOf elements arrows).listed (placeOf elements spec.source))
        = (drawingOf elements (arrows ++ [spec])).elements := by
    refine List.ext_getElem? fun i => ?_
    show ((elements.mapIdx _).map _)[i]? = (elements.mapIdx _)[i]?
    rw [List.getElem?_map, List.getElem?_mapIdx, List.getElem?_mapIdx, Option.map_map, harrows]
    refine congrArg (fun read => Option.map read elements[i]?) (funext fun e => ?_)
    exact listed_drawn _ _ (a := spec.drawn elements arrows.length) rfl i e
  show Graph.mk _ _ _ _ _ = Graph.mk _ _ _ _ _
  rw [Graph.mk.injEq]
  exact ⟨helements, harrows.symm, rfl, rfl, by rw [List.length_append]; rfl⟩

/-! ## Elements -/

/-- What can be wrong with an element, given the elements before it: its key is taken, or, if
    that is not so, it is an entry and there is one already. -/
inductive ElementSpec.Fault (before : List ElementSpec) (spec : ElementSpec) :
    ImportError → Prop where
  | repeatedKey (hkey : spec.key ∈ keysOf before) : Fault before spec (.duplicateKey spec.key)
  | secondEntry {i : Nat} (hkey : spec.key ∉ keysOf before) (hkind : spec.kind = .entry)
      (hfirst : (before.findIdx? fun other => other.kind = .entry) = some i) :
      Fault before spec (.refused spec.key (.secondEntry ⟨i⟩))

/-- Nothing is wrong with an element that has a key of its own and is no second entry. -/
theorem ElementSpec.faultless_iff {before : List ElementSpec} {spec : ElementSpec} :
    (∀ error, ¬ ElementSpec.Fault before spec error) ↔
      spec.key ∉ keysOf before ∧ (spec.kind = .entry → (drawingOf before []).entry = none) := by
  refine ⟨fun hnone => ?_, ?_⟩
  · have hkey : spec.key ∉ keysOf before := fun hkey => hnone _ (.repeatedKey hkey)
    refine ⟨hkey, fun hkind => ?_⟩
    cases hfirst : before.findIdx? fun other => other.kind = .entry with
    | none => exact congrArg (Option.map ElementId.mk) hfirst
    | some i => exact absurd (.secondEntry hkey hkind hfirst) (hnone _)
  · rintro ⟨hkey, hentry⟩ error hfault
    cases hfault with
    | repeatedKey htaken => exact hkey htaken
    | secondEntry _ hkind hfirst =>
      have hnone := Option.map_eq_none_iff.mp (hentry hkind)
      rw [hfirst] at hnone
      cases hnone

/-- Puts one element on a drawing, under its key. -/
def placeElement (placed : KeyTable × Graph) (spec : ElementSpec) :
    Except ImportError (KeyTable × Graph) :=
  match placed.1.element? spec.key with
  | some _ => .error (.duplicateKey spec.key)
  | none =>
      match placed.2.addElement spec.kind spec.script with
      | .error refusal => .error (.refused spec.key refusal)
      | .ok (x, g) => .ok (placed.1 ++ [(spec.key, x)], g)

theorem placeElements_eq_foldlM (keys : KeyTable) (g : Graph) (specs : List ElementSpec) :
    placeElements keys g specs = specs.foldlM placeElement (keys, g) := by
  induction specs generalizing keys g with
  | nil => rfl
  | cons spec rest ih =>
    rw [placeElements, List.foldlM_cons, placeElement]
    cases keys.element? spec.key with
    | some x => rfl
    | none =>
      cases g.addElement spec.kind spec.script with
      | error refusal => rfl
      | ok r => exact ih _ _

/-- Behind each element, placing elements has come to the drawing of those before. -/
theorem scans_placeElement :
    Scans placeElement (fun before => (keyTableOf before, drawingOf before [])) (fun _ => True)
      ElementSpec.Fault := by
  refine ⟨trivial, fun before spec error _ hfault => ?_, fun before spec _ hnone => ⟨?_, trivial⟩⟩
  · cases hfault with
    | repeatedKey hkey => rw [placeElement, keyTableOf_element?, if_pos hkey]
    | secondEntry hkey hkind hfirst =>
      have hentry : (drawingOf before []).entry = some ⟨_⟩ :=
        congrArg (Option.map ElementId.mk) hfirst
      rw [placeElement, keyTableOf_element?, if_neg hkey,
        Graph.addElement_eq_error.mpr ⟨hkind, _, hentry, rfl⟩]
  · obtain ⟨hkey, hentry⟩ := ElementSpec.faultless_iff.mp hnone
    have hkeys : keyTableOf before ++ [(spec.key, ⟨before.length⟩)]
        = keyTableOf (before ++ [spec]) := List.mapIdx_concat.symm
    rw [placeElement, keyTableOf_element?, if_neg hkey,
      Graph.addElement_eq_ok.mpr ⟨hentry, rfl⟩]
    show Except.ok (keyTableOf before ++ [(spec.key, ⟨before.length⟩)], _) = _
    rw [hkeys, withElement_drawingOf before spec hentry]

/-! ## Arrows -/

/-- What can be wrong with an arrow, given the elements and the arrows before it: no element has
    the key of its source, or that of its target, or, if the rules are asked, it breaks one of
    them on the drawing so far. -/
inductive ArrowSpec.Fault (elements : List ElementSpec) (checked : Bool)
    (before : List ArrowSpec) (spec : ArrowSpec) : ImportError → Prop where
  | unknownSource (hs : spec.source ∉ keysOf elements) :
      Fault elements checked before spec (.unknownKey spec.source spec.source)
  | unknownTarget (hs : spec.source ∈ keysOf elements) (ht : spec.target ∉ keysOf elements) :
      Fault elements checked before spec (.unknownKey spec.target spec.source)
  | broken {defect : Defect} (hchecked : checked = true) (hs : spec.source ∈ keysOf elements)
      (ht : spec.target ∈ keysOf elements)
      (hbreaks : (drawingOf elements before).Breaks (placeOf elements spec.source)
        (placeOf elements spec.target) defect) :
      Fault elements checked before spec (.refused spec.text (.broken defect))

theorem ArrowSpec.known_of_faultless {elements : List ElementSpec} {checked : Bool}
    {before : List ArrowSpec} {spec : ArrowSpec}
    (hnone : ∀ error, ¬ ArrowSpec.Fault elements checked before spec error) :
    spec.source ∈ keysOf elements ∧ spec.target ∈ keysOf elements := by
  have hs : spec.source ∈ keysOf elements := by
    by_contra hs
    exact hnone _ (.unknownSource hs)
  refine ⟨hs, ?_⟩
  by_contra ht
  exact hnone _ (.unknownTarget hs ht)

theorem placeArrows_eq_foldlM (checked : Bool) (keys : KeyTable) (g : Graph)
    (specs : List ArrowSpec) :
    placeArrows checked keys g specs = specs.foldlM (placeArrow checked keys) g := by
  induction specs generalizing g with
  | nil => rfl
  | cons spec rest ih =>
    rw [placeArrows, List.foldlM_cons]
    cases placeArrow checked keys g spec with
    | error error => rfl
    | ok g' => exact ih g'

theorem keyTableOf_of_mem {elements : List ElementSpec} {key : String}
    (hkey : key ∈ keysOf elements) :
    (keyTableOf elements).element? key = some (placeOf elements key) := by
  rw [keyTableOf_element?, if_pos hkey]

theorem resolve_of_not_mem (spec : ArrowSpec) {elements : List ElementSpec} {key : String}
    (hkey : key ∉ keysOf elements) :
    spec.resolve (keyTableOf elements) key = .error (.unknownKey key spec.source) := by
  rw [ArrowSpec.resolve, keyTableOf_element?, if_neg hkey]

/-- Between elements of the drawing an arrow is refused only for the rules. -/
theorem Graph.drawArrow_of_broken {g : Graph} {source target : ElementId} {defect : Defect}
    (hs : source ∈ g.ids) (ht : target ∈ g.ids)
    (hcheck : g.checkArrow source (some target) = .error defect) (label : Option Label) :
    g.drawArrow source target label = .error (.broken defect) := by
  rw [drawArrow, requireElement_of_mem hs, requireElement_of_mem ht, hcheck]
  rfl

theorem placeArrow_of_broken {keys : KeyTable} {g : Graph} {spec : ArrowSpec}
    {source target : ElementId} {defect : Defect} (hp : Placed keys g)
    (hs : keys.element? spec.source = some source)
    (ht : keys.element? spec.target = some target)
    (hcheck : g.checkArrow source (some target) = .error defect) :
    placeArrow true keys g spec = .error (.refused spec.text (.broken defect)) := by
  have hdrawn := Graph.drawArrow_of_broken (hp.keys_live _ _ hs) (hp.keys_live _ _ ht) hcheck
    spec.label
  rw [placeArrow, ArrowSpec.resolve_eq_ok.mpr hs, ArrowSpec.resolve_eq_ok.mpr ht]
  simp only [bind, Except.bind, if_true, hdrawn]

/-- An arrow whose keys stand for elements is placed, under the rules if it breaks none. -/
theorem placeArrow_of_known {checked : Bool} {keys : KeyTable} {g : Graph} {spec : ArrowSpec}
    {source target : ElementId} (hp : Placed keys g)
    (hs : keys.element? spec.source = some source)
    (ht : keys.element? spec.target = some target)
    (hcheck : checked = true → g.checkArrow source (some target) = .ok ()) :
    placeArrow checked keys g spec = .ok (g.withArrow source (some target) spec.label) := by
  have hfree : g.drawUnchecked source target spec.label
      = .ok (⟨g.arrowsMade⟩, g.withArrow source (some target) spec.label) :=
    Graph.drawUnchecked_eq_ok.mpr ⟨hp.keys_live _ _ hs, hp.keys_live _ _ ht, rfl⟩
  refine placeArrow_eq_ok.mpr ⟨source, target, ⟨g.arrowsMade⟩, hs, ht, ?_⟩
  by_cases hchecked : checked = true
  · rw [if_pos hchecked]
    exact Graph.drawArrow_eq_ok.mpr ⟨hfree, Graph.checkArrow_eq_ok.mp (hcheck hchecked)⟩
  · rw [if_neg hchecked]
    exact hfree

/-- Behind each arrow, placing arrows has come to the drawing of those before, under the rules
    and without them. -/
theorem scans_placeArrow {elements : List ElementSpec}
    (hplaced : Placed (keyTableOf elements) (drawingOf elements [])) (checked : Bool) :
    Scans (placeArrow checked (keyTableOf elements)) (drawingOf elements)
      (fun before => Placed (keyTableOf elements) (drawingOf elements before))
      (ArrowSpec.Fault elements checked) := by
  refine ⟨hplaced, fun before spec error hp hfault => ?_, fun before spec hp hnone => ?_⟩
  · cases hfault with
    | unknownSource hs =>
      rw [placeArrow, resolve_of_not_mem spec hs]
      rfl
    | unknownTarget hs ht =>
      rw [placeArrow, ArrowSpec.resolve_eq_ok.mpr (keyTableOf_of_mem hs),
        resolve_of_not_mem spec ht]
      rfl
    | broken hchecked hs ht hbreaks =>
      subst hchecked
      exact placeArrow_of_broken hp (keyTableOf_of_mem hs) (keyTableOf_of_mem ht)
        (hp.wellFormed.checkArrow_eq_error.mpr hbreaks)
  · obtain ⟨hs, ht⟩ := ArrowSpec.known_of_faultless hnone
    have hcheck : checked = true → (drawingOf elements before).checkArrow
        (placeOf elements spec.source) (some (placeOf elements spec.target)) = .ok () := by
      intro hchecked
      cases hrule : (drawingOf elements before).checkArrow (placeOf elements spec.source)
        (some (placeOf elements spec.target)) with
      | ok u => rfl
      | error defect =>
        have hbreaks := hp.wellFormed.checkArrow_eq_error.mp hrule
        exact absurd (.broken hchecked hs ht hbreaks) (hnone _)
    rw [← withArrow_drawingOf]
    exact ⟨placeArrow_of_known hp (keyTableOf_of_mem hs) (keyTableOf_of_mem ht) hcheck,
      hp.withArrow _ (keyTableOf_of_mem hs) (keyTableOf_of_mem ht)⟩

/-! ## Definitions without fault -/

/-- No element is at fault when no key is given twice and there is one entry at most. -/
theorem faultless_elements_iff {elements : List ElementSpec} :
    Faultless ElementSpec.Fault elements ↔
      (keysOf elements).Nodup ∧ (elements.countP fun spec => spec.kind = .entry) ≤ 1 := by
  induction elements using List.reverseRecOn with
  | nil => exact ⟨fun _ => ⟨List.nodup_nil, Nat.zero_le 1⟩, fun _ i item h => by cases h⟩
  | append_singleton elements last ih =>
    have hkeys : (keysOf (elements ++ [last])).Nodup ↔
        last.key ∉ keysOf elements ∧ (keysOf elements).Nodup := by
      rw [keysOf, List.map_append, List.map_singleton, ← List.concat_eq_append,
        List.nodup_concat]
      rfl
    have hentry : (drawingOf elements []).entry = none ↔
        (elements.countP fun spec => spec.kind = .entry) = 0 := by
      rw [drawingOf_entry_eq_none, List.countP_eq_zero]
      simp only [decide_eq_true_eq, ne_eq]
    rw [faultless_concat, ih, ElementSpec.faultless_iff, hkeys, hentry, List.countP_append,
      List.countP_singleton]
    -- both sides ask for a new key; an entry may be added only where the count is zero
    by_cases hkind : last.kind = .entry
    · simp only [hkind, decide_true, if_true, true_implies]
      refine ⟨fun ⟨⟨hn, _⟩, hk, hz⟩ => ⟨⟨hk, hn⟩, by omega⟩, fun ⟨⟨hk, hn⟩, hle⟩ => ?_⟩
      exact ⟨⟨hn, by omega⟩, hk, by omega⟩
    · simp only [hkind, decide_false, Bool.false_eq_true, if_false, false_implies, Nat.add_zero]
      refine ⟨fun ⟨⟨hn, hle⟩, hk, _⟩ => ⟨⟨hk, hn⟩, hle⟩, fun ⟨⟨hk, hn⟩, hle⟩ => ?_⟩
      exact ⟨⟨hn, hle⟩, hk, trivial⟩

/-- Without the rules no arrow is at fault when elements have all the keys that arrows name. -/
theorem faultless_arrows_iff {elements : List ElementSpec} {arrows : List ArrowSpec} :
    Faultless (ArrowSpec.Fault elements false) arrows ↔
      ∀ spec ∈ arrows, spec.source ∈ keysOf elements ∧ spec.target ∈ keysOf elements := by
  refine ⟨fun hnone spec hspec => ?_, fun hknown i spec hspec error hfault => ?_⟩
  · obtain ⟨i, hi⟩ := List.mem_iff_getElem?.mp hspec
    exact ArrowSpec.known_of_faultless (hnone i spec hi)
  · obtain ⟨hs, ht⟩ := hknown spec (List.mem_of_getElem? hspec)
    cases hfault with
    | unknownSource hs' => exact hs' hs
    | unknownTarget _ ht' => exact ht' ht
    | broken hchecked _ _ _ => cases hchecked

namespace Definition

variable {d : Definition} {checked : Bool}

/-- What a definition needs in any case: no key is given twice, there is one entry at most, and
    elements have all the keys that arrows name. -/
structure Consistent (d : Definition) : Prop where
  keys_nodup : (keysOf d.elements).Nodup
  one_entry : (d.elements.countP fun spec => spec.kind = .entry) ≤ 1
  ends_known : ∀ spec ∈ d.arrows,
    spec.source ∈ keysOf d.elements ∧ spec.target ∈ keysOf d.elements

/-- What is first at fault in a definition: an element, or an arrow if no element is. -/
def Fault (d : Definition) (checked : Bool) (error : ImportError) : Prop :=
  FirstFault ElementSpec.Fault d.elements error ∨
    (Faultless ElementSpec.Fault d.elements ∧
      FirstFault (ArrowSpec.Fault d.elements checked) d.arrows error)

theorem consistent_iff :
    d.Consistent ↔ Faultless ElementSpec.Fault d.elements ∧
      Faultless (ArrowSpec.Fault d.elements false) d.arrows := by
  rw [faultless_elements_iff, faultless_arrows_iff]
  exact ⟨fun h => ⟨⟨h.keys_nodup, h.one_entry⟩, h.ends_known⟩, fun h => ⟨h.1.1, h.1.2, h.2⟩⟩

theorem placeElements_eq_ok {placed : KeyTable × Graph} :
    placeElements [] .empty d.elements = .ok placed ↔
      Faultless ElementSpec.Fault d.elements ∧
        placed = (keyTableOf d.elements, drawingOf d.elements []) := by
  rw [placeElements_eq_foldlM]
  exact scans_placeElement.foldlM_eq_ok

theorem placeElements_eq_error {error : ImportError} :
    placeElements [] .empty d.elements = .error error ↔
      FirstFault ElementSpec.Fault d.elements error := by
  rw [placeElements_eq_foldlM]
  exact scans_placeElement.foldlM_eq_error

/-- Once the elements are placed, the arrows are, one after the other. -/
theorem scans_arrows (hnone : Faultless ElementSpec.Fault d.elements) (checked : Bool) :
    Scans (placeArrow checked (keyTableOf d.elements)) (drawingOf d.elements)
      (fun before => Placed (keyTableOf d.elements) (drawingOf d.elements before))
      (ArrowSpec.Fault d.elements checked) :=
  scans_placeArrow (placed (placeElements_eq_ok.mpr ⟨hnone, rfl⟩)).1 checked

/-- A definition without fault becomes the drawing that it describes. -/
theorem buildWith_eq_ok_iff {diagram : Diagram} :
    d.buildWith checked = .ok diagram ↔
      (Faultless ElementSpec.Fault d.elements ∧
        Faultless (ArrowSpec.Fault d.elements checked) d.arrows) ∧
        diagram = d.around (drawingOf d.elements d.arrows) := by
  rw [buildWith_eq_ok]
  refine ⟨?_, ?_⟩
  · rintro ⟨keys, g, graph, hplace, harrows, rfl⟩
    obtain ⟨hnone, hplaced⟩ := placeElements_eq_ok.mp hplace
    cases hplaced
    -- the arrows are placed on the drawing of the elements, and found where their keys say
    rw [placeArrows_eq_foldlM] at harrows
    obtain ⟨hnone', rfl⟩ := (scans_arrows hnone checked).foldlM_eq_ok.mp harrows
    exact ⟨⟨hnone, hnone'⟩, rfl⟩
  · rintro ⟨⟨hnone, hnone'⟩, rfl⟩
    refine ⟨_, _, _, placeElements_eq_ok.mpr ⟨hnone, rfl⟩, ?_, rfl⟩
    rw [placeArrows_eq_foldlM]
    exact (scans_arrows hnone checked).foldlM_eq_ok.mpr ⟨hnone', rfl⟩

/-- A definition that becomes nothing is told what is first at fault in it. -/
theorem buildWith_eq_error_iff {error : ImportError} :
    d.buildWith checked = .error error ↔ d.Fault checked error := by
  rw [buildWith, bind_eq_error, placeElements_eq_error, Fault]
  refine or_congr_right ⟨?_, ?_⟩
  · rintro ⟨placed, hplace, h⟩
    obtain ⟨hnone, rfl⟩ := placeElements_eq_ok.mp hplace
    refine ⟨hnone, ?_⟩
    rcases bind_eq_error.mp h with harrows | ⟨graph, -, hdone⟩
    · rw [placeArrows_eq_foldlM] at harrows
      exact (scans_arrows hnone checked).foldlM_eq_error.mp harrows
    · cases hdone
  · rintro ⟨hnone, hfirst⟩
    refine ⟨_, placeElements_eq_ok.mpr ⟨hnone, rfl⟩, bind_eq_error.mpr (.inl ?_)⟩
    rw [placeArrows_eq_foldlM]
    exact (scans_arrows hnone checked).foldlM_eq_error.mpr hfirst

/-- An edit is refused for a second entry or for a rule for arrows. -/
theorem Fault.refusal_cases {key : String} {refusal : Refusal}
    (h : d.Fault checked (.refused key refusal)) :
    (∃ entry, refusal = .secondEntry entry) ∨ ∃ defect, refusal = .broken defect := by
  rcases h with ⟨i, spec, -, -, hfault⟩ | ⟨-, i, spec, -, -, hfault⟩
  · cases hfault with
    | secondEntry _ _ _ => exact .inl ⟨_, rfl⟩
  · cases hfault with
    | broken _ _ _ _ => exact .inr ⟨_, rfl⟩

/-- Without the rules for arrows, a definition becomes a diagram just when no key is given twice,
    there is one entry at most and all keys that arrows name are given; the diagram is the one
    that the definition describes.  With the rules or without them, a definition that becomes
    nothing is told its first fault, and no edit is ever refused for an element or an arrow that
    is not there, or for an arrow that has no loose end. -/
theorem build_faithful (d : Definition) :
    (∀ diagram, d.buildUnchecked = .ok diagram ↔
      d.Consistent ∧ diagram = d.around (drawingOf d.elements d.arrows)) ∧
    (∀ diagram, d.build = .ok diagram → diagram = d.around (drawingOf d.elements d.arrows)) ∧
    (∀ error, d.buildUnchecked = .error error ↔ d.Fault false error) ∧
    (∀ error, d.build = .error error ↔ d.Fault true error) ∧
    ∀ key refusal,
      d.buildUnchecked = .error (.refused key refusal) ∨
        d.build = .error (.refused key refusal) →
      (∀ x, refusal ≠ .noElement x) ∧ (∀ a, refusal ≠ .noArrow a) ∧
        ∀ a, refusal ≠ .alreadyAnchored a := by
  refine ⟨fun diagram => ?_, fun diagram hbuilt => (buildWith_eq_ok_iff.mp hbuilt).2,
    fun error => buildWith_eq_error_iff, fun error => buildWith_eq_error_iff,
    fun key refusal hrefused => ?_⟩
  · rw [consistent_iff]
    exact buildWith_eq_ok_iff
  · have hcases : (∃ entry, refusal = .secondEntry entry) ∨ ∃ defect, refusal = .broken defect := by
      rcases hrefused with hfree | hbuilt
      · exact (buildWith_eq_error_iff.mp hfree).refusal_cases
      · exact (buildWith_eq_error_iff.mp hbuilt).refusal_cases
    rcases hcases with ⟨entry, rfl⟩ | ⟨defect, rfl⟩
    · exact ⟨nofun, nofun, nofun⟩
    · exact ⟨nofun, nofun, nofun⟩

-- the third element is at fault twice, for its key before its kind, and the arrow behind it too
example :
    ({ elements :=
        [{ key := "start", kind := .entry }, { key := "go" }, { key := "start", kind := .entry }]
       arrows := [{ source := "go", target := "nowhere" }] } : Definition).build
      = .error (.duplicateKey "start") := by
  decide +kernel

end Definition

end Flowchart
