/-
  Flowchart.Proofs.StraightLine

  What becomes of a sketch, whatever its blocks are.  A sketch is refused just for
  its labels: the first that is the key of the entry, or that of a block before,
  is told.  A sketch with labels that differ becomes a line: element `k` points
  at element `k + 1` and at nothing else (`line_outgoing`).  So a walk from the entry
  meets the elements in the order of their numbers (`walk_line`), and what is said
  of element `k` of the line is all there is to say: its symbol, its code, where
  it goes on, and whether it is reported for having no code.
-/

import Flowchart.Sketch
import Flowchart.Proofs.Driver
import Flowchart.Proofs.FaithfulImport

namespace Flowchart

/-! ## Walks along a line -/

/-- Where each place leads to the next one and the last place nowhere, a walk from the first
    meets them all in order. -/
theorem walk_line {next : ElementId → List ElementId} {k m : Nat}
    (hnext : ∀ i, i < k + m → next ⟨i⟩ = [⟨i + 1⟩]) (hlast : next ⟨k + m⟩ = []) :
    walk next ((List.range' k (m + 1)).map ElementId.mk) [⟨k⟩]
      = (List.range' k (m + 1)).map ElementId.mk := by
  induction m generalizing k with
  | zero =>
    rw [Nat.add_zero] at hlast
    rw [List.range'_one, List.map_singleton, walk, if_pos (List.mem_singleton_self _),
      List.erase_cons_head, hlast, List.append_nil, walk]
  | succ m ih =>
    rw [List.range'_succ, List.map_cons, walk, if_pos List.mem_cons_self, List.erase_cons_head,
      hnext k (by omega), List.append_nil]
    rw [ih (fun i hi => hnext i (by omega)) (by rw [Nat.add_assoc, Nat.add_comm 1]; exact hlast)]

/-- Where no key is given twice, the number of an element is the place of its key. -/
theorem placeOf_of_getElem? {elements : List ElementSpec} (hnodup : (keysOf elements).Nodup)
    {k : Nat} {key : String} (hkey : (keysOf elements)[k]? = some key) :
    placeOf elements key = ⟨k⟩ := by
  obtain ⟨hk, hget⟩ := List.getElem?_eq_some_iff.mp hkey
  have hfound : (keysOf elements).idxOf key = k := by
    rw [← hget]
    exact hnodup.idxOf_getElem k hk
  rw [placeOf, ← hfound, keysOf, List.idxOf, List.findIdx_map]
  rfl

namespace Sketch

variable {blocks : List Block}

/-! ## Labels -/

/-- The keys that are taken when a block comes: that of the entry and the labels before. -/
def taken (before : List Block) : List String :=
  "start" :: before.map Block.label

/-- Some label is taken when its block comes. -/
def Repeats (blocks : List Block) : Prop :=
  ∃ i block, blocks[i]? = some block ∧ block.label ∈ taken (blocks.take i)

/-- The element of a block. -/
def blockSpec (block : Block) : ElementSpec :=
  { key := block.label, kind := .action, script := some block.code }

theorem definition_elements (blocks : List Block) :
    (definition blocks).elements = { key := startKey, kind := .entry } :: blocks.map blockSpec :=
  rfl

theorem keysOf_definition (blocks : List Block) :
    keysOf (definition blocks).elements = taken blocks := by
  rw [definition_elements, keysOf, List.map_cons, List.map_map]
  rfl

/-- The elements before the one of block `i` are those of the blocks before. -/
theorem definition_elements_take (blocks : List Block) (i : Nat) :
    (definition blocks).elements.take (i + 1) = (definition (blocks.take i)).elements := by
  rw [definition_elements, List.take_succ_cons, ← List.map_take]
  rfl

theorem faultless_definition_iff :
    Faultless ElementSpec.Fault (definition blocks).elements ↔ (taken blocks).Nodup := by
  have hone : ((definition blocks).elements.countP fun spec => spec.kind = .entry) ≤ 1 := by
    have hnone : ((blocks.map blockSpec).countP fun spec => spec.kind = .entry) = 0 := by
      rw [List.countP_eq_zero]
      intro spec hspec
      obtain ⟨block, -, rfl⟩ := List.mem_map.mp hspec
      exact Bool.false_ne_true
    rw [definition_elements, List.countP_cons, hnone]
    exact Nat.le_refl 1
  rw [faultless_elements_iff, keysOf_definition]
  exact and_iff_left hone

/-- The element of a block is at fault just when its label is taken. -/
theorem fault_block_iff {before : List Block} {block : Block} {error : ImportError} :
    ElementSpec.Fault (definition before).elements (blockSpec block) error ↔
      block.label ∈ taken before ∧ error = .duplicateKey block.label := by
  rw [← keysOf_definition]
  constructor
  · intro hfault
    cases hfault with
    | repeatedKey hkey => exact ⟨hkey, rfl⟩
    | secondEntry _ hkind _ => cases hkind
  · rintro ⟨hkey, rfl⟩
    exact .repeatedKey hkey

theorem definition_elements_getElem? {i : Nat} {block : Block} (hblock : blocks[i]? = some block) :
    (definition blocks).elements[i + 1]? = some (blockSpec block) := by
  rw [definition_elements, List.getElem?_cons_succ, List.getElem?_map, hblock]
  rfl

/-- The first element at fault is that of the first block whose label is taken. -/
theorem firstFault_definition_iff {error : ImportError} :
    FirstFault ElementSpec.Fault (definition blocks).elements error ↔
      ∃ i block, blocks[i]? = some block ∧ (taken (blocks.take i)).Nodup ∧
        block.label ∈ taken (blocks.take i) ∧ error = .duplicateKey block.label := by
  constructor
  · rintro ⟨place, spec, hspec, hbefore, hfault⟩
    cases place with
    | zero =>
      -- nothing stands before the entry
      cases hfault with
      | repeatedKey hkey => exact absurd hkey List.not_mem_nil
      | secondEntry _ _ hfirst => cases hfirst
    | succ i =>
      rw [definition_elements, List.getElem?_cons_succ, List.getElem?_map,
        Option.map_eq_some_iff] at hspec
      obtain ⟨block, hblock, rfl⟩ := hspec
      rw [definition_elements_take] at hbefore hfault
      exact ⟨i, block, hblock, faultless_definition_iff.mp hbefore, fault_block_iff.mp hfault⟩
  · rintro ⟨i, block, hblock, hbefore, hfault⟩
    refine ⟨i + 1, blockSpec block, definition_elements_getElem? hblock, ?_, ?_⟩
    · rw [definition_elements_take]
      exact faultless_definition_iff.mpr hbefore
    · rw [definition_elements_take]
      exact fault_block_iff.mpr hfault

/-- Of the labels that are taken there is a first. -/
theorem firstTaken (h : ¬ (taken blocks).Nodup) :
    ∃ i block, blocks[i]? = some block ∧ (taken (blocks.take i)).Nodup ∧
      block.label ∈ taken (blocks.take i) := by
  rcases faultless_or_firstFault ElementSpec.Fault (definition blocks).elements
    with hnone | ⟨error, hfirst⟩
  · exact absurd (faultless_definition_iff.mp hnone) h
  · obtain ⟨i, block, hblock, hbefore, hlabel, -⟩ := firstFault_definition_iff.mp hfirst
    exact ⟨i, block, hblock, hbefore, hlabel⟩

theorem repeats_iff : Repeats blocks ↔ ¬ (taken blocks).Nodup := by
  constructor
  · rintro ⟨i, block, hblock, hlabel⟩ hnodup
    have hnone := faultless_definition_iff.mpr hnodup (i + 1) (blockSpec block)
      (definition_elements_getElem? hblock) (.duplicateKey block.label)
    rw [definition_elements_take] at hnone
    exact hnone (fault_block_iff.mpr ⟨hlabel, rfl⟩)
  · intro htaken
    obtain ⟨i, block, hblock, -, hlabel⟩ := firstTaken htaken
    exact ⟨i, block, hblock, hlabel⟩

/-! ## Arrows -/

/-- The arrow from element `k` to the next. -/
def link (k : Nat) : Arrow :=
  { id := ⟨k⟩, source := ⟨k⟩, target := some ⟨k + 1⟩, label := none }

/-- Each arrow joins two keys that follow one another. -/
theorem chain_eq_zipWith (previous : String) (blocks : List Block) :
    chain previous blocks
      = List.zipWith (fun source target => { source, target })
          (previous :: blocks.map Block.label) (blocks.map Block.label) := by
  induction blocks generalizing previous with
  | nil => rfl
  | cons block rest ih => rw [chain, ih, List.map_cons, List.zipWith_cons_cons]

theorem length_chain (blocks : List Block) : (chain startKey blocks).length = blocks.length := by
  rw [chain_eq_zipWith, List.length_zipWith, List.length_cons, List.length_map]
  omega

theorem chain_getElem? {j : Nat} {spec : ArrowSpec} (h : (chain startKey blocks)[j]? = some spec) :
    (taken blocks)[j]? = some spec.source ∧ (taken blocks)[j + 1]? = some spec.target ∧
      spec.label = none := by
  rw [chain_eq_zipWith, List.getElem?_zipWith_eq_some] at h
  obtain ⟨source, target, hsource, htarget, rfl⟩ := h
  exact ⟨hsource, htarget, rfl⟩

/-- The arrow behind `j` others is drawn from element `j` to the next. -/
theorem drawn_link (hnodup : (taken blocks).Nodup) {j : Nat} {spec : ArrowSpec}
    (h : (chain startKey blocks)[j]? = some spec) :
    placeOf (definition blocks).elements spec.source = ⟨j⟩ ∧
      placeOf (definition blocks).elements spec.target = ⟨j + 1⟩ ∧
      spec.drawn (definition blocks).elements j = link j := by
  obtain ⟨hsource, htarget, hlabel⟩ := chain_getElem? h
  rw [← keysOf_definition] at hnodup hsource htarget
  have hs := placeOf_of_getElem? hnodup hsource
  have ht := placeOf_of_getElem? hnodup htarget
  refine ⟨hs, ht, ?_⟩
  rw [ArrowSpec.drawn, hs, ht, hlabel]
  rfl

/-- The drawing of a sketch when `i` of its arrows are drawn. -/
def lineUpTo (blocks : List Block) (i : Nat) : Graph :=
  drawingOf (definition blocks).elements ((chain startKey blocks).take i)

theorem lineUpTo_arrows (hnodup : (taken blocks).Nodup) {i : Nat} (hi : i ≤ blocks.length) :
    (lineUpTo blocks i).arrows = (List.range i).map link := by
  refine List.ext_getElem? fun j => ?_
  show (List.mapIdx _ _)[j]? = _
  rw [List.getElem?_mapIdx, List.getElem?_take, List.getElem?_map]
  by_cases hj : j < i
  · have hlt : j < (chain startKey blocks).length := by
      rw [length_chain]
      omega
    have hspec := List.getElem?_eq_getElem hlt
    rw [if_pos hj, hspec, List.getElem?_range hj, Option.map_some, Option.map_some,
      (drawn_link hnodup hspec).2.2]
  · rw [if_neg hj, List.getElem?_eq_none (by rw [List.length_range]; omega)]
    rfl

theorem filter_links (i k : Nat) :
    ((List.range i).map link).filter (fun a => a.source = ⟨k⟩)
      = if k < i then [link k] else [] := by
  induction i with
  | zero => rfl
  | succ i ih =>
    rw [List.range_succ, List.map_append, List.filter_append, ih, List.map_singleton,
      List.filter_singleton]
    by_cases hk : k = i
    · subst hk
      have heq : (link k).source = ⟨k⟩ := rfl
      rw [if_neg (Nat.lt_irrefl k), if_pos (Nat.lt_succ_self k), decide_eq_true heq]
      rfl
    · have hne : ¬ (link i).source = ⟨k⟩ := fun heq => hk (ElementId.mk.inj heq).symm
      have hiff : k < i + 1 ↔ k < i := by omega
      rw [decide_eq_false hne, cond_false, List.append_nil]
      simp only [hiff]

theorem lineUpTo_arrowsFrom (hnodup : (taken blocks).Nodup) {i : Nat} (hi : i ≤ blocks.length)
    (k : Nat) : (lineUpTo blocks i).arrowsFrom ⟨k⟩ = if k < i then [link k] else [] := by
  rw [Graph.arrowsFrom, lineUpTo_arrows hnodup hi, filter_links]

/-! ## Elements -/

/-- The element of a block in its place, with the arrows that start at it. -/
def blockElement (arrows : List Arrow) (row : Block × Nat) : Element :=
  (blockSpec row.1).drawn arrows row.2

/-- The entry comes first, and behind it an action for every block. -/
theorem lineUpTo_elements (blocks : List Block) (i : Nat) :
    (lineUpTo blocks i).elements
      = ElementSpec.drawn (lineUpTo blocks i).arrows 0 { key := startKey, kind := .entry }
        :: (blocks.zipIdx 1).map (blockElement (lineUpTo blocks i).arrows) := by
  show List.mapIdx _ _ = _
  rw [definition_elements, List.mapIdx_cons]
  refine congrArg (List.cons _) (List.ext_getElem? fun k => ?_)
  rw [List.getElem?_mapIdx, List.getElem?_map, Option.map_map, List.getElem?_map,
    List.getElem?_zipIdx, Option.map_map, Nat.add_comm 1 k]
  rfl

theorem lineUpTo_hasKind {i : Nat} {x : ElementId} {kind : Kind}
    (h : (lineUpTo blocks i).HasKind x kind) :
    (x = ⟨0⟩ ∧ kind = .entry) ∨ kind = .action := by
  obtain ⟨e, he, rfl, rfl⟩ := h
  rw [lineUpTo_elements, List.mem_cons, List.mem_map] at he
  rcases he with rfl | ⟨row, -, rfl⟩
  · exact .inl ⟨rfl, rfl⟩
  · exact .inr rfl

/-- No arrow of the chain is at fault: the elements are there, each arrow is the first to leave
    its source, none points at the entry, and there is no branch. -/
theorem faultless_chain (hnodup : (taken blocks).Nodup) :
    Faultless (ArrowSpec.Fault (definition blocks).elements true) (definition blocks).arrows := by
  intro j spec hspec error hfault
  obtain ⟨hsource, htarget, -⟩ := chain_getElem? hspec
  obtain ⟨hs, ht, -⟩ := drawn_link hnodup hspec
  have hj : j ≤ blocks.length := by
    rw [← length_chain]
    exact Nat.le_of_lt (List.getElem?_eq_some_iff.mp hspec).1
  rw [← keysOf_definition] at hsource htarget
  cases hfault with
  | unknownSource hunknown => exact hunknown (List.mem_of_getElem? hsource)
  | unknownTarget _ hunknown => exact hunknown (List.mem_of_getElem? htarget)
  | broken _ _ _ hbreaks =>
    rw [hs, ht] at hbreaks
    have hfree := lineUpTo_arrowsFrom hnodup hj j
    rw [if_neg (Nat.lt_irrefl j)] at hfree
    cases hbreaks with
    | @noRoom kind hkind hfull =>
      change kind.capacity ≤ ((lineUpTo blocks j).arrowsFrom ⟨j⟩).length at hfull
      rw [hfree] at hfull
      rcases lineUpTo_hasKind hkind with ⟨-, rfl⟩ | rfl
      · exact absurd hfull (by decide)
      · exact absurd hfull (by decide)
    | arrowToEntry _ hentry =>
      rcases lineUpTo_hasKind hentry with ⟨heq, -⟩ | heq
      · cases heq
      · cases heq
    | branchLoop _ _ hloop =>
      rcases lineUpTo_hasKind hloop.1 with ⟨-, heq⟩ | heq
      · cases heq
      · cases heq

/-! ## The line -/

/-- The drawing of a sketch. -/
def line (blocks : List Block) : Graph :=
  lineUpTo blocks blocks.length

theorem line_eq (blocks : List Block) :
    line blocks = drawingOf (definition blocks).elements (definition blocks).arrows := by
  rw [line, lineUpTo, List.take_of_length_le (Nat.le_of_eq (length_chain blocks))]
  rfl

theorem build_eq_ok (hnodup : (taken blocks).Nodup) :
    build blocks = .ok ((definition blocks).around (line blocks)) := by
  rw [line_eq]
  exact Definition.buildWith_eq_ok_iff.mpr
    ⟨⟨faultless_definition_iff.mpr hnodup, faultless_chain hnodup⟩, rfl⟩

theorem line_wellFormed (hnodup : (taken blocks).Nodup) : (line blocks).WellFormed := by
  have hscan := Definition.scans_arrows (faultless_definition_iff.mpr hnodup) true
  rw [line_eq]
  exact (hscan.of_faultless (faultless_chain hnodup)).2.wellFormed

theorem line_entry (blocks : List Block) : (line blocks).entry = some ⟨0⟩ :=
  rfl

theorem line_ids (blocks : List Block) :
    (line blocks).ids = (List.range (blocks.length + 1)).map ElementId.mk := by
  have hrest : ((blocks.zipIdx 1).map (blockElement (line blocks).arrows)).map Element.id
      = ((blocks.zipIdx 1).map Prod.snd).map ElementId.mk := by
    rw [List.map_map, List.map_map]
    rfl
  rw [List.zipIdx_map_snd] at hrest
  rw [Graph.ids, line, lineUpTo_elements, List.map_cons]
  rw [List.range_eq_range', List.range'_succ, List.map_cons]
  exact congrArg (List.cons _) hrest

theorem line_outgoing (hnodup : (taken blocks).Nodup) (k : Nat) :
    (line blocks).outgoing ⟨k⟩ = if k < blocks.length then [(⟨k + 1⟩, link k)] else [] := by
  rw [(line_wellFormed hnodup).outgoing_eq, line, lineUpTo_arrowsFrom hnodup (Nat.le_refl _)]
  split <;> rfl

theorem line_targets (hnodup : (taken blocks).Nodup) (k : Nat) :
    (line blocks).targets ⟨k⟩ = if k < blocks.length then [⟨k + 1⟩] else [] := by
  rw [Graph.targets, line_outgoing hnodup]
  split <;> rfl

theorem line_way (hnodup : (taken blocks).Nodup) (k : Nat) :
    (line blocks).way ⟨k⟩ = if k < blocks.length then .next ⟨k + 1⟩ else .stop := by
  rw [Graph.way, line_outgoing hnodup]
  by_cases hk : k < blocks.length
  · rw [if_pos hk, if_pos hk]
  · rw [if_neg hk, if_neg hk]

/-- A walk that goes on from each element to the next meets all elements in order. -/
theorem line_walk {next : ElementId → List ElementId}
    (hnext : ∀ k, next ⟨k⟩ = if k < blocks.length then [⟨k + 1⟩] else []) :
    walk next (line blocks).ids [⟨0⟩] = (line blocks).ids := by
  have hstep : ∀ i, i < 0 + blocks.length → next ⟨i⟩ = [⟨i + 1⟩] := by
    intro i hi
    rw [hnext, if_pos (by omega)]
  have hlast : next ⟨0 + blocks.length⟩ = [] := by
    rw [hnext, if_neg (by omega)]
  rw [line_ids, List.range_eq_range']
  exact walk_line hstep hlast

theorem line_walkFrom (hnodup : (taken blocks).Nodup) :
    (line blocks).walkFrom ⟨0⟩ = (line blocks).ids := by
  refine line_walk fun k => ?_
  rw [line_targets hnodup]
  split <;> rfl

theorem line_emitted (hnodup : (taken blocks).Nodup) :
    (line blocks).emitted ⟨0⟩ = (line blocks).ids := by
  refine line_walk fun k => ?_
  rw [line_way hnodup]
  split <;> rfl

/-! ## Routines -/

/-- The elements beside the entry are those of the blocks. -/
theorem line_actions (blocks : List Block) :
    (line blocks).elements.filter (fun e => e.kind ≠ .entry)
      = (blocks.zipIdx 1).map (blockElement (line blocks).arrows) := by
  rw [line, lineUpTo_elements]
  show ((blocks.zipIdx 1).map _).filter _ = _
  rw [List.filter_eq_self]
  intro e he
  obtain ⟨row, -, rfl⟩ := List.mem_map.mp he
  rfl

theorem line_action {k : Nat} {block : Block} (hblock : blocks[k]? = some block) :
    ((line blocks).elements.filter fun e => e.kind ≠ .entry)[k]?
      = some (blockElement (line blocks).arrows (block, k + 1)) := by
  rw [line_actions, List.getElem?_map, List.getElem?_zipIdx, hblock, Nat.add_comm 1 k]
  rfl

/-- The symbol of element `k`. -/
def symbolAt : Nat → String
  | 0 => "entryFunction"
  | k + 1 => "function" ++ Nat.repr (k + 1)

/-- The code of element `k`: the entry has none, and block `k` is the element after it. -/
def codeAt (blocks : List Block) : Nat → String
  | 0 => ""
  | k + 1 => (blocks[k]?.map Block.code).getD ""

/-- The routine of element `k`, which goes on to the next one if there is one. -/
def routineAt (blocks : List Block) (k : Nat) : Routine where
  name := symbolAt k
  body := codeAt blocks k
  way := if k < blocks.length then .next (symbolAt (k + 1)) else .stop

theorem line_symbol (hnodup : (taken blocks).Nodup) {k : Nat} (hk : k ≤ blocks.length) :
    symbolIn ((line blocks).symbols {}) ⟨k⟩ = symbolAt k := by
  have h := line_wellFormed hnodup
  cases k with
  | zero => exact h.symbol_entry ((h.entry_iff ⟨0⟩).mp (line_entry blocks))
  | succ k => exact h.symbol_numbered (line_action (List.getElem?_eq_getElem hk))

theorem line_body (hnodup : (taken blocks).Nodup) {k : Nat} (hk : k ≤ blocks.length) :
    (line blocks).body ⟨k⟩ = codeAt blocks k := by
  have h := line_wellFormed hnodup
  cases k with
  | zero =>
    have hfirst : ElementSpec.drawn (line blocks).arrows 0 { key := startKey, kind := .entry }
        ∈ (line blocks).elements := by
      rw [line, lineUpTo_elements]
      exact List.mem_cons_self
    exact h.body_eq hfirst
  | succ k =>
    have hblock := List.getElem?_eq_getElem hk
    have hmem := List.mem_of_mem_filter (List.mem_of_getElem? (line_action hblock))
    rw [codeAt, hblock]
    exact h.body_eq hmem

theorem line_routine (hnodup : (taken blocks).Nodup) {k : Nat} (hk : k ≤ blocks.length) :
    (line blocks).routine ((line blocks).symbols {}) ⟨k⟩ = routineAt blocks k := by
  rw [Graph.routine, line_symbol hnodup hk, line_body hnodup hk, line_way hnodup, routineAt]
  by_cases hlt : k < blocks.length
  · rw [if_pos hlt, if_pos hlt, Way.map, line_symbol hnodup hlt]
  · rw [if_neg hlt, if_neg hlt, Way.map]

theorem line_routines (hnodup : (taken blocks).Nodup) :
    (line blocks).routines {} ⟨0⟩ = (List.range (blocks.length + 1)).map (routineAt blocks) := by
  rw [Graph.routines, line_emitted hnodup, line_ids, List.map_map]
  refine List.map_congr_left fun k hk => ?_
  exact line_routine hnodup (Nat.lt_succ_iff.mp (List.mem_range.mp hk))

/-! ## The report -/

theorem line_checkEntry (hnodup : (taken blocks).Nodup) : (line blocks).checkEntry = .ok ⟨0⟩ := by
  refine Graph.checkEntry_eq_ok.mpr ⟨line_entry blocks, ?_⟩
  rw [line_outgoing hnodup]
  split
  · exact Nat.le_refl 1
  · exact Nat.zero_le 1

theorem line_checkLimits (hnodup : (taken blocks).Nodup) : (line blocks).checkLimits = .ok () := by
  refine (line_wellFormed hnodup).checkLimits_eq_ok.mpr ⟨?_, ?_⟩
  · intro x kind hkind
    rw [line, lineUpTo_arrowsFrom hnodup (Nat.le_refl _)]
    have hroom : 1 ≤ kind.capacity := by cases kind <;> decide
    split
    · exact hroom
    · exact Nat.zero_le _
  · rintro x y ⟨a, ha, -, htarget⟩ hentry
    -- an arrow points at a number above zero, and the entry has number zero
    rw [line, lineUpTo_arrows hnodup (Nat.le_refl _), List.mem_map] at ha
    obtain ⟨k, -, rfl⟩ := ha
    cases htarget
    rcases lineUpTo_hasKind hentry with ⟨heq, -⟩ | heq
    · cases heq
    · cases heq

theorem line_unreachable (hnodup : (taken blocks).Nodup) :
    (line blocks).unreachable = .ok [] := by
  have hreach : (line blocks).reachable = .ok (line blocks).ids := by
    rw [Graph.reachable, line_entry]
    show Except.ok ((line blocks).walkFrom ⟨0⟩) = _
    rw [line_walkFrom hnodup]
  have hnone : ((line blocks).ids.filter fun x => x ∉ (line blocks).ids) = [] := by
    rw [List.filter_eq_nil_iff]
    intro x hx
    simpa using hx
  rw [Graph.unreachable, hreach]
  show Except.ok _ = _
  rw [hnone]

theorem line_unlabelled (blocks : List Block) : (line blocks).unlabelled = [] := by
  have hnone : ((line blocks).elements.filter fun e =>
      e.kind = .branch ∧ !(line blocks).hasBothArms e.id) = [] := by
    rw [List.filter_eq_nil_iff]
    intro e he hbranch
    have hkind : e.kind = .branch := (of_decide_eq_true hbranch).1
    rcases lineUpTo_hasKind ⟨e, he, rfl, rfl⟩ with ⟨-, heq⟩ | heq
    · rw [hkind] at heq
      cases heq
    · rw [hkind] at heq
      cases heq
  rw [Graph.unlabelled, hnone]
  rfl

/-- The elements of the blocks without code, in their order. -/
def blank (blocks : List Block) : List ElementId :=
  ((blocks.zipIdx 1).filter fun row => row.1.code = "").map fun row => ⟨row.2⟩

theorem line_unscripted (blocks : List Block) : (line blocks).unscripted = blank blocks := by
  have hsplit : ((line blocks).elements.filter fun e => e.kind ≠ .entry ∧ e.isUnscripted)
      = ((line blocks).elements.filter fun e => e.kind ≠ .entry).filter Element.isUnscripted := by
    rw [List.filter_filter]
    refine List.filter_congr fun e _ => ?_
    rw [Bool.decide_and, Bool.and_comm, Bool.decide_coe]
  have hcode : (Element.isUnscripted ∘ blockElement (line blocks).arrows)
      = fun row : Block × Nat => decide (row.1.code = "") := rfl
  rw [Graph.unscripted, hsplit, line_actions, List.filter_map, List.map_map, hcode]
  rfl

theorem line_report (hnodup : (taken blocks).Nodup) :
    (line blocks).report = (blank blocks).map .unscripted := by
  rw [Graph.report, line_checkEntry hnodup, line_checkLimits hnodup, line_unreachable hnodup,
    line_unscripted, line_unlabelled]
  exact List.append_nil _

/-! ## Sketches -/

/-- What the script says of element `k`: a function under its symbol runs its code and hands
    over to that of the next element, if there is one. -/
def unitAt (blocks : List Block) (k : Nat) : String :=
  "    function " ++ symbolAt k ++ "(env) \x7b\n"
    ++ "        (function () \x7b\n"
    ++ Routine.placed (codeAt blocks k)
    ++ "        \x7d)();\n"
    ++ (if k < blocks.length then "        env.execute(" ++ symbolAt (k + 1) ++ ");\n" else "")
    ++ "    \x7d\n"

/-- The script of a sketch: the functions of the entry and of the blocks, in order, in the
    function that every script defines, before the driver. -/
def script (blocks : List Block) : Script where
  source :=
    Trampoline.preamble
      ++ String.join ((List.range (blocks.length + 1)).map (unitAt blocks))
      ++ Trampoline.epilogue "entryFunction" 100
  name := "sketch"
  description := ""

theorem declaration_routineAt (blocks : List Block) (k : Nat) :
    (routineAt blocks k).declaration = unitAt blocks k := by
  -- `delta`, because the equation of `unitAt` would put its texts together
  rw [routineAt]
  delta unitAt
  by_cases hk : k < blocks.length
  · rw [if_pos hk, if_pos hk]
    simp only [Routine.declaration, String.append_assoc]
  · rw [if_neg hk, if_neg hk, String.append_empty]
    rfl

theorem compile_line (hnodup : (taken blocks).Nodup) :
    ((definition blocks).around (line blocks)).compile {} = .ok (script blocks) := by
  have hstart : ((definition blocks).around (line blocks)).graph.startOf {} = .ok ⟨0⟩ :=
    line_checkEntry hnodup
  have hunits : Routine.declaration ∘ routineAt blocks = unitAt blocks :=
    funext (declaration_routineAt blocks)
  have htext := (line blocks).unlines_scriptLines_eq {} ⟨0⟩
  rw [line_routines hnodup, List.map_map, hunits] at htext
  rw [Diagram.compile, hstart, script, ← htext]
  rfl

/-- A sketch is told the first label that is taken. -/
theorem build_eq_error_iff {error : ImportError} :
    build blocks = .error error ↔
      ∃ i block, blocks[i]? = some block ∧ (taken (blocks.take i)).Nodup ∧
        block.label ∈ taken (blocks.take i) ∧ error = .duplicateKey block.label := by
  rw [build, Definition.build, Definition.buildWith_eq_error_iff, Definition.Fault,
    firstFault_definition_iff, or_iff_left]
  -- once the elements are placed, no arrow of the chain is at fault
  rintro ⟨hnone, i, spec, hspec, -, hfault⟩
  exact faultless_chain (faultless_definition_iff.mp hnone) i spec hspec error hfault

/-- A sketch becomes nothing just when one of its labels is the key of the entry or a label
    before it, and it is told the first such label.  Otherwise every block without code is
    reported, in order, and nothing else is; and the script consists of the functions of the
    entry and of the blocks, in order, each of which runs the code of its block and hands over to
    the next, and the last to none. -/
theorem build_straightLine (blocks : List Block) :
    ((∃ error, build blocks = .error error) ↔ Repeats blocks) ∧
    (∀ error, build blocks = .error error ↔
      ∃ i block, blocks[i]? = some block ∧ ¬ Repeats (blocks.take i) ∧
        block.label ∈ taken (blocks.take i) ∧ error = .duplicateKey block.label) ∧
    (¬ Repeats blocks →
      ∃ diagram, build blocks = .ok diagram ∧
        diagram.graph.report = (blank blocks).map .unscripted ∧
        diagram.compile {} = .ok (script blocks)) := by
  simp only [repeats_iff, not_not]
  refine ⟨⟨?_, ?_⟩, fun error => build_eq_error_iff, fun hnodup => ?_⟩
  · rintro ⟨error, hfailed⟩ hnodup
    rw [build_eq_ok hnodup] at hfailed
    cases hfailed
  · intro hrepeats
    obtain ⟨i, block, hblock, hbefore, hlabel⟩ := firstTaken hrepeats
    exact ⟨_, build_eq_error_iff.mpr ⟨i, block, hblock, hbefore, hlabel, rfl⟩⟩
  · exact ⟨_, build_eq_ok hnodup, line_report hnodup, compile_line hnodup⟩

-- the third label is taken, and the fourth is too, but it comes later
example :
    build [⟨"a", "f()"⟩, ⟨"b", ""⟩, ⟨"a", "g()"⟩, ⟨"start", ""⟩] = .error (.duplicateKey "a") := by
  decide +kernel

end Sketch

end Flowchart
