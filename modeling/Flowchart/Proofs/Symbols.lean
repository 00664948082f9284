/-
  Flowchart.Proofs.Symbols

  The symbols that a script uses for the elements of a drawing.  Every element
  has one: the entry has its own, and the others are numbered from one on behind
  the stem, in the order of their age (`symbol_numbered`).  So the symbols in use
  are that of the entry and the numbered ones (`mem_symbolsOf`), and they are
  distinct just when the entry, if there is one, has a symbol that is none of
  these (`symbolsOf_nodup_iff`).  Then a symbol tells the element
  (`symbol_injective`).
-/

import Flowchart.Proofs.Arena
import Flowchart.Script.Compile

namespace Flowchart

variable {options : CompileOptions}

/-- How many elements get a number: all but the entry. -/
def numbered (elements : List Element) : Nat :=
  elements.countP fun e => e.kind ≠ .entry

theorem numbered_cons_entry {e : Element} (h : e.kind = .entry) (rest : List Element) :
    numbered (e :: rest) = numbered rest := by
  simp [numbered, h]

theorem numbered_cons_other {e : Element} (h : e.kind ≠ .entry) (rest : List Element) :
    numbered (e :: rest) = numbered rest + 1 := by
  simp [numbered, h]

/-- The symbol of the entry is none of those that are numbered up to `count`. -/
def CompileOptions.SetsEntryApart (options : CompileOptions) (count : Nat) : Prop :=
  ∀ k, 1 ≤ k → k ≤ count → options.entrySymbol ≠ options.stem ++ Nat.repr k

/-- Behind one stem, the symbol tells the number. -/
theorem numberedSymbol_injective {stem : String} {j k : Nat}
    (h : stem ++ Nat.repr j = stem ++ Nat.repr k) : j = k := by
  have hdigits : Nat.toDigits 10 j = Nat.toDigits 10 k := by
    rw [← Nat.toList_repr, ← Nat.toList_repr, (String.append_right_inj stem).mp h]
  rw [← Nat.ofDigitChars_ten_toDigits (n := j), hdigits, Nat.ofDigitChars_ten_toDigits]

/-! ## The rows of a table -/

theorem symbolTable_cons_entry {e : Element} (h : e.kind = .entry) (count : Nat)
    (rest : List Element) :
    symbolTable options count (e :: rest)
      = (e.id, options.entrySymbol) :: symbolTable options count rest := by
  rw [symbolTable, if_pos h]

theorem symbolTable_cons_other {e : Element} (h : e.kind ≠ .entry) (count : Nat)
    (rest : List Element) :
    symbolTable options count (e :: rest)
      = (e.id, options.stem ++ Nat.repr (count + 1))
          :: symbolTable options (count + 1) rest := by
  rw [symbolTable, if_neg h]

/-- Every element has one row, in the order of the elements. -/
theorem symbolTable_ids (count : Nat) (elements : List Element) :
    (symbolTable options count elements).map Prod.fst = elements.map Element.id := by
  induction elements generalizing count with
  | nil => rfl
  | cons e rest ih =>
    by_cases h : e.kind = .entry
    · rw [symbolTable_cons_entry h, List.map_cons, List.map_cons, ih]
    · rw [symbolTable_cons_other h, List.map_cons, List.map_cons, ih]

/-- A table is read off the numbers and the kinds of the elements. -/
theorem symbolTable_map {u : Element → Element} (hid : ∀ e, (u e).id = e.id)
    (hkind : ∀ e, (u e).kind = e.kind) (count : Nat) (elements : List Element) :
    symbolTable options count (elements.map u) = symbolTable options count elements := by
  induction elements generalizing count with
  | nil => rfl
  | cons e rest ih =>
    rw [List.map_cons]
    by_cases h : e.kind = .entry
    · have hu : (u e).kind = .entry := (hkind e).trans h
      rw [symbolTable_cons_entry hu, symbolTable_cons_entry h, ih, hid]
    · have hu : (u e).kind ≠ .entry := by
        rw [hkind]
        exact h
      rw [symbolTable_cons_other hu, symbolTable_cons_other h, ih, hid]

theorem entry_mem_symbolTable {e : Element} {elements : List Element} (he : e ∈ elements)
    (h : e.kind = .entry) (count : Nat) :
    (e.id, options.entrySymbol) ∈ symbolTable options count elements := by
  induction elements generalizing count with
  | nil => cases he
  | cons f rest ih =>
    by_cases hf : f.kind = .entry
    · rw [symbolTable_cons_entry hf]
      rcases List.mem_cons.mp he with rfl | he
      · exact List.mem_cons_self
      · exact List.mem_cons_of_mem _ (ih he count)
    · rw [symbolTable_cons_other hf]
      rcases List.mem_cons.mp he with rfl | he
      · exact absurd h hf
      · exact List.mem_cons_of_mem _ (ih he (count + 1))

/-- The elements other than the entry are numbered in the order in which they stand. -/
theorem numbered_mem_symbolTable {e : Element} {elements : List Element} {k : Nat}
    (h : (elements.filter fun e => e.kind ≠ .entry)[k]? = some e) (count : Nat) :
    (e.id, options.stem ++ Nat.repr (count + k + 1)) ∈ symbolTable options count elements := by
  induction elements generalizing count k with
  | nil => cases h
  | cons f rest ih =>
    by_cases hf : f.kind = .entry
    · rw [List.filter_cons_of_neg (by simpa using hf)] at h
      rw [symbolTable_cons_entry hf]
      exact List.mem_cons_of_mem _ (ih h count)
    · rw [List.filter_cons_of_pos (by simpa using hf)] at h
      rw [symbolTable_cons_other hf]
      -- the first of them takes the next number, and the others count on from there
      cases k with
      | zero =>
        obtain rfl : f = e := Option.some.inj h
        exact List.mem_cons_self
      | succ k =>
        have hrest := ih h (count + 1)
        rw [show count + 1 + k + 1 = count + (k + 1) + 1 by omega] at hrest
        exact List.mem_cons_of_mem _ hrest

/-! ## The symbols in use -/

/-- The symbols of a list of elements, in their order. -/
def symbolsOf (options : CompileOptions) (count : Nat) (elements : List Element) :
    List String :=
  (symbolTable options count elements).map Prod.snd

theorem symbolsOf_cons_entry {e : Element} (h : e.kind = .entry) (count : Nat)
    (rest : List Element) :
    symbolsOf options count (e :: rest)
      = options.entrySymbol :: symbolsOf options count rest := by
  rw [symbolsOf, symbolTable_cons_entry h, List.map_cons]
  rfl

theorem symbolsOf_cons_other {e : Element} (h : e.kind ≠ .entry) (count : Nat)
    (rest : List Element) :
    symbolsOf options count (e :: rest)
      = (options.stem ++ Nat.repr (count + 1)) :: symbolsOf options (count + 1) rest := by
  rw [symbolsOf, symbolTable_cons_other h, List.map_cons]
  rfl

/-- The symbols in use are that of the entry and the numbers after `count`. -/
theorem mem_symbolsOf {count : Nat} {elements : List Element} {s : String} :
    s ∈ symbolsOf options count elements ↔
      ((∃ e ∈ elements, e.kind = .entry) ∧ s = options.entrySymbol) ∨
        ∃ k, count < k ∧ k ≤ count + numbered elements ∧ s = options.stem ++ Nat.repr k := by
  induction elements generalizing count with
  | nil =>
    refine ⟨fun h => absurd h List.not_mem_nil, ?_⟩
    rintro (⟨⟨e, he, -⟩, -⟩ | ⟨k, hlt, hle, -⟩)
    · exact absurd he List.not_mem_nil
    · have hzero : numbered [] = 0 := rfl
      omega
  | cons e rest ih =>
    rw [List.exists_mem_cons_iff]
    by_cases h : e.kind = .entry
    · rw [symbolsOf_cons_entry h, List.mem_cons, ih, numbered_cons_entry h]
      refine ⟨?_, ?_⟩
      · rintro (hs | ⟨-, hs⟩ | hs)
        · exact Or.inl ⟨Or.inl h, hs⟩
        · exact Or.inl ⟨Or.inl h, hs⟩
        · exact Or.inr hs
      · rintro (⟨-, hs⟩ | hs)
        · exact Or.inl hs
        · exact Or.inr (Or.inr hs)
    · rw [symbolsOf_cons_other h, List.mem_cons, ih, numbered_cons_other h, or_iff_right h]
      refine ⟨?_, ?_⟩
      · rintro (hs | hs | ⟨k, hlt, hle, hs⟩)
        · exact Or.inr ⟨count + 1, by omega, by omega, hs⟩
        · exact Or.inl hs
        · exact Or.inr ⟨k, by omega, by omega, hs⟩
      · rintro (hs | ⟨k, hlt, hle, hs⟩)
        · exact Or.inr (Or.inl hs)
        · -- the first number is the symbol of `e`, the others belong to the rest
          by_cases hk : k = count + 1
          · exact Or.inl (hk ▸ hs)
          · exact Or.inr (Or.inr ⟨k, by omega, by omega, hs⟩)

/-- The symbols are distinct just when that of the entry, if there is one, is none of the
    numbered ones. -/
theorem symbolsOf_nodup_iff {count : Nat} {elements : List Element}
    (hone : elements.Pairwise fun e f => e.kind = .entry → f.kind ≠ .entry) :
    (symbolsOf options count elements).Nodup ↔
      ((∃ e ∈ elements, e.kind = .entry) →
        ∀ k, count < k → k ≤ count + numbered elements →
          options.entrySymbol ≠ options.stem ++ Nat.repr k) := by
  induction elements generalizing count with
  | nil =>
    refine ⟨fun _ => ?_, fun _ => List.nodup_nil⟩
    rintro ⟨e, he, -⟩
    cases he
  | cons e rest ih =>
    obtain ⟨hfirst, hrest⟩ := List.pairwise_cons.mp hone
    rw [List.exists_mem_cons_iff]
    by_cases h : e.kind = .entry
    · -- the entry stands first, so all other symbols are numbered
      have hnone : ¬ ∃ f ∈ rest, f.kind = .entry := by
        rintro ⟨f, hf, hk⟩
        exact hfirst f hf h hk
      rw [symbolsOf_cons_entry h, List.nodup_cons, ih hrest, mem_symbolsOf,
        numbered_cons_entry h]
      refine ⟨?_, ?_⟩
      · rintro ⟨hnot, -⟩ - k hlt hle heq
        exact hnot (Or.inr ⟨k, hlt, hle, heq⟩)
      · intro hapart
        refine ⟨?_, fun hex => absurd hex hnone⟩
        rintro (⟨hex, -⟩ | ⟨k, hlt, hle, heq⟩)
        · exact hnone hex
        · exact hapart (Or.inl h) k hlt hle heq
    · -- the first symbol has a number that none of the others has
      rw [symbolsOf_cons_other h, List.nodup_cons, ih hrest, mem_symbolsOf,
        numbered_cons_other h, or_iff_right h]
      refine ⟨?_, ?_⟩
      · rintro ⟨hnot, hafter⟩ hex k hlt hle heq
        by_cases hk : k = count + 1
        · exact hnot (Or.inl ⟨hex, by rw [heq, hk]⟩)
        · exact hafter hex k (by omega) (by omega) heq
      · intro hapart
        refine ⟨?_, fun hex k hlt hle => hapart hex k (by omega) (by omega)⟩
        rintro (⟨hex, heq⟩ | ⟨k, hlt, hle, heq⟩)
        · exact hapart hex (count + 1) (by omega) (by omega) heq.symm
        · have hk := numberedSymbol_injective heq
          omega

/-! ## The symbols of a drawing -/

namespace Graph.WellFormed

variable {g : Graph}

theorem one_entry (h : g.WellFormed) :
    g.elements.Pairwise fun e f => e.kind = .entry → f.kind ≠ .entry := by
  refine h.elements_sorted.imp_of_mem ?_
  intro e f he hf hlt hke hkf
  rw [h.entry_unique he hf hke hkf] at hlt
  exact Nat.lt_irrefl _ hlt

/-- The symbol of an element is the one in its row. -/
theorem symbolIn_of_mem (h : g.WellFormed) {x : ElementId} {s : String}
    (hrow : (x, s) ∈ g.symbols options) : symbolIn (g.symbols options) x = s := by
  have hkeys : ((g.symbols options).map Prod.fst).Nodup := by
    rw [symbols, symbolTable_ids]
    exact h.ids_nodup
  rw [symbolIn, (find?_key_eq_some hkeys).mpr ⟨hrow, rfl⟩]

theorem symbolIn_mem (h : g.WellFormed) (options : CompileOptions) {x : ElementId}
    (hx : x ∈ g.ids) : (x, symbolIn (g.symbols options) x) ∈ g.symbols options := by
  have hids : x ∈ (g.symbols options).map Prod.fst := by
    rw [symbols, symbolTable_ids]
    exact hx
  obtain ⟨⟨y, s⟩, hrow, rfl⟩ := List.mem_map.mp hids
  rw [h.symbolIn_of_mem hrow]
  exact hrow

theorem symbol_entry (h : g.WellFormed) {x : ElementId} (hx : g.HasKind x .entry) :
    symbolIn (g.symbols options) x = options.entrySymbol := by
  obtain ⟨e, he, rfl, hk⟩ := hx
  exact h.symbolIn_of_mem (entry_mem_symbolTable he hk 0)

theorem symbol_numbered (h : g.WellFormed) {k : Nat} {e : Element}
    (he : (g.elements.filter fun e => e.kind ≠ .entry)[k]? = some e) :
    symbolIn (g.symbols options) e.id = options.stem ++ Nat.repr (k + 1) := by
  have hrow : (e.id, options.stem ++ Nat.repr (0 + k + 1)) ∈ g.symbols options :=
    numbered_mem_symbolTable he 0
  rw [Nat.zero_add] at hrow
  exact h.symbolIn_of_mem hrow

/-- The symbols in use are those of the elements. -/
theorem map_symbolIn (h : g.WellFormed) (options : CompileOptions) :
    g.ids.map (symbolIn (g.symbols options)) = symbolsOf options 0 g.elements := by
  have hids : g.ids = (g.symbols options).map Prod.fst := (symbolTable_ids 0 g.elements).symm
  rw [hids, List.map_map]
  exact List.map_congr_left fun row hrow => h.symbolIn_of_mem hrow

/-- Symbols tell elements apart just when that of the entry, if there is one, is none of the
    numbered ones. -/
theorem symbol_injective_iff (h : g.WellFormed) (options : CompileOptions) :
    (∀ x ∈ g.ids, ∀ y ∈ g.ids,
        symbolIn (g.symbols options) x = symbolIn (g.symbols options) y → x = y) ↔
      ((∃ e ∈ g.elements, e.kind = .entry) →
        options.SetsEntryApart (numbered g.elements)) := by
  rw [← List.nodup_map_iff_inj_on h.ids_nodup, h.map_symbolIn, symbolsOf_nodup_iff h.one_entry,
    Nat.zero_add]
  rfl

/-- Where the symbol of the entry is none of the numbered ones, a symbol tells the element. -/
theorem symbol_injective (h : g.WellFormed)
    (hapart : options.SetsEntryApart (numbered g.elements)) {x y : ElementId}
    (hx : x ∈ g.ids) (hy : y ∈ g.ids)
    (heq : symbolIn (g.symbols options) x = symbolIn (g.symbols options) y) : x = y :=
  (h.symbol_injective_iff options).mpr (fun _ => hapart) x hx y hy heq

end Graph.WellFormed

/-! ## Runs of edits -/

namespace Graph

/-- How the elements of a drawing are named in its script. -/
structure Named (g : Graph) (options : CompileOptions) : Prop where
  /-- The table has a row for every element, oldest first, and no other. -/
  rows : (g.symbols options).map Prod.fst = g.ids
  /-- What is not on the drawing has no symbol. -/
  missing : ∀ x, x ∉ g.ids → symbolIn (g.symbols options) x = ""
  /-- The entry has the symbol that is kept for it. -/
  entry : ∀ e ∈ g.elements, e.kind = .entry →
    symbolIn (g.symbols options) e.id = options.entrySymbol
  /-- The others are numbered from one on, in the order of their age. -/
  number : ∀ (k : Nat) (e : Element),
    (g.elements.filter fun e => e.kind ≠ .entry)[k]? = some e →
      symbolIn (g.symbols options) e.id = options.stem ++ Nat.repr (k + 1)
  /-- Different elements have different symbols, unless there is an entry and its symbol is one
      of the numbered ones. -/
  distinct_iff : (∀ x ∈ g.ids, ∀ y ∈ g.ids, x ≠ y →
      symbolIn (g.symbols options) x ≠ symbolIn (g.symbols options) y) ↔
    (¬ ∃ e ∈ g.elements, e.kind = .entry) ∨ ∀ k, 1 ≤ k → k ≤ numbered g.elements →
      options.entrySymbol ≠ options.stem ++ Nat.repr k

/-- Whatever edits have led to a drawing, and whatever symbol and stem are chosen, its script names
    just the elements of the drawing: the entry by its symbol, the others by number. -/
theorem ofEdits_named (edits : List Edit) (options : CompileOptions) :
    (ofEdits edits).Named options := by
  have h := WellFormed.ofEdits edits
  refine ⟨symbolTable_ids 0 _, fun x hx => ?_, fun e he hk => ?_, fun k e => h.symbol_numbered, ?_⟩
  · have hnone : ((ofEdits edits).symbols options).find? (fun row => row.1 = x) = none := by
      rw [List.find?_eq_none]
      intro row hrow hid
      have hlive : row.1 ∈ ((ofEdits edits).symbols options).map Prod.fst :=
        List.mem_map_of_mem hrow
      rw [symbols, symbolTable_ids, of_decide_eq_true hid] at hlive
      exact hx hlive
    rw [symbolIn, hnone]
  · exact h.symbol_entry ⟨e, he, rfl, hk⟩
  · refine Iff.trans ?_ ((h.symbol_injective_iff options).trans imp_iff_not_or)
    refine forall_congr' fun x => forall_congr' fun _ => forall_congr' fun y => ?_
    exact forall_congr' fun _ => not_imp_not

/-- A removed element leaves no gap in the numbers, and a stem that ends in a digit can run into
    the symbol of the entry. -/
example :
    (ofEdits [.addElement .action none, .addElement .entry none, .addElement .action none,
        .addElement .branch none, .removeElement ⟨0⟩]).symbols
      { entrySymbol := "step12", stem := "step1" }
      = [(⟨1⟩, "step12"), (⟨2⟩, "step11"), (⟨3⟩, "step12")] := by
  decide +kernel

end Graph

end Flowchart
