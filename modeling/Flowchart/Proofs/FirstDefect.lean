/-
  Flowchart.Proofs.FirstDefect

  The inspection, the report and the compiler tell the same of a drawing.  The
  inspection stops at the first rule that is broken, the report goes through all
  of them, and the compiler asks the whole inspection or the rules for the entry
  alone.

  A check stops at a list of defects (`Graph.StopsAt`) when it passes on the empty
  list and otherwise ends with the first of the list.  Checks made one after the
  other stop at the lists put one behind the other (`StopsAt.bind`), so the
  inspection stops at the report (`inspect_stopsAt`).  The rules for the entry come
  first in the report and no later part names a defect of the entry
  (`checkEntry_eq_error_iff`), so what stops the compiler is the head of the report
  as well.
-/

import Flowchart.Proofs.ClosedScript

namespace Flowchart

/-- The defect is one of the entry. -/
def Defect.OfEntry : Defect → Prop
  | .noEntry => True
  | .entryForks _ => True
  | _ => False

namespace Graph

variable {α β : Type}

/-! ## Checks and lists of defects -/

/-- The check passes if there is no defect in the list, and otherwise ends with the first. -/
def StopsAt : Except Defect α → List Defect → Prop
  | .ok _, defects => defects = []
  | .error defect, defects => defects.head? = some defect

namespace StopsAt

theorem defectOf (check : Except Defect α) : StopsAt check (Graph.defectOf check) := by
  cases check with
  | error defect => rfl
  | ok a => rfl

theorem refuseFirst (defect : ElementId → Defect) (missed : List ElementId) :
    StopsAt (Graph.refuseFirst defect missed) (missed.map defect) := by
  cases missed with
  | nil => rfl
  | cons x rest => rfl

/-- Of two checks, the second is asked when nothing stops the first. -/
theorem bind {first : Except Defect α} {next : α → Except Defect β} {found rest : List Defect}
    (hfirst : StopsAt first found) (hnext : ∀ a, first = .ok a → StopsAt (next a) rest) :
    StopsAt (first >>= next) (found ++ rest) := by
  cases first with
  | error defect =>
    show (found ++ rest).head? = some defect
    rw [List.head?_append, hfirst]
    rfl
  | ok a =>
    have hnone : found = [] := hfirst
    rw [hnone, List.nil_append]
    exact hnext a rfl

theorem eq_error_iff {check : Except Defect α} {defects : List Defect}
    (h : StopsAt check defects) (defect : Defect) :
    check = .error defect ↔ defects.head? = some defect := by
  cases check with
  | error other =>
    have hhead : defects.head? = some other := h
    rw [hhead, Except.error.injEq, Option.some.injEq]
  | ok a =>
    have hnone : defects = [] := h
    simp [hnone]

theorem isOk_iff {check : Except Defect α} {defects : List Defect} (h : StopsAt check defects) :
    (∃ a, check = .ok a) ↔ defects = [] := by
  cases check with
  | error other =>
    have hhead : defects.head? = some other := h
    have hsome : defects ≠ [] := by
      rintro rfl
      cases hhead
    simp [hsome]
  | ok a =>
    have hnone : defects = [] := h
    simp [hnone]

end StopsAt

/-! ## The inspection and the report -/

theorem unreachable_of_entry {g : Graph} {start : ElementId} (hentry : g.entry = some start) :
    g.unreachable = .ok (g.ids.filter fun x => x ∉ g.walkFrom start) := by
  rw [unreachable, reachable, hentry]

theorem checkReachability_stopsAt {g : Graph} {missed : List ElementId}
    (h : g.unreachable = .ok missed) : StopsAt g.checkReachability (missed.map .unreachable) := by
  rw [checkReachability, h]
  exact StopsAt.refuseFirst _ _

/-- The inspection ends with the first defect of the report. -/
theorem inspect_stopsAt (g : Graph) : StopsAt g.inspect g.report := by
  rw [inspect, report]
  simp only [List.append_assoc]
  refine (StopsAt.defectOf _).bind fun start hstart => ?_
  -- behind the check of the entry there is an entry, so the walk has somewhere to start
  have hmissed := unreachable_of_entry (checkEntry_eq_ok.mp hstart).1
  rw [hmissed]
  refine (StopsAt.defectOf _).bind fun _ _ => ?_
  refine (checkReachability_stopsAt hmissed).bind fun _ _ => ?_
  exact (StopsAt.refuseFirst .unscripted _).bind fun _ _ => StopsAt.refuseFirst .unlabelled _

theorem inspect_eq_ok_iff (g : Graph) : g.inspect = .ok () ↔ g.report = [] := by
  rw [← g.inspect_stopsAt.isOk_iff]
  refine ⟨fun h => ⟨(), h⟩, ?_⟩
  rintro ⟨⟨⟩, h⟩
  exact h

/-! ## Defects of the entry -/

theorem ofEntry_of_checkEntry {g : Graph} {defect : Defect}
    (h : g.checkEntry = .error defect) : defect.OfEntry := by
  rw [checkEntry] at h
  cases hentry : g.entry with
  | none =>
    rw [hentry] at h
    cases h
    trivial
  | some start =>
    simp only [hentry] at h
    split at h
    · cases h
      trivial
    · cases h

theorem not_ofEntry_of_checkLimits {g : Graph} {defect : Defect}
    (h : g.checkLimits = .error defect) : ¬ defect.OfEntry := by
  rw [checkLimits] at h
  cases hfind : g.elements.find? Element.isOverfull with
  | some e =>
    rw [hfind] at h
    cases h
    exact id
  | none =>
    simp only [hfind] at h
    cases hentry : g.entry with
    | none =>
      rw [hentry] at h
      cases h
    | some start =>
      simp only [hentry] at h
      split at h
      · cases h
        exact id
      · cases h

/-- Once the entry has passed, the report names no defect of the entry. -/
theorem not_ofEntry_of_mem_report {g : Graph} {start : ElementId} {defect : Defect}
    (hstart : g.checkEntry = .ok start) (h : defect ∈ g.report) : ¬ defect.OfEntry := by
  rw [report, hstart, unreachable_of_entry (checkEntry_eq_ok.mp hstart).1] at h
  simp only [List.mem_append, List.mem_map] at h
  rcases h with (((h | h) | ⟨x, -, rfl⟩) | ⟨x, -, rfl⟩) | ⟨x, -, rfl⟩
  · cases h
  · cases hlimits : g.checkLimits with
    | error other =>
      rw [hlimits] at h
      rw [List.mem_singleton.mp h]
      exact not_ofEntry_of_checkLimits hlimits
    | ok u =>
      rw [hlimits] at h
      cases h
  · exact id
  · exact id
  · exact id

/-- The check of the entry fails just when the report starts with a defect of the entry. -/
theorem checkEntry_eq_error_iff (g : Graph) (defect : Defect) :
    g.checkEntry = .error defect ↔ g.report.head? = some defect ∧ defect.OfEntry := by
  refine ⟨?_, ?_⟩
  · intro h
    have hinspect : g.inspect = .error defect := by
      rw [inspect, h]
      rfl
    exact ⟨(g.inspect_stopsAt.eq_error_iff defect).mp hinspect, ofEntry_of_checkEntry h⟩
  · rintro ⟨hhead, hdefect⟩
    cases hentry : g.checkEntry with
    | error other =>
      -- the report starts with what the check of the entry says
      have hother : g.report.head? = some other := by
        rw [report, hentry]
        rfl
      rw [hother, Option.some.injEq] at hhead
      rw [hhead]
    | ok start =>
      exact absurd hdefect (not_ofEntry_of_mem_report hentry (List.mem_of_head? hhead))

/-! ## The compiler -/

theorem startOf_inspected_eq_error (g : Graph) (options : CompileOptions) (defect : Defect) :
    g.startOf { options with inspectFirst := true } = .error defect ↔
      g.inspect = .error defect := by
  have hstart : g.startOf { options with inspectFirst := true }
      = (g.inspect >>= fun _ => g.checkEntry) := rfl
  rw [hstart, bind_eq_error]
  refine ⟨?_, Or.inl⟩
  rintro (h | ⟨_, hok, h⟩)
  · exact h
  · -- what has passed the inspection has an entry
    obtain ⟨⟨start, hentry⟩, -⟩ := inspect_eq_ok.mp hok
    rw [hentry] at h
    cases h

/-- Whether the inspection comes first has no part in the symbols. -/
theorem symbolTable_inspectFirst (options : CompileOptions) (first : Bool) (count : Nat)
    (elements : List Element) :
    symbolTable { options with inspectFirst := first } count elements
      = symbolTable options count elements := by
  induction elements generalizing count with
  | nil => rfl
  | cons e rest ih => rw [symbolTable, symbolTable, ih, ih]

theorem scriptLines_inspectFirst (g : Graph) (options : CompileOptions) (first : Bool)
    (start : ElementId) :
    g.scriptLines { options with inspectFirst := first } start
      = g.scriptLines options start := by
  rw [scriptLines, scriptLines, routines, routines, symbols, symbols, symbolTable_inspectFirst]

end Graph

namespace CompileError

/-- The defect that an error is about. -/
def defect : CompileError → Defect
  | .noEntry => .noEntry
  | .entryForks children => .entryForks children
  | .invalid defect => defect

theorem defect_ofDefect (defect : Defect) : (ofDefect defect).defect = defect := by
  cases defect <;> rfl

/-- Errors tell defects apart. -/
theorem ofDefect_injective : Function.Injective ofDefect :=
  Function.LeftInverse.injective defect_ofDefect

theorem ofDefect_ne_invalid {defect : Defect} (h : defect.OfEntry) (other : Defect) :
    ofDefect defect ≠ .invalid other := by
  cases defect with
  | noEntry => simp [ofDefect]
  | entryForks children => simp [ofDefect]
  | _ => exact False.elim h

end CompileError

namespace Diagram

variable {d : Diagram} {options : CompileOptions}

theorem compile_eq_error {error : CompileError} :
    d.compile options = .error error ↔
      ∃ defect, d.graph.startOf options = .error defect ∧ error = .ofDefect defect := by
  rw [compile]
  cases d.graph.startOf options with
  | error defect => simp [eq_comm]
  | ok start => simp

/-- Where the inspection passes, it makes no difference whether it is asked for. -/
theorem compile_inspectFirst (hok : d.graph.inspect = .ok ()) (first : Bool) :
    d.compile { options with inspectFirst := first } = d.compile options := by
  obtain ⟨start, hentry, hstart⟩ := Graph.startOf_eq_ok hok options
  obtain ⟨start', hentry', hstart'⟩ :=
    Graph.startOf_eq_ok hok { options with inspectFirst := first }
  rw [hentry, Option.some.injEq] at hentry'
  rw [compile, compile, hstart, hstart', ← hentry']
  simp only [Graph.scriptLines_inspectFirst]

/-- The inspection, the report and the compiler tell the same of a diagram. -/
structure OneVerdict (d : Diagram) (options : CompileOptions) : Prop where
  inspect_ok : d.graph.inspect = .ok () ↔ d.graph.report = []
  /-- The inspection ends with the first defect of the report. -/
  inspect_error : ∀ defect,
    d.graph.inspect = .error defect ↔ d.graph.report.head? = some defect
  /-- With the inspection first, the compiler fails just when the inspection does, for the
      same defect. -/
  inspected_error : ∀ error,
    d.compile { options with inspectFirst := true } = .error error ↔
      ∃ defect, d.graph.inspect = .error defect ∧ error = .ofDefect defect
  /-- Where the inspection passes, there is a script, and it is the same without it. -/
  inspected_ok : d.graph.inspect = .ok () →
    ∃ script, d.compile { options with inspectFirst := true } = .ok script ∧
      d.compile { options with inspectFirst := false } = .ok script
  /-- Without the inspection, the compiler fails just when the report starts with a defect of
      the entry, and says the same of it. -/
  plain_noEntry :
    d.compile { options with inspectFirst := false } = .error .noEntry ↔
      d.graph.report.head? = some .noEntry
  plain_entryForks : ∀ children,
    d.compile { options with inspectFirst := false } = .error (.entryForks children) ↔
      d.graph.report.head? = some (.entryForks children)
  plain_invalid : ∀ defect,
    d.compile { options with inspectFirst := false } ≠ .error (.invalid defect)
  /-- A report without defects is enough for the compiler, whatever the options. -/
  clean : d.graph.report = [] → ∃ script, d.compile options = .ok script

/-- Without the inspection, the compiler fails with what the check of the entry says. -/
theorem compile_plain_eq_error {error : CompileError} :
    d.compile { options with inspectFirst := false } = .error error ↔
      ∃ defect, (d.graph.report.head? = some defect ∧ defect.OfEntry) ∧
        error = .ofDefect defect := by
  have hplain : { options with inspectFirst := false }.inspectFirst = false := rfl
  rw [compile_eq_error]
  simp only [Graph.startOf_of_plain _ hplain, Graph.checkEntry_eq_error_iff]

theorem compile_plain_eq_ofDefect (defect : Defect) (hdefect : defect.OfEntry) :
    d.compile { options with inspectFirst := false } = .error (.ofDefect defect) ↔
      d.graph.report.head? = some defect := by
  rw [compile_plain_eq_error]
  refine ⟨?_, fun h => ⟨defect, ⟨h, hdefect⟩, rfl⟩⟩
  rintro ⟨other, ⟨hhead, -⟩, hsame⟩
  rw [hhead, CompileError.ofDefect_injective hsame]

/-- Of every diagram, whatever its drawing and the options, the inspection, the report and the
    compiler tell the same. -/
theorem compile_oneVerdict (d : Diagram) (options : CompileOptions) : d.OneVerdict options := by
  have hcompiled : ∀ opts, d.graph.inspect = .ok () → ∃ script, d.compile opts = .ok script := by
    intro opts hok
    obtain ⟨start, -, hstart⟩ := Graph.startOf_eq_ok hok opts
    exact compile_isOk hstart
  refine ⟨d.graph.inspect_eq_ok_iff, d.graph.inspect_stopsAt.eq_error_iff, ?_, ?_, ?_, ?_, ?_, ?_⟩
  · intro error
    rw [compile_eq_error]
    simp only [Graph.startOf_inspected_eq_error]
  · intro hok
    obtain ⟨script, hscript⟩ := hcompiled options hok
    exact ⟨script, (compile_inspectFirst hok true).trans hscript,
      (compile_inspectFirst hok false).trans hscript⟩
  · exact compile_plain_eq_ofDefect .noEntry trivial
  · intro children
    exact compile_plain_eq_ofDefect (.entryForks children) trivial
  · intro other h
    obtain ⟨defect, ⟨-, hdefect⟩, hsame⟩ := compile_plain_eq_error.mp h
    exact CompileError.ofDefect_ne_invalid hdefect other hsame.symm
  · intro hclean
    exact hcompiled options (d.graph.inspect_eq_ok_iff.mpr hclean)

end Diagram

end Flowchart
