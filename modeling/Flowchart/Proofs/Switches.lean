/-
  Flowchart.Proofs.Switches

  What the two switches of the command can change.  A run that went well without
  them goes the same with them: a definition that becomes a diagram under the
  rules for arrows becomes the same diagram without them, and a diagram that was
  let through without `--force` has no defects, so there was nothing to insist
  on.  Without `--force` a diagram with defects leaves no trace but the lines
  that tell of them, and one without is always compiled.

  The arguments come first: switches put in front of them are read as what they
  are, and nothing else of the request changes (`ofArguments_switched`).
-/

import Flowchart.Command.Run
import Flowchart.Proofs.DefinitionText
import Flowchart.Proofs.FirstDefect
import Flowchart.Proofs.UncheckedImport
import Flowchart.Proofs.Utf8

namespace Flowchart

/-- A definition that becomes a diagram under the rules for arrows becomes the same diagram
    without them. -/
theorem Definition.buildUnchecked_of_build {d : Definition} {diagram : Diagram}
    (h : d.build = .ok diagram) : d.buildUnchecked = .ok diagram := by
  obtain ⟨keys, g, graph, hplace, harrows, rfl⟩ := buildWith_eq_ok.mp h
  obtain ⟨hp, hr⟩ := placed hplace
  have hfree := ((placeArrows_checked_iff hp hr).mp harrows).1
  exact buildWith_eq_ok.mpr ⟨keys, g, graph, hplace, hfree, rfl⟩

/-- A report without defects is enough for the compiler. -/
theorem Diagram.compile_of_clean_report {d : Diagram} (h : d.graph.report = [])
    (options : CompileOptions) : ∃ script, d.compile options = .ok script := by
  obtain ⟨start, -, hstart⟩ := Graph.startOf_eq_ok (d.graph.inspect_eq_ok_iff.mpr h) options
  exact compile_isOk hstart

namespace Command

/-! ## Switches among the arguments -/

/-- The request with other switches. -/
def Request.switched (request : Request) (force unchecked : Bool) : Request :=
  { request with force, unchecked }

/-- What has been given so far, with other switches. -/
def Draft.switched (draft : Draft) (force unchecked : Bool) : Draft :=
  { draft with force, unchecked }

/-- The arguments that set the switches. -/
def switchArguments (force unchecked : Bool) : List String :=
  (if force then ["--force"] else []) ++ (if unchecked then ["--unchecked"] else [])

/-- Going on from a draft without switches gives the request, and from the same draft with
    switches the request with these switches. -/
structure Carries (next : Draft → Invocation) (draft : Draft) (request : Request) : Prop where
  force : draft.force = false
  unchecked : draft.unchecked = false
  switched : ∀ force unchecked,
    next (draft.switched force unchecked) = .run (request.switched force unchecked)

/-- The change of a draft does not look at the switches and leaves them as they are. -/
def Indifferent (change : Draft → Option Draft) : Prop :=
  ∀ draft force unchecked, change (draft.switched force unchecked)
    = (change draft).map fun d => d.switched force unchecked

theorem indifferent_set (setting : Setting) (value : String) :
    Indifferent fun draft => draft.set setting value := by
  intro draft force unchecked
  cases setting <;> simp only [Draft.set, Option.map_map] <;> rfl

theorem indifferent_setPath (path : String) : Indifferent fun draft => draft.setPath path := by
  intro draft force unchecked
  simp only [Draft.setPath, Option.map_map]
  rfl

theorem Indifferent.keeps {change : Draft → Option Draft} (hchange : Indifferent change)
    {draft draft' : Draft} (h : change draft = some draft') :
    draft'.force = draft.force ∧ draft'.unchecked = draft.unchecked := by
  -- with its own switches a draft is what it was, and so is what becomes of it
  have hsame : change draft = some (draft'.switched draft.force draft.unchecked) := by
    have hown := hchange draft draft.force draft.unchecked
    rw [h] at hown
    exact hown
  have heq : draft' = draft'.switched draft.force draft.unchecked :=
    Option.some.inj (h.symm.trans hsame)
  rw [heq]
  exact ⟨rfl, rfl⟩

/-- A change that does not look at the switches can come first. -/
theorem Carries.after_change {change : Draft → Option Draft} {next : Draft → Invocation}
    {draft : Draft} {request : Request} (hchange : Indifferent change)
    (h : (match change draft with | none => Invocation.misuse | some d => next d) = .run request)
    (hnext : ∀ draft', next draft' = .run request → Carries next draft' request) :
    Carries (fun d => match change d with | none => .misuse | some d => next d)
      draft request := by
  cases hdraft : change draft with
  | none =>
    rw [hdraft] at h
    cases h
  | some draft' =>
    rw [hdraft] at h
    have hcarries := hnext draft' h
    obtain ⟨hforce, hunchecked⟩ := hchange.keeps hdraft
    refine ⟨hforce ▸ hcarries.force, hunchecked ▸ hcarries.unchecked, fun force unchecked => ?_⟩
    simp only [hchange draft, hdraft, Option.map_some]
    exact hcarries.switched force unchecked

variable {request : Request}

theorem carries_invocation (hforce : request.force = false)
    (hunchecked : request.unchecked = false) {draft : Draft}
    (h : draft.invocation = .run request) : Carries Draft.invocation draft request := by
  cases hpath : draft.path with
  | none =>
    simp only [Draft.invocation, hpath] at h
    cases h
  | some path =>
    simp only [Draft.invocation, hpath] at h
    cases h
    refine ⟨hforce, hunchecked, fun force unchecked => ?_⟩
    simp only [Draft.invocation, Draft.switched, hpath]
    rfl

theorem carries_readPaths (hforce : request.force = false)
    (hunchecked : request.unchecked = false) {paths : List String} {draft : Draft}
    (h : readPaths draft paths = .run request) :
    Carries (fun d => readPaths d paths) draft request := by
  induction paths generalizing draft with
  | nil => exact carries_invocation hforce hunchecked h
  | cons path rest ih =>
    simp only [readPaths] at h ⊢
    exact Carries.after_change (indifferent_setPath path) h fun _ => ih

/-- Where arguments are read as a request without switches, a draft with switches becomes the
    request with these switches. -/
theorem carries_read (hforce : request.force = false)
    (hunchecked : request.unchecked = false) {arguments : List String} {draft : Draft}
    {pending : Option Setting} (h : read draft pending arguments = .run request) :
    Carries (fun d => read d pending arguments) draft request := by
  induction arguments generalizing draft pending with
  | nil =>
    cases pending with
    | some setting => cases h
    | none => exact carries_invocation hforce hunchecked h
  | cons text rest ih =>
    cases pending with
    | some setting =>
      cases hlook : Argument.ofText text with
      | plain value =>
        simp only [read, hlook] at h ⊢
        exact Carries.after_change (indifferent_set setting value) h fun _ => ih
      | _ => simp only [read, hlook] at h; cases h
    | none =>
      cases hlook : Argument.ofText text with
      | plain path =>
        simp only [read, hlook] at h ⊢
        exact Carries.after_change (indifferent_setPath path) h fun _ => ih
      | endOfOptions =>
        simp only [read, hlook] at h ⊢
        exact carries_readPaths hforce hunchecked h
      | setting setting value =>
        cases value with
        | none =>
          simp only [read, hlook] at h ⊢
          exact ih h
        | some value =>
          simp only [read, hlook] at h ⊢
          exact Carries.after_change (indifferent_set setting value) h fun _ => ih
      | switch switch =>
        -- a switch among the arguments would be in the request
        cases switch with
        | force =>
          simp only [read, hlook] at h
          split at h
          · cases h
          · exact absurd (ih h).force (by simp)
        | unchecked =>
          simp only [read, hlook] at h
          split at h
          · cases h
          · exact absurd (ih h).unchecked (by simp)
        | _ => simp only [read, hlook] at h; cases h
      | unknown => simp only [read, hlook] at h; cases h

/-- Arguments that ask for a request without switches ask for the request with switches when
    these are put in front. -/
theorem ofArguments_switched {arguments : List String}
    (h : Invocation.ofArguments arguments = .run request) (hforce : request.force = false)
    (hunchecked : request.unchecked = false) (force unchecked : Bool) :
    Invocation.ofArguments (switchArguments force unchecked ++ arguments)
      = .run (request.switched force unchecked) := by
  have hcarries := carries_read hforce hunchecked h
  -- the switches in front have been read before any other argument is looked at
  have hread : Invocation.ofArguments (switchArguments force unchecked ++ arguments)
      = read (Draft.switched {} force unchecked) none arguments := by
    cases force <;> cases unchecked <;> rfl
  rw [hread]
  exact hcarries.switched force unchecked

/-! ## From a request to a script -/

namespace Request

variable {content : Except FileFault (List UInt8)} {diagram : Diagram} {script : Script}

theorem diagramOf_switched {text : String} (hchecked : request.unchecked = false)
    (h : request.diagramOf text = .ok diagram) (force unchecked : Bool) :
    (request.switched force unchecked).diagramOf text = .ok diagram := by
  cases hread : Definition.ofJson text with
  | error error =>
    simp only [diagramOf, hread] at h
    cases h
  | ok definition =>
    simp only [diagramOf, hread, hchecked] at h
    simp only [diagramOf, hread, switched]
    cases unchecked with
    | false => exact h
    | true => exact Definition.buildUnchecked_of_build h

/-- What is loaded under the rules for arrows is loaded in the same way without them. -/
theorem load_switched (hchecked : request.unchecked = false)
    (h : request.load content = .ok diagram) (force unchecked : Bool) :
    (request.switched force unchecked).load content = .ok diagram := by
  cases htext : textOf content with
  | error fault =>
    simp only [load, htext] at h
    cases h
  | ok text =>
    cases hdiagram : request.diagramOf text with
    | error error =>
      simp only [load, htext, hdiagram] at h
      cases h
    | ok loaded =>
      simp only [load, htext, hdiagram] at h
      cases h
      simp only [load, htext, diagramOf_switched hchecked hdiagram]

/-- A file with the text of a definition is loaded as the diagram that the definition makes. -/
theorem load_toJson (request : Request) {d : Definition}
    (h : d.buildWith (!request.unchecked) = .ok diagram) :
    request.load (.ok (Text.utf8Bytes d.toJson)) = .ok diagram := by
  have htext : textOf (.ok (Text.utf8Bytes d.toJson)) = .ok d.toJson := by
    simp only [textOf, Text.ofUtf8_eq_ok.mpr rfl]
  -- the text of a definition is read back as that definition
  have hread : Json.readAll Definition.record.reader d.toJson.toList = .ok d := by
    rw [Definition.toJson, String.toList_ofList]
    exact Json.readAll_of_reads d.reads_write
  simp only [load, htext, diagramOf, Definition.ofJson, hread, h]

/-- There is a script if the compiler makes one, of a diagram that has no defects or is to be
    compiled in spite of them. -/
theorem scriptOf_eq_ok : request.scriptOf diagram = .ok script ↔
    (diagram.graph.report = [] ∨ request.force = true) ∧
      diagram.compile request.options = .ok script := by
  rw [scriptOf]
  by_cases hstopped : diagram.graph.report ≠ [] ∧ (!request.force) = true
  · rw [if_pos hstopped]
    have hforce : request.force = false := by simpa using hstopped.2
    simp [hstopped.1, hforce]
  · rw [if_neg hstopped]
    have hpassed : diagram.graph.report = [] ∨ request.force = true := by
      simpa [or_iff_not_imp_left] using hstopped
    cases hcompiled : diagram.compile request.options with
    | error error => simp
    | ok made => simp [hpassed]

theorem scriptOf_of_clean_report (request : Request) (hclean : diagram.graph.report = []) :
    ∃ script, request.scriptOf diagram = .ok script ∧
      diagram.compile request.options = .ok script := by
  obtain ⟨script, hcompiled⟩ := Diagram.compile_of_clean_report hclean request.options
  exact ⟨script, scriptOf_eq_ok.mpr ⟨Or.inl hclean, hcompiled⟩, hcompiled⟩

/-- Nothing but `--force` leads from a diagram with defects to a script. -/
theorem clean_report_of_scriptOf (hforce : request.force = false)
    (h : request.scriptOf diagram = .ok script) : diagram.graph.report = [] := by
  rcases (scriptOf_eq_ok.mp h).1 with hclean | hinsisted
  · exact hclean
  · rw [hforce] at hinsisted
    cases hinsisted

/-! ## From a request to its outcome -/

variable {files : FileTree}

theorem exists_script_of_exitCode (h : (request.run files).exitCode = 0) :
    ∃ diagram script, request.load (files.read request.path) = .ok diagram ∧
      request.scriptOf diagram = .ok script := by
  cases hload : request.load (files.read request.path) with
  | error message =>
    simp only [run, hload] at h
    cases h
  | ok diagram =>
    cases hscript : request.scriptOf diagram with
    | error message =>
      simp only [run, hload, hscript] at h
      cases h
    | ok script => exact ⟨diagram, script, rfl, hscript⟩

/-- A run that goes well without switches is the same run with any. -/
theorem run_switched (hforce : request.force = false) (hchecked : request.unchecked = false)
    (h : (request.run files).exitCode = 0) (force unchecked : Bool) :
    (request.switched force unchecked).run files = request.run files := by
  obtain ⟨diagram, script, hload, hscript⟩ := exists_script_of_exitCode h
  have hclean := clean_report_of_scriptOf hforce hscript
  have hcompiled := (scriptOf_eq_ok.mp hscript).2
  -- the file is loaded as the same diagram, and a diagram without defects needs no `--force`
  have hload' : (request.switched force unchecked).load
      (files.read (request.switched force unchecked).path) = .ok diagram :=
    load_switched hchecked hload force unchecked
  have hscript' : (request.switched force unchecked).scriptOf diagram = .ok script :=
    scriptOf_eq_ok.mpr ⟨Or.inl hclean, hcompiled⟩
  rw [run, run, hload, hload']
  simp only [hscript, hscript']
  rfl

/-- Without `--force`, nothing is printed and no file is touched unless a diagram without
    defects has been loaded. -/
theorem run_silent (hforce : request.force = false)
    (hdefects : ∀ diagram, request.load (files.read request.path) = .ok diagram →
      diagram.graph.report ≠ []) :
    (request.run files).output = "" ∧ (request.run files).files = files := by
  cases hload : request.load (files.read request.path) with
  | error message => simp [run, hload]
  | ok diagram =>
    cases hscript : request.scriptOf diagram with
    | error message => simp [run, hload, hscript]
    | ok script =>
      have hclean := clean_report_of_scriptOf hforce hscript
      exact absurd hclean (hdefects diagram hload)

end Request

/-! ## The lines beside the output -/

/-- Lines that start with different words are different. -/
theorem append_ne_append {n : Nat} {lead lead' : String} (hn : n ≤ lead.toList.length)
    (hn' : n ≤ lead'.toList.length) (h : lead.toList.take n ≠ lead'.toList.take n)
    (rest rest' : String) : lead ++ rest ≠ lead' ++ rest' := by
  intro heq
  have htake := congrArg (fun line => line.toList.take n) heq
  simp only [String.toList_append, List.take_append_of_le_length hn,
    List.take_append_of_le_length hn'] at htake
  exact h htake

/-- The line that says that a diagram could not be compiled. -/
def failedLine (text : String) : String :=
  "Error: " ++ ("Compilation failed: " ++ text)

theorem failedLine_ne_compiledLine (text name : String) (elements : Nat) :
    failedLine text ≠ compiledLine name elements := by
  have hline : compiledLine name elements
      = "Compiled '" ++ (name ++ ("' (" ++ (Nat.repr elements ++ " elements)"))) := by
    simp only [compiledLine, String.append_assoc]
  rw [failedLine, hline]
  exact append_ne_append (n := 1) (by decide) (by decide) (by decide) _ _

theorem failedLine_ne_savedLine (text path : String) : failedLine text ≠ savedLine path := by
  have hline : savedLine path = "Saved compiled script to '" ++ (path ++ "'") :=
    String.append_assoc
  rw [failedLine, hline]
  exact append_ne_append (n := 1) (by decide) (by decide) (by decide) _ _

theorem failedLine_not_mem_unwritable (text path : String) (fault : FileFault) :
    failedLine text ∉ errorLines (StorageError.unwritable path fault).message := by
  have hmessage : (StorageError.unwritable path fault).message
      = "Could not write '" ++ (path ++ ("': " ++ fault.message)) := by
    show "Could not write '" ++ path ++ "': " ++ fault.message = _
    simp only [String.append_assoc]
  have hother : failedLine text ≠ "Error: " ++ (StorageError.unwritable path fault).message := by
    rw [failedLine, hmessage, Ne, String.append_right_inj]
    exact append_ne_append (n := 3) (by decide) (by decide) (by decide) _ _
  have hempty : failedLine text ≠ "" := by
    intro heq
    have hlength := congrArg String.length heq
    simp [failedLine] at hlength
  rw [errorLines, List.mem_pair, not_or]
  exact ⟨hempty, hother⟩

/-- A run that has come to the script of a diagram without defects does not say that the
    diagram could not be compiled. -/
theorem failedLine_not_mem_notes {files : FileTree} {diagram : Diagram} {script : Script}
    (hload : request.load (files.read request.path) = .ok diagram)
    (hclean : diagram.graph.report = []) (hscript : request.scriptOf diagram = .ok script)
    (text : String) : failedLine text ∉ (request.run files).notes := by
  have hdone := failedLine_ne_compiledLine text script.name diagram.graph.elements.length
  simp only [Request.run, hload, hscript, hclean, reportLines, if_true, List.nil_append]
  -- nothing has been reported, so the lines are about the artifact or say that all is done
  cases request.artifact with
  | none => simpa using hdone
  | some path =>
    cases hwrite : files.write path script.toBytes with
    | error fault =>
      have hstopped := failedLine_not_mem_unwritable text path fault
      simpa [Script.save, hwrite, Except.mapError] using hstopped
    | ok after =>
      have hsaved := failedLine_ne_savedLine text path
      simpa [Script.save, hwrite, Except.mapError] using ⟨hsaved, hdone⟩

/-! ## Whole runs -/

/-- What the switches can and cannot change of a run. -/
structure SwitchesKeep (arguments : List String) (request : Request) (files : FileTree) :
    Prop where
  /-- Switches in front of the arguments are read as what they are. -/
  asked : request.force = false → request.unchecked = false → ∀ force unchecked,
    Invocation.ofArguments (switchArguments force unchecked ++ arguments)
      = .run (request.switched force unchecked)
  /-- Where a run goes well without switches, every run that differs in switches only has the
      same exit code, prints the same and leaves the same files. -/
  same : request.force = false → request.unchecked = false →
    (runOn arguments files).exitCode = 0 → ∀ force unchecked others,
      Invocation.ofArguments others = .run (request.switched force unchecked) →
        runOn others files = runOn arguments files
  /-- Without `--force`, nothing is printed and no file is touched unless a diagram without
      defects has been loaded. -/
  silent : request.force = false →
    (∀ diagram, request.load (files.read request.path) = .ok diagram →
      diagram.graph.report ≠ []) →
    (runOn arguments files).output = "" ∧ (runOn arguments files).files = files
  /-- A diagram without defects is compiled, and the run does not say otherwise. -/
  compiled : ∀ diagram, request.load (files.read request.path) = .ok diagram →
    diagram.graph.report = [] →
      (∃ script, diagram.compile request.options = .ok script) ∧
        ∀ text, failedLine text ∉ (runOn arguments files).notes

/-- Of every run of the command, the switches change nothing that has gone well, and without
    `--force` only diagrams without defects come to be compiled, and all of them do. -/
theorem runOn_switchesKeep {arguments : List String}
    (h : Invocation.ofArguments arguments = .run request) (files : FileTree) :
    SwitchesKeep arguments request files := by
  have hrun : ∀ {others other}, Invocation.ofArguments others = .run other →
      runOn others files = other.run files := by
    intro others other hother
    rw [runOn, hother]
  refine ⟨?_, ?_, ?_, ?_⟩
  · exact fun hforce hunchecked => ofArguments_switched h hforce hunchecked
  · intro hforce hchecked hok force unchecked others hothers
    rw [hrun h] at hok ⊢
    rw [hrun hothers, Request.run_switched hforce hchecked hok]
  · intro hforce hdefects
    rw [hrun h]
    exact Request.run_silent hforce hdefects
  · intro diagram hload hclean
    obtain ⟨script, hscript, hcompiled⟩ := request.scriptOf_of_clean_report hclean
    rw [hrun h]
    exact ⟨⟨script, hcompiled⟩, failedLine_not_mem_notes hload hclean hscript⟩

/-- A single file with these bytes. -/
def flowFiles (bytes : List UInt8) : FileTree :=
  { nodes := [({ names := ["flow.json"] }, .file bytes)] }

/-- The request to compile that file and to keep the script in another. -/
def flowRequest : Request :=
  { path := "flow.json", artifact := some "flow.bin" }

/-- The request is carried out if the file holds a diagram without defects. -/
theorem flowRequest_run_exitCode {bytes : List UInt8} {diagram : Diagram}
    (hload : flowRequest.load (.ok bytes) = .ok diagram) (hclean : diagram.graph.report = []) :
    (flowRequest.run (flowFiles bytes)).exitCode = 0 := by
  have hread : (flowFiles bytes).read flowRequest.path = .ok bytes := rfl
  have hwrite : ∀ kept, (flowFiles bytes).write "flow.bin" kept
      = .ok ((flowFiles bytes).put { names := ["flow.bin"] } (.file kept)) := fun _ => rfl
  obtain ⟨script, hscript, -⟩ := flowRequest.scriptOf_of_clean_report hclean
  simp only [Request.run, hread, hload, hscript]
  simp only [flowRequest, Script.save, hwrite, Except.mapError]

theorem askedAgain_switchesKeep :
    (runOn ["-a", "flow.bin", "flow.json"]
        (flowFiles (Text.utf8Bytes Definition.askedAgain.toJson))).exitCode = 0 ∧
      SwitchesKeep ["-a", "flow.bin", "flow.json"] flowRequest
        (flowFiles (Text.utf8Bytes Definition.askedAgain.toJson)) := by
  have hasked : Invocation.ofArguments ["-a", "flow.bin", "flow.json"] = .run flowRequest := by
    decide +kernel
  obtain ⟨diagram, hbuilt, hreport⟩ : ∃ diagram, Definition.askedAgain.build = .ok diagram ∧
      decide (diagram.graph.report = []) = true := Definition.exists_ok_of_any (by decide +kernel)
  have hload := flowRequest.load_toJson hbuilt
  refine ⟨?_, runOn_switchesKeep hasked _⟩
  rw [runOn, hasked]
  exact flowRequest_run_exitCode hload (of_decide_eq_true hreport)

end Command

end Flowchart
