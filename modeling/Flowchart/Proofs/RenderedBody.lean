/-
  Flowchart.Proofs.RenderedBody

  What is left of a script where it stands in a routine.  Its lines are moved into
  place between two lines of the routine, and those that are blank are emptied.
  Nothing else is lost, and a line of the script is never taken for a line
  around it, whatever it looks like.

  `Text.cut` says what the lines of a text are, over the stretches between its line
  feeds, and `Text.lines_eq_cut` that the loop over the characters finds them.
  None of them holds a line feed, so that a text made of lines can be cut into the
  same lines again (`Text.endedLines_unlines`); what is moved into place can be
  told apart as long as it is not blank (`Routine.bodyLine_inj`).  Which characters
  are blank is said by a list of them (`Text.whiteSpace`).
-/

import Flowchart.Script.Routine

namespace Flowchart

namespace Text

/-! ## The rule for lines -/

/-- The stretches of a text between its line feeds, one more than there are line feeds. -/
def stretches (text : String) : List (List Char) :=
  text.toList.splitOn '\n'

/-- The line without one carriage return at its end. -/
def withoutReturn (line : List Char) : List Char :=
  if line.getLast? = some '\r' then line.dropLast else line

/-- The lines among stretches.  A line feed follows each of them but the last, and a carriage
    return right before it belongs to it; the last is a line only if there is something on it. -/
def linesAmong (pieces : List (List Char)) : List (List Char) :=
  pieces.dropLast.map withoutReturn ++ pieces.getLast?.toList.filter (· ≠ [])

/-- The lines of a text. -/
def cut (text : String) : List String :=
  (linesAmong (stretches text)).map String.ofList

/-- The parts of a text that are ended by a line feed, as they stand. -/
def endedLines (text : String) : List String :=
  (stretches text).dropLast.map String.ofList

theorem linesAmong_cons (piece : List Char) {pieces : List (List Char)} (h : pieces ≠ []) :
    linesAmong (piece :: pieces) = withoutReturn piece :: linesAmong pieces := by
  have hlast : (piece :: pieces).getLast? = pieces.getLast? := by
    rw [List.getLast?_cons, List.getLast?_eq_some_getLast h, Option.getD_some]
  rw [linesAmong, linesAmong, hlast, List.dropLast_cons_of_ne_nil h, List.map_cons,
    List.cons_append]

theorem reverse_dropReturn (line : List Char) :
    (dropReturn line).reverse = withoutReturn line.reverse := by
  rw [withoutReturn, List.getLast?_reverse]
  cases line with
  | nil => rfl
  | cons c line =>
    by_cases hc : c = '\r'
    · subst hc
      show line.reverse = _
      rw [List.head?_cons, if_pos rfl, List.reverse_cons, List.dropLast_concat]
    · have hkeep : dropReturn (c :: line) = c :: line := by
        simp [dropReturn, hc]
      have hhead : (c :: line).head? ≠ some '\r' := by
        simpa using hc
      rw [hkeep, if_neg hhead]

theorem modifyHead_nil_append (pieces : List (List Char)) :
    pieces.modifyHead ([].reverse ++ ·) = pieces := by
  cases pieces <;> rfl

/-- The loop finds the lines, where `line` is put before the first stretch. -/
theorem cutLines_eq (line chars : List Char) :
    cutLines line chars = linesAmong ((chars.splitOn '\n').modifyHead (line.reverse ++ ·)) := by
  induction chars generalizing line with
  | nil =>
    by_cases hline : line = []
    · subst hline
      rfl
    · simp [cutLines, linesAmong, hline]
  | cons c rest ih =>
    rw [List.splitOn_cons_eq_if_modifyHead]
    by_cases hc : c = '\n'
    · -- the first stretch ends here, with all that has been read of it
      subst hc
      rw [if_pos (beq_self_eq_true _), List.modifyHead_cons, List.append_nil,
        linesAmong_cons _ (List.splitOn_ne_nil _ _), cutLines, ih [], modifyHead_nil_append,
        reverse_dropReturn]
    · -- the character goes on the first stretch, whichever side it is counted to
      have hstep : cutLines line (c :: rest) = cutLines (c :: line) rest := by
        simp [cutLines]
      rw [if_neg (by simpa using hc), hstep, ih, List.modifyHead_modifyHead]
      simp [Function.comp_def]

theorem lines_eq_cut (text : String) : lines text = cut text := by
  rw [lines, cut, cutLines_eq, modifyHead_nil_append, stretches]

-- a carriage return counts only right before a line feed, and then once
example : cut "a\r\r\n\r\n\u3000\nb\rc\r" = ["a\r", "", "\u3000", "b\rc\r"] := by decide

/-! ## Texts made of lines -/

theorem mem_dropReturn {c : Char} {line : List Char} (h : c ∈ dropReturn line) : c ∈ line := by
  unfold dropReturn at h
  split at h
  · exact List.mem_cons_of_mem _ h
  · exact h

/-- No line holds a line feed. -/
theorem feed_not_mem_cutLines {line chars : List Char} (hline : '\n' ∉ line) :
    ∀ found ∈ cutLines line chars, '\n' ∉ found := by
  fun_induction cutLines line chars with
  | case1 => simp
  | case2 line hne => simpa using hline
  | case3 line rest ih =>
    have hfirst : '\n' ∉ (dropReturn line).reverse := by
      rw [List.mem_reverse]
      exact fun h => hline (mem_dropReturn h)
    simpa [hfirst] using ih
  | case4 line c rest hc ih =>
    have hne : '\n' ≠ c := fun h => hc h.symm
    exact ih (by simpa [hne] using hline)

theorem feed_not_mem_lines {text line : String} (h : line ∈ lines text) : '\n' ∉ line.toList := by
  obtain ⟨found, hfound, rfl⟩ := List.mem_map.mp h
  rw [String.toList_ofList]
  exact feed_not_mem_cutLines List.not_mem_nil found hfound

theorem stretches_unlines {lines : List String} (h : ∀ line ∈ lines, '\n' ∉ line.toList) :
    stretches (unlines lines) = lines.map String.toList ++ [[]] := by
  induction lines with
  | nil => rfl
  | cons line lines ih =>
    have hfirst : '\n' ∉ line.toList := h line List.mem_cons_self
    have hrest := ih fun l hl => h l (List.mem_cons_of_mem _ hl)
    have htext : (unlines (line :: lines)).toList
        = line.toList ++ '\n' :: (unlines lines).toList := by
      simp [unlines, String.join_cons]
    rw [stretches, htext, List.splitOn_append_cons_self_of_not_mem hfirst, List.map_cons,
      List.cons_append, ← hrest]
    rfl

/-- A text made of lines is cut into these lines. -/
theorem endedLines_unlines {lines : List String} (h : ∀ line ∈ lines, '\n' ∉ line.toList) :
    endedLines (unlines lines) = lines := by
  rw [endedLines, stretches_unlines h, List.dropLast_concat, List.map_map]
  simp [Function.comp_def]

end Text

namespace Text

/-! ## Blank lines -/

/-- The characters with the property White_Space. -/
def whiteSpace : List Char :=
  ['\t', '\n', '\x0b', '\x0c', '\r', ' ', '\u0085', '\u00a0', '\u1680', '\u2000', '\u2001',
   '\u2002', '\u2003', '\u2004', '\u2005', '\u2006', '\u2007', '\u2008', '\u2009', '\u200a',
   '\u2028', '\u2029', '\u202f', '\u205f', '\u3000']

/-- There is nothing on the line that shows. -/
def ShowsNothing (line : String) : Prop :=
  ∀ c ∈ line.toList, c ∈ whiteSpace

instance (line : String) : Decidable (ShowsNothing line) :=
  inferInstanceAs (Decidable (∀ c ∈ line.toList, c ∈ whiteSpace))

theorem isBlank_iff (c : Char) : isBlank c = true ↔ c ∈ whiteSpace := by
  have hcodes : whiteSpace.map Char.toNat
      = [9, 10, 11, 12, 13, 32, 133, 160, 5760, 8192, 8193, 8194, 8195, 8196, 8197, 8198, 8199,
         8200, 8201, 8202, 8232, 8233, 8239, 8287, 12288] := by decide
  have hmem : c ∈ whiteSpace ↔ c.toNat ∈ whiteSpace.map Char.toNat := by
    rw [List.mem_map]
    refine ⟨fun h => ⟨c, h, rfl⟩, ?_⟩
    rintro ⟨d, hd, hcode⟩
    rw [← Char.toNat_inj.mp hcode]
    exact hd
  rw [hmem, hcodes]
  simp only [isBlank, blankRanges, List.any_cons, List.any_nil, Bool.or_false, Bool.or_eq_true,
    decide_eq_true_eq, List.mem_cons, List.not_mem_nil, or_false]
  omega

theorem isBlankLine_iff (line : String) : isBlankLine line = true ↔ ShowsNothing line := by
  rw [isBlankLine, List.all_eq_true, ShowsNothing]
  exact forall_congr' fun c => imp_congr_right fun _ => isBlank_iff c

end Text

namespace Routine

/-! ## Lines in place -/

/-- So many spaces. -/
def spaces (count : Nat) : String :=
  String.ofList (List.replicate count ' ')

theorem bodyLine_eq (line : String) :
    bodyLine line = if Text.ShowsNothing line then "" else spaces 12 ++ line := by
  simp only [bodyLine, Text.isBlankLine_iff]
  rfl

/-- The line, or an empty one if nothing shows on it. -/
def emptied (line : String) : String :=
  if Text.ShowsNothing line then "" else line

/-- Two lines look alike in place if they are alike, or if nothing shows on either. -/
theorem bodyLine_inj {line line' : String} :
    bodyLine line = bodyLine line' ↔ emptied line = emptied line' := by
  -- the spaces before a line that is not blank keep it from looking like an emptied one
  have hplaced : ∀ text, spaces 12 ++ text ≠ "" := by
    intro text h
    have hlength := congrArg (fun s => s.toList.length) h
    simp [spaces] at hlength
  have hblank : ∀ text, ¬ Text.ShowsNothing text → text ≠ "" := by
    rintro text h rfl
    exact h fun c hc => (by cases hc)
  rw [bodyLine_eq, bodyLine_eq, emptied, emptied]
  by_cases h : Text.ShowsNothing line
  · by_cases h' : Text.ShowsNothing line'
    · rw [if_pos h, if_pos h', if_pos h, if_pos h']
    · rw [if_pos h, if_neg h', if_pos h, if_neg h']
      exact ⟨fun heq => absurd heq.symm (hplaced line'),
        fun heq => absurd heq.symm (hblank line' h')⟩
  · by_cases h' : Text.ShowsNothing line'
    · rw [if_neg h, if_pos h', if_neg h, if_pos h']
      exact ⟨fun heq => absurd heq (hplaced line), fun heq => absurd heq (hblank line h)⟩
    · rw [if_neg h, if_neg h', if_neg h, if_neg h']
      exact String.append_right_inj _

theorem map_bodyLine_inj {found found' : List String} :
    found.map bodyLine = found'.map bodyLine ↔ found.map emptied = found'.map emptied := by
  induction found generalizing found' with
  | nil => simp
  | cons line found ih =>
    cases found' with
    | nil => simp
    | cons line' found' => rw [List.map_cons, List.map_cons, List.map_cons, List.map_cons,
        List.cons.injEq, List.cons.injEq, bodyLine_inj, ih]

/-! ## Bodies in place -/

theorem feed_not_mem_bodyLine {line : String} (h : '\n' ∉ line.toList) :
    '\n' ∉ (bodyLine line).toList := by
  rw [bodyLine_eq]
  split
  · simp
  · rw [String.toList_append, List.mem_append]
    simp [spaces, h]

theorem binding_cases (way : Way String) : binding way = "" ∨ binding way = "var outcome = " := by
  cases way with
  | stop => exact .inl rfl
  | next name => exact .inl rfl
  | fork yes no => exact .inr rfl

/-- All lines around a body and in it are single lines. -/
theorem feed_not_mem_bodyLines (way : Way String) (body : String) :
    ∀ line ∈ bodyLines (binding way) body, '\n' ∉ line.toList := by
  have hopening : '\n' ∉ (indent 2 (binding way ++ "(function () \x7b")).toList := by
    rcases binding_cases way with h | h <;> rw [h] <;> decide
  have hclosing : '\n' ∉ (indent 2 "\x7d)();").toList := by decide
  intro line hline
  rw [bodyLines, List.mem_append, List.mem_append, List.mem_singleton, List.mem_singleton] at hline
  obtain (rfl | hline) | rfl := hline
  · exact hopening
  · obtain ⟨found, hfound, rfl⟩ := List.mem_map.mp hline
    exact feed_not_mem_bodyLine (Text.feed_not_mem_lines hfound)
  · exact hclosing

/-- The text of a body in its routine. -/
def bodyText (binding body : String) : String :=
  Text.unlines (bodyLines binding body)

theorem endedLines_bodyText (way : Way String) (body : String) :
    Text.endedLines (bodyText (binding way) body) = bodyLines (binding way) body :=
  Text.endedLines_unlines (feed_not_mem_bodyLines way body)

/-- Texts of bodies are the same if the lines in them are. -/
theorem bodyText_inj {way : Way String} {body body' : String} :
    bodyText (binding way) body' = bodyText (binding way) body ↔
      (Text.lines body').map bodyLine = (Text.lines body).map bodyLine := by
  constructor
  · intro h
    -- cut into its lines again, a text shows the lines of the body between the same two
    have hlines := congrArg Text.endedLines h
    rw [endedLines_bodyText, endedLines_bodyText] at hlines
    exact List.append_cancel_left (List.append_cancel_right hlines)
  · intro h
    rw [bodyText, bodyText, bodyLines, bodyLines, h]

/-- Between the two lines that wrap it, a body stands line by line: a blank line is empty and
    any other is moved to the right by twelve spaces.  So what a routine keeps of a body is
    its lines up to the blanks on blank lines, and no more is lost. -/
theorem bodyText_keeps_lines (way : Way String) (body : String) :
    Text.unlines (Text.endedLines (bodyText (binding way) body)) = bodyText (binding way) body ∧
    Text.endedLines (bodyText (binding way) body)
      = [spaces 8 ++ (binding way ++ "(function () \x7b")]
        ++ (Text.cut body).map (fun line =>
          if Text.ShowsNothing line then "" else spaces 12 ++ line)
        ++ [spaces 8 ++ "\x7d)();"] ∧
    ∀ body', bodyText (binding way) body' = bodyText (binding way) body ↔
      (Text.cut body').map emptied = (Text.cut body).map emptied := by
  refine ⟨?_, ?_, fun body' => ?_⟩
  · rw [endedLines_bodyText, bodyText]
  · have hplace : (fun line => if Text.ShowsNothing line then "" else spaces 12 ++ line)
        = bodyLine := funext fun line => (bodyLine_eq line).symm
    rw [endedLines_bodyText, ← Text.lines_eq_cut, hplace]
    rfl
  · rw [bodyText_inj, map_bodyLine_inj, Text.lines_eq_cut, Text.lines_eq_cut]

end Routine

end Flowchart
