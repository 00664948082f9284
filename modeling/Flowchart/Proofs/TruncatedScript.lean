/-
  Flowchart.Proofs.TruncatedScript

  Bytes of a script whose end is missing.  The cut may fall anywhere: in a
  length, in the bytes of a character, or between two parts.  The parts before it
  are whole and are read as they were written, so no other fault can come up
  first; the part that is cut, or the first one that is gone, asks for bytes that
  are not there (`readText_cut`, `readKind_cut`).  What is told is the number of
  bytes which that part lacks, and so never more than were cut off
  (`Script.ofBytes_cut`).

  A script is therefore never read from the beginning of another one.
-/

import Flowchart.Proofs.ScriptBytes

namespace Flowchart

namespace Artifact

variable {α β : Type} {bytes lost : List UInt8}

/-! ## Running out of bytes -/

/-- Reading ends for want of bytes, and tells how many: one at least, and `count` at most. -/
def RunsOut (count : Nat) (outcome : Except Failure α) : Prop :=
  ∃ missing, 0 < missing ∧ missing ≤ count ∧ outcome = .error (.fault (.endOfBytes missing))

theorem RunsOut.mono {count more : Nat} {outcome : Except Failure α} (h : RunsOut count outcome)
    (hle : count ≤ more) : RunsOut more outcome := by
  obtain ⟨missing, hpos, hmissing, hout⟩ := h
  exact ⟨missing, hpos, Nat.le_trans hmissing hle, hout⟩

/-- A cut falls into the first of two parts, or behind it and before the end of the second. -/
theorem cut_append {first second : List UInt8} (h : first ++ second = bytes ++ lost) :
    (∃ cut, cut ≠ [] ∧ cut.length ≤ lost.length ∧ first = bytes ++ cut) ∨
      ∃ rest, bytes = first ++ rest ∧ second = rest ++ lost := by
  rcases List.append_eq_append_iff.mp h with ⟨rest, hbytes, hsecond⟩ | ⟨cut, hfirst, hlost⟩
  · exact Or.inr ⟨rest, hbytes, hsecond⟩
  · by_cases hcut : cut = []
    · -- nothing of the first part is lost, so the cut falls right behind it
      rw [hcut, List.append_nil] at hfirst
      rw [hcut, List.nil_append] at hlost
      exact Or.inr ⟨[], by rw [hfirst, List.append_nil], hlost.symm⟩
    · have hlength : cut.length ≤ lost.length := by
        rw [hlost, List.length_append]
        omega
      exact Or.inl ⟨cut, hcut, hlength, hfirst⟩

/-- Of two parts that are read one after the other, one runs out: the first if it is cut, and
    else the second behind it. -/
theorem RunsOut.bind {step : List UInt8 → Except Failure (α × List UInt8)}
    {next : α × List UInt8 → Except Failure β} {first second : List UInt8} {value : α}
    (hbytes : first ++ second = bytes ++ lost)
    (hread : ∀ rest, step (first ++ rest) = .ok (value, rest))
    (hcut : ∀ front cut, cut ≠ [] → first = front ++ cut → RunsOut cut.length (step front))
    (hnext : ∀ rest, second = rest ++ lost → RunsOut lost.length (next (value, rest))) :
    RunsOut lost.length (step bytes >>= next) := by
  rcases cut_append hbytes with ⟨cut, hne, hle, hfirst⟩ | ⟨rest, hfront, hsecond⟩
  · obtain ⟨missing, hpos, hmissing, hstep⟩ := (hcut bytes cut hne hfirst).mono hle
    exact ⟨missing, hpos, hmissing, bind_eq_error.mpr (Or.inl hstep)⟩
  · rw [hfront, hread]
    exact hnext rest hsecond

/-! ## Parts that are cut -/

theorem readBytes_cut {count : Nat} (hlost : lost ≠ []) (hcount : (bytes ++ lost).length = count) :
    readBytes count bytes = .error (.endOfBytes lost.length) := by
  have hpos : 0 < lost.length := List.length_pos_iff.mpr hlost
  rw [List.length_append] at hcount
  have hmissing : count - bytes.length = lost.length := by omega
  rw [readBytes, if_pos (by omega), hmissing]

theorem readFixed_cut {count : Nat} (hlost : lost ≠ []) (hcount : (bytes ++ lost).length = count) :
    readFixed count bytes = .error (.endOfBytes lost.length) := by
  rw [readFixed, readBytes_cut hlost hcount]

/-- A spelling of a number that has kept its tag lacks bytes behind it. -/
theorem readTagged_cut {widest expected : NumberForm} {tag : UInt8} {n : Nat} (hlost : lost ≠ [])
    (hspells : Spells (tag :: (bytes ++ lost)) n) (hwide : tag.toNat = 253 → widest = .bits64) :
    readTagged widest expected tag bytes = .error (.endOfBytes lost.length) := by
  generalize hdigits : bytes ++ lost = digits at hspells
  cases hspells with
  | short _ =>
    -- a number in one byte is whole if its tag is there
    exact absurd (List.append_eq_nil_iff.mp hdigits).2 hlost
  | tagged hform =>
    have hcut : ∀ count, digits.length = count →
        readFixed count bytes = .error (.endOfBytes lost.length) := by
      intro count hlength
      rw [← hdigits] at hlength
      exact readFixed_cut hlost hlength
    rw [readTagged]
    rcases hform with ⟨htag, hlength⟩ | ⟨htag, hlength⟩ | ⟨htag, hlength⟩
    · rw [if_neg (by omega), if_pos htag, hcut 2 hlength]
    · rw [if_neg (by omega), if_neg (by omega), if_pos htag, hcut 4 hlength]
    · rw [if_neg (by omega), if_neg (by omega), if_neg (by omega), if_pos htag,
        if_pos (hwide htag), hcut 8 hlength]

/-- Of a number one byte is asked for at first, and then those that its tag announces. -/
theorem readLength_cut {n : Nat} (hlost : lost ≠ []) (hspells : Spells (bytes ++ lost) n) :
    ∃ missing, 0 < missing ∧ missing ≤ lost.length ∧
      readLength bytes = .error (.endOfBytes missing) := by
  have hpos : 0 < lost.length := List.length_pos_iff.mpr hlost
  cases bytes with
  | nil => exact ⟨1, Nat.one_pos, hpos, rfl⟩
  | cons tag bytes =>
    refine ⟨lost.length, hpos, Nat.le_refl _, ?_⟩
    rw [readLength, readTagged_cut hlost hspells fun _ => rfl]

theorem readKind_cut {kind : ScriptKind} (hlost : lost ≠ [])
    (hspells : SpellsKind (bytes ++ lost) kind) :
    RunsOut lost.length ((readKind bytes).mapError .fault) := by
  have hpos : 0 < lost.length := List.length_pos_iff.mpr hlost
  cases bytes with
  | nil => exact ⟨1, Nat.one_pos, hpos, rfl⟩
  | cons tag bytes =>
    have hnarrow : tag.toNat ≠ 253 := by
      intro htag
      have hwide : tag = 253 := UInt8.toNat_inj.mp htag
      exact hspells.2 (congrArg some hwide)
    refine ⟨lost.length, hpos, Nat.le_refl _, ?_⟩
    rw [readKind, readKindNumber, readTagged_cut hlost hspells.1 fun htag => absurd htag hnarrow]
    rfl

/-- A text that is cut lacks bytes of its length, or of its characters.  The bytes are counted
    before characters are made of them, so one that is cut in two does no harm. -/
theorem readText_cut {text : String} (hlost : lost ≠ [])
    (hspells : SpellsText (bytes ++ lost) text) : RunsOut lost.length (readText bytes) := by
  have hlimit : UInt64.size / 2 = 2 ^ 63 := by decide
  have hpos : 0 < lost.length := List.length_pos_iff.mpr hlost
  obtain ⟨number, hnumber, hpossible, hbytes⟩ := hspells
  rcases cut_append hbytes.symm with ⟨cut, hcut, hle, hfront⟩ | ⟨rest, hfront, hrest⟩
  · rw [hfront] at hnumber
    obtain ⟨missing, hone, hmissing, hread⟩ := readLength_cut hcut hnumber
    refine ⟨missing, hone, Nat.le_trans hmissing hle, ?_⟩
    rw [readText, hread]
  · have hlength : (rest ++ lost).length = text.utf8ByteSize := by
      rw [← hrest, Text.length_utf8Bytes]
    refine ⟨lost.length, hpos, Nat.le_refl _, ?_⟩
    rw [hfront, readText, readLength_eq_ok.mpr ⟨number, hnumber, rfl⟩, hlimit]
    dsimp only
    rw [if_neg (by omega), readContent, readBytes_cut hlost hlength]
    rfl

end Artifact

/-! ## Whole scripts -/

namespace Script

open Artifact

/-- No text of the script is longer than any memory. -/
structure Storable (s : Script) : Prop where
  source : s.source.utf8ByteSize < 2 ^ 63
  name : s.name.utf8ByteSize < 2 ^ 63
  description : s.description.utf8ByteSize < 2 ^ 63

/-- Bytes that spell a script but for their end are refused for want of bytes. -/
theorem ofBytes_cut {s : Script} {bytes lost : List UInt8} (hlost : lost ≠ [])
    (hspelled : s.Spelled (bytes ++ lost)) : RunsOut lost.length (ofBytes bytes) := by
  obtain ⟨source, name, kind, description, hsource, hname, hkind, hdescription, hbytes⟩ := hspelled
  have hparts : source ++ (name ++ (kind ++ (description ++ []))) = bytes ++ lost := by
    rw [hbytes, List.append_nil, List.append_assoc, List.append_assoc]
  -- a text, or the kind, is read where it is whole and runs out where it is cut
  have htext : ∀ {part : List UInt8} {text : String}, SpellsText part text →
      (∀ rest, readText (part ++ rest) = .ok (text, rest)) ∧
        ∀ front cut, cut ≠ [] → part = front ++ cut → RunsOut cut.length (readText front) := by
    intro part text hpart
    refine ⟨fun rest => readText_eq_ok.mpr ⟨part, hpart, rfl⟩, fun front cut hcut hfront => ?_⟩
    rw [hfront] at hpart
    exact readText_cut hcut hpart
  have hkindRead : ∀ rest, (readKind (kind ++ rest)).mapError Failure.fault
      = .ok (s.kind, rest) := by
    intro rest
    exact mapError_eq_ok.mpr (readKind_eq_ok.mpr ⟨kind, hkind, rfl⟩)
  have hkindCut : ∀ front cut, cut ≠ [] → kind = front ++ cut →
      RunsOut cut.length ((readKind front).mapError .fault) := by
    intro front cut hcut hfront
    rw [hfront] at hkind
    exact readKind_cut hcut hkind
  refine RunsOut.bind hparts (htext hsource).1 (htext hsource).2 fun rest hrest => ?_
  refine RunsOut.bind hrest (htext hname).1 (htext hname).2 fun rest hrest => ?_
  refine RunsOut.bind hrest hkindRead hkindCut fun rest hrest => ?_
  refine RunsOut.bind hrest (htext hdescription).1 (htext hdescription).2 fun rest hrest => ?_
  -- nothing comes behind the description, so the cut cannot be there
  exact absurd (List.append_eq_nil_iff.mp hrest.symm).2 hlost

theorem decode_cut {s : Script} (hs : s.Storable) {bytes : List UInt8}
    (hpre : bytes <+: s.toBytes) (hproper : bytes ≠ s.toBytes) :
    ∃ missing, 0 < missing ∧ bytes.length + missing ≤ s.toBytes.length ∧
      decode bytes = .refused (.undecodable (.endOfBytes missing)) := by
  obtain ⟨lost, hlost⟩ := hpre
  have hne : lost ≠ [] := by
    intro hnil
    rw [hnil, List.append_nil] at hlost
    exact hproper hlost
  have hspelled := spelled_toBytes hs.source hs.name hs.description
  rw [← hlost] at hspelled
  obtain ⟨missing, hpos, hmissing, hread⟩ := ofBytes_cut hne hspelled
  refine ⟨missing, hpos, ?_, ?_⟩
  · rw [← hlost, List.length_append]
    omega
  · rw [decode, hread]

/-- What is left of the bytes of a script when their end is missing, be it nothing at all, is
    refused, and no more bytes are missed than there were.  So the bytes of one script are never
    the beginning of those of another. -/
theorem decode_truncated (s : Script) (hs : s.Storable) :
    (∀ bytes, bytes <+: s.toBytes → bytes ≠ s.toBytes →
      ∃ missing, 0 < missing ∧ bytes.length + missing ≤ s.toBytes.length ∧
        decode bytes = .refused (.undecodable (.endOfBytes missing))) ∧
    ∀ other : Script, other.Storable → other.toBytes <+: s.toBytes → other = s := by
  refine ⟨fun bytes hpre hproper => decode_cut hs hpre hproper, ?_⟩
  intro other hother hpre
  have hread : ∀ t : Script, t.Storable → ofBytes t.toBytes = .ok t := by
    intro t ht
    exact ofBytes_eq_ok.mpr
      ⟨t.toBytes, [], spelled_toBytes ht.source ht.name ht.description, by rw [List.append_nil]⟩
  by_cases hsame : other.toBytes = s.toBytes
  · have hboth := hread other hother
    rw [hsame, hread s hs] at hboth
    exact (Except.ok.inj hboth).symm
  · -- the shorter bytes would be refused, and yet they are read as the script they spell
    obtain ⟨missing, -, -, hrefused⟩ := decode_cut hs hpre hsame
    rw [decode_eq_script.mpr (hread other hother)] at hrefused
    cases hrefused

/-- Cut between the two bytes of a character of the source. -/
theorem accented_truncated :
    accented.Storable ∧ accented.toBytes.take 7 <+: accented.toBytes ∧
      accented.toBytes.take 7 ≠ accented.toBytes ∧
      ∃ missing, 0 < missing ∧ 7 + missing ≤ accented.toBytes.length ∧
        decode (accented.toBytes.take 7) = .refused (.undecodable (.endOfBytes missing)) := by
  have hs : accented.Storable := ⟨by decide, by decide, by decide⟩
  have hpre : accented.toBytes.take 7 <+: accented.toBytes := List.take_prefix 7 _
  have hproper : accented.toBytes.take 7 ≠ accented.toBytes := by decide
  exact ⟨hs, hpre, hproper, (decode_truncated accented hs).1 _ hpre hproper⟩

end Script

end Flowchart
