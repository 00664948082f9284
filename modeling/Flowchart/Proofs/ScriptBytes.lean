/-
  Flowchart.Proofs.ScriptBytes

  Scripts as bytes, written and read.  A number may be spelled in more ways
  than the one it is written in: the reader takes longer forms as well.  So the
  form of the bytes is said apart from writer and reader (`Spells`,
  `SpellsText`, `Script.Spelled`): what is written has it, and a script is read
  from just the bytes that start with it (`Script.ofBytes_eq_ok`).  What follows
  a script is never looked at.

  Bytes that do not start with a script are refused with a fault, but for one
  sort: where a text should stand and its length is `2 ^ 63` or more, room for
  the text is asked for before its bytes are counted, and the program breaks
  down (`Script.ofBytes_eq_breakdown`).
-/

import Mathlib.Tactic.Ring
import Flowchart.Proofs.Change
import Flowchart.Proofs.Utf8
import Flowchart.Script.Storage

namespace Flowchart

namespace Artifact

variable {bytes rest : List UInt8}

/-! ## The form of numbers and texts -/

/-- The bytes spell the number: by itself below 251, else in two, four or eight bytes behind a
    tag, the lowest first. -/
inductive Spells : List UInt8 → Nat → Prop
  | short {b : UInt8} (h : b.toNat < 251) : Spells [b] b.toNat
  | tagged {tag : UInt8} {digits : List UInt8}
      (h : tag.toNat = 251 ∧ digits.length = 2 ∨ tag.toNat = 252 ∧ digits.length = 4 ∨
        tag.toNat = 253 ∧ digits.length = 8) :
      Spells (tag :: digits) (ofLittleEndian digits)

/-- The bytes spell the text: its length, which some memory can hold, and its bytes. -/
def SpellsText (bytes : List UInt8) (text : String) : Prop :=
  ∃ number, Spells number text.utf8ByteSize ∧ text.utf8ByteSize < 2 ^ 63 ∧
    bytes = number ++ Text.utf8Bytes text

/-- The bytes spell the number of the kind, which takes no eight bytes. -/
def SpellsKind (bytes : List UInt8) (kind : ScriptKind) : Prop :=
  Spells bytes (kindNumber kind) ∧ bytes.head? ≠ some 253

/-! ## What is written has the form -/

theorem length_littleEndian (count n : Nat) : (littleEndian count n).length = count := by
  induction count generalizing n with
  | zero => rfl
  | succ count ih => rw [littleEndian, List.length_cons, ih]

theorem ofLittleEndian_littleEndian (count n : Nat) :
    ofLittleEndian (littleEndian count n) = n % 256 ^ count := by
  induction count generalizing n with
  | zero => rw [littleEndian, ofLittleEndian, pow_zero, Nat.mod_one]
  | succ count ih =>
    have hlow : (UInt8.ofNat (n % 256)).toNat = n % 256 := Text.toNat_byte (by omega)
    rw [littleEndian, ofLittleEndian, ih, hlow, pow_succ, Nat.mul_comm (256 ^ count),
      Nat.mod_mul]

theorem spells_littleEndian {tag : UInt8} {count n : Nat} (hn : n < 256 ^ count)
    (htag : tag.toNat = 251 ∧ count = 2 ∨ tag.toNat = 252 ∧ count = 4 ∨
      tag.toNat = 253 ∧ count = 8) : Spells (tag :: littleEndian count n) n := by
  have hvalue : ofLittleEndian (littleEndian count n) = n := by
    rw [ofLittleEndian_littleEndian, Nat.mod_eq_of_lt hn]
  have hspells : Spells (tag :: littleEndian count n) (ofLittleEndian (littleEndian count n)) := by
    apply Spells.tagged
    rw [length_littleEndian]
    exact htag
  rw [hvalue] at hspells
  exact hspells

theorem spells_writeNumber {n : Nat} (hn : n < 2 ^ 64) : Spells (writeNumber n) n := by
  rw [writeNumber]
  split
  · next hshort =>
    have hvalue : (UInt8.ofNat n).toNat = n := Text.toNat_byte (by omega)
    have hspells : Spells [UInt8.ofNat n] (UInt8.ofNat n).toNat := by
      apply Spells.short
      rw [hvalue]
      exact hshort
    rw [hvalue] at hspells
    exact hspells
  split
  · next h16 => exact spells_littleEndian h16 (by decide)
  split
  · next h32 => exact spells_littleEndian h32 (by decide)
  · exact spells_littleEndian hn (by decide)

theorem spellsText_writeText {text : String} (h : text.utf8ByteSize < 2 ^ 63) :
    SpellsText (writeText text) text := by
  refine ⟨writeNumber text.utf8ByteSize, spells_writeNumber (by omega), h, ?_⟩
  rw [writeText, Text.length_utf8Bytes]

theorem spellsKind_writeNumber (kind : ScriptKind) :
    SpellsKind (writeNumber (kindNumber kind)) kind := by
  cases kind with
  | function => exact ⟨spells_writeNumber (by decide), by decide⟩

/-! ## What is read has the form -/

theorem readBytes_eq_ok {count : Nat} {front : List UInt8} :
    readBytes count bytes = .ok (front, rest) ↔ front.length = count ∧ bytes = front ++ rest := by
  rw [readBytes]
  constructor
  · intro h
    split at h
    · cases h
    · next hlength =>
      cases h
      refine ⟨?_, (List.take_append_drop count bytes).symm⟩
      rw [List.length_take]
      omega
  · rintro ⟨rfl, rfl⟩
    rw [if_neg (by rw [List.length_append]; omega), List.take_left, List.drop_left]

theorem readFixed_eq_ok {count n : Nat} :
    readFixed count bytes = .ok (n, rest) ↔
      ∃ digits, digits.length = count ∧ n = ofLittleEndian digits ∧ bytes = digits ++ rest := by
  rw [readFixed]
  constructor
  · intro h
    split at h
    · cases h
    · next digits rest' hread =>
      cases h
      obtain ⟨hlength, hbytes⟩ := readBytes_eq_ok.mp hread
      exact ⟨digits, hlength, rfl, hbytes⟩
  · rintro ⟨digits, hlength, rfl, hbytes⟩
    rw [readBytes_eq_ok.mpr ⟨hlength, hbytes⟩]

/-- A number is read from just the bytes that start with a spelling of it.  Eight bytes are
    taken only where so wide a number may stand. -/
theorem readTagged_eq_ok {widest expected : NumberForm} {tag : UInt8} {n : Nat} :
    readTagged widest expected tag bytes = .ok (n, rest) ↔
      ∃ digits, Spells (tag :: digits) n ∧ (tag.toNat = 253 → widest = .bits64) ∧
        bytes = digits ++ rest := by
  rw [readTagged]
  constructor
  · intro h
    split at h
    · next hshort =>
      cases h
      exact ⟨[], .short hshort, fun hwide => by omega, rfl⟩
    split at h
    · next htag =>
      obtain ⟨digits, hlength, rfl, hbytes⟩ := readFixed_eq_ok.mp h
      exact ⟨digits, .tagged (by omega), fun hwide => by omega, hbytes⟩
    split at h
    · next htag =>
      obtain ⟨digits, hlength, rfl, hbytes⟩ := readFixed_eq_ok.mp h
      exact ⟨digits, .tagged (by omega), fun hwide => by omega, hbytes⟩
    split at h
    · next htag =>
      split at h
      · next hwidest =>
        obtain ⟨digits, hlength, rfl, hbytes⟩ := readFixed_eq_ok.mp h
        exact ⟨digits, .tagged (by omega), fun _ => hwidest, hbytes⟩
      · cases h
    split at h
    · cases h
    · cases h
  · rintro ⟨digits, hspells, hwide, rfl⟩
    cases hspells with
    | short hshort => rw [if_pos hshort, List.nil_append]
    | tagged hform =>
      have hread : ∀ count, digits.length = count →
          readFixed count (digits ++ rest) = .ok (ofLittleEndian digits, rest) :=
        fun count hlength => readFixed_eq_ok.mpr ⟨digits, hlength, rfl, rfl⟩
      rcases hform with ⟨htag, hlength⟩ | ⟨htag, hlength⟩ | ⟨htag, hlength⟩
      · rw [if_neg (by omega), if_pos htag, hread 2 hlength]
      · rw [if_neg (by omega), if_neg (by omega), if_pos htag, hread 4 hlength]
      · rw [if_neg (by omega), if_neg (by omega), if_neg (by omega), if_pos htag,
          if_pos (hwide htag), hread 8 hlength]

/-- Every spelling of a number has a first byte. -/
theorem exists_cons_of_spells {number : List UInt8} {n : Nat} (h : Spells number n) :
    ∃ tag digits, number = tag :: digits := by
  cases h with
  | short _ => exact ⟨_, [], rfl⟩
  | tagged _ => exact ⟨_, _, rfl⟩

theorem readLength_eq_ok {n : Nat} :
    readLength bytes = .ok (n, rest) ↔ ∃ number, Spells number n ∧ bytes = number ++ rest := by
  cases bytes with
  | nil =>
    constructor
    · intro h
      cases h
    · rintro ⟨number, hspells, hbytes⟩
      obtain ⟨tag, digits, rfl⟩ := exists_cons_of_spells hspells
      cases hbytes
  | cons tag bytes =>
    rw [readLength, readTagged_eq_ok]
    constructor
    · rintro ⟨digits, hspells, -, rfl⟩
      exact ⟨tag :: digits, hspells, rfl⟩
    · rintro ⟨number, hspells, hbytes⟩
      obtain ⟨tag', digits, rfl⟩ := exists_cons_of_spells hspells
      obtain ⟨rfl, rfl⟩ := List.cons.inj hbytes
      exact ⟨digits, hspells, fun _ => rfl, rfl⟩

theorem readKindNumber_eq_ok {n : Nat} :
    readKindNumber bytes = .ok (n, rest) ↔
      ∃ number, (Spells number n ∧ number.head? ≠ some 253) ∧ bytes = number ++ rest := by
  cases bytes with
  | nil =>
    constructor
    · intro h
      cases h
    · rintro ⟨number, ⟨hspells, -⟩, hbytes⟩
      obtain ⟨tag, digits, rfl⟩ := exists_cons_of_spells hspells
      cases hbytes
  | cons tag bytes =>
    have hnarrow : (tag.toNat = 253 → NumberForm.bits32 = NumberForm.bits64) ↔
        some tag ≠ some 253 := by
      have htag : tag = 253 ↔ tag.toNat = 253 := UInt8.toNat_inj.symm
      rw [Ne, Option.some.injEq, htag]
      constructor
      · intro h hwide
        cases h hwide
      · intro h hwide
        exact absurd hwide h
    rw [readKindNumber, readTagged_eq_ok, hnarrow]
    constructor
    · rintro ⟨digits, hspells, hshort, rfl⟩
      exact ⟨tag :: digits, ⟨hspells, hshort⟩, rfl⟩
    · rintro ⟨number, ⟨hspells, hshort⟩, hbytes⟩
      obtain ⟨tag', digits, rfl⟩ := exists_cons_of_spells hspells
      obtain ⟨rfl, rfl⟩ := List.cons.inj hbytes
      exact ⟨digits, hspells, hshort, rfl⟩

theorem readContent_eq_ok {length : Nat} {text : String} :
    readContent length bytes = .ok (text, rest) ↔
      text.utf8ByteSize = length ∧ bytes = Text.utf8Bytes text ++ rest := by
  rw [readContent, ← Text.length_utf8Bytes]
  constructor
  · intro h
    split at h
    · cases h
    · next content rest' hread =>
      obtain ⟨hlength, rfl⟩ := readBytes_eq_ok.mp hread
      split at h
      · cases h
      · next text' htext =>
        cases h
        rw [← Text.ofUtf8_eq_ok.mp htext]
        exact ⟨hlength, rfl⟩
  · rintro ⟨hlength, hbytes⟩
    rw [readBytes_eq_ok.mpr ⟨hlength, hbytes⟩]
    simp only [Text.ofUtf8_eq_ok.mpr rfl]

theorem mapError_eq_ok {ε δ α : Type} {f : ε → δ} {check : Except ε α} {a : α} :
    check.mapError f = .ok a ↔ check = .ok a := by
  cases check with
  | error e => simp [Except.mapError]
  | ok b => simp [Except.mapError]

theorem mapError_fault_ne_breakdown {α : Type} {check : Except Fault α} :
    check.mapError Failure.fault ≠ .error .breakdown := by
  cases check with
  | error fault => simp [Except.mapError]
  | ok a => simp [Except.mapError]

/-- A text is read from just the bytes that start with a spelling of it. -/
theorem readText_eq_ok {text : String} :
    readText bytes = .ok (text, rest) ↔
      ∃ front, SpellsText front text ∧ bytes = front ++ rest := by
  have hlimit : UInt64.size / 2 = 2 ^ 63 := by decide
  rw [readText, hlimit]
  constructor
  · intro h
    split at h
    · cases h
    · next length tail hread =>
      split at h
      · cases h
      · next hpossible =>
        obtain ⟨number, hspells, rfl⟩ := readLength_eq_ok.mp hread
        obtain ⟨rfl, rfl⟩ := readContent_eq_ok.mp (mapError_eq_ok.mp h)
        refine ⟨number ++ Text.utf8Bytes text, ⟨number, hspells, by omega, rfl⟩, ?_⟩
        rw [List.append_assoc]
  · rintro ⟨front, ⟨number, hspells, hpossible, rfl⟩, hbytes⟩
    rw [List.append_assoc] at hbytes
    rw [readLength_eq_ok.mpr ⟨number, hspells, hbytes⟩]
    dsimp only
    rw [if_neg (by omega)]
    exact mapError_eq_ok.mpr (readContent_eq_ok.mpr ⟨rfl, rfl⟩)

theorem readKind_eq_ok {kind : ScriptKind} :
    readKind bytes = .ok (kind, rest) ↔
      ∃ front, SpellsKind front kind ∧ bytes = front ++ rest := by
  cases kind with
  | function =>
    rw [readKind]
    constructor
    · intro h
      split at h
      · cases h
      · next number tail hread =>
        split at h
        · next hzero =>
          cases h
          rw [hzero] at hread
          exact readKindNumber_eq_ok.mp hread
        · cases h
    · intro h
      rw [readKindNumber_eq_ok.mpr h]
      rfl

/-! ## Breaking down -/

/-- The bytes start with a length that no memory can hold. -/
def StartsTooLong (bytes : List UInt8) : Prop :=
  ∃ number length rest, Spells number length ∧ 2 ^ 63 ≤ length ∧ bytes = number ++ rest

/-- Reading a text breaks down just where its length cannot be. -/
theorem readText_eq_breakdown :
    readText bytes = .error .breakdown ↔ StartsTooLong bytes := by
  have hlimit : UInt64.size / 2 = 2 ^ 63 := by decide
  rw [readText, hlimit]
  constructor
  · intro h
    split at h
    · cases h
    · next length tail hread =>
      split at h
      · next himpossible =>
        obtain ⟨number, hspells, hbytes⟩ := readLength_eq_ok.mp hread
        exact ⟨number, length, tail, hspells, himpossible, hbytes⟩
      · exact absurd h mapError_fault_ne_breakdown
  · rintro ⟨number, length, tail, hspells, himpossible, hbytes⟩
    rw [readLength_eq_ok.mpr ⟨number, hspells, hbytes⟩]
    dsimp only
    rw [if_pos himpossible]

end Artifact

/-! ## Whole scripts -/

namespace Script

open Artifact

/-- The bytes spell the script: its source, its name, the number of its kind and its
    description. -/
def Spelled (s : Script) (bytes : List UInt8) : Prop :=
  ∃ source name kind description, SpellsText source s.source ∧ SpellsText name s.name ∧
    SpellsKind kind s.kind ∧ SpellsText description s.description ∧
      bytes = source ++ name ++ kind ++ description

/-- The bytes are what a script has before one of its texts. -/
inductive Opening : List UInt8 → Prop
  | empty : Opening []
  | source {source : List UInt8} {text : String} (h : SpellsText source text) : Opening source
  | kind {source name kind : List UInt8} {text title : String} {k : ScriptKind}
      (hsource : SpellsText source text) (hname : SpellsText name title)
      (hkind : SpellsKind kind k) : Opening (source ++ name ++ kind)

/-- Where a text of a script should stand, the bytes announce one that no memory can hold. -/
def Overreaches (bytes : List UInt8) : Prop :=
  ∃ front rest, Opening front ∧ StartsTooLong rest ∧ bytes = front ++ rest

theorem spelled_toBytes {s : Script} (hsource : s.source.utf8ByteSize < 2 ^ 63)
    (hname : s.name.utf8ByteSize < 2 ^ 63) (hdescription : s.description.utf8ByteSize < 2 ^ 63) :
    s.Spelled s.toBytes :=
  ⟨_, _, _, _, spellsText_writeText hsource, spellsText_writeText hname,
    spellsKind_writeNumber s.kind, spellsText_writeText hdescription, rfl⟩

/-- A script is read from just the bytes that start with a spelling of it. -/
theorem ofBytes_eq_ok {bytes : List UInt8} {s : Script} :
    ofBytes bytes = .ok s ↔ ∃ front rest, s.Spelled front ∧ bytes = front ++ rest := by
  rw [ofBytes]
  constructor
  · intro h
    obtain ⟨⟨source, rest⟩, hsource, h⟩ := bind_eq_ok.mp h
    obtain ⟨⟨name, rest⟩, hname, h⟩ := bind_eq_ok.mp h
    obtain ⟨⟨kind, rest⟩, hkind, h⟩ := bind_eq_ok.mp h
    obtain ⟨⟨description, rest⟩, hdescription, h⟩ := bind_eq_ok.mp h
    cases h
    -- each part is read from what the part before it has left
    obtain ⟨first, hfirst, rfl⟩ := readText_eq_ok.mp hsource
    obtain ⟨second, hsecond, rfl⟩ := readText_eq_ok.mp hname
    obtain ⟨third, hthird, rfl⟩ := readKind_eq_ok.mp (mapError_eq_ok.mp hkind)
    obtain ⟨fourth, hfourth, rfl⟩ := readText_eq_ok.mp hdescription
    refine ⟨first ++ second ++ third ++ fourth, rest,
      ⟨first, second, third, fourth, hfirst, hsecond, hthird, hfourth, rfl⟩, ?_⟩
    simp only [List.append_assoc]
  · rintro ⟨front, rest, ⟨first, second, third, fourth, hsource, hname, hkind, hdescription,
      rfl⟩, rfl⟩
    simp only [List.append_assoc]
    rw [readText_eq_ok.mpr ⟨first, hsource, rfl⟩]
    refine bind_eq_ok.mpr ⟨_, rfl, ?_⟩
    rw [readText_eq_ok.mpr ⟨second, hname, rfl⟩]
    refine bind_eq_ok.mpr ⟨_, rfl, ?_⟩
    rw [readKind_eq_ok.mpr ⟨third, hkind, rfl⟩]
    refine bind_eq_ok.mpr ⟨_, rfl, ?_⟩
    rw [readText_eq_ok.mpr ⟨fourth, hdescription, rfl⟩]
    rfl

/-- Reading breaks down just where a text is announced that no memory can hold. -/
theorem ofBytes_eq_breakdown {bytes : List UInt8} :
    ofBytes bytes = .error .breakdown ↔ Overreaches bytes := by
  rw [ofBytes]
  constructor
  · intro h
    -- the first part that is not read breaks down, and those before it are well spelled
    rcases bind_eq_error.mp h with hbreak | ⟨⟨source, rest⟩, hsource, hname⟩
    · exact ⟨[], bytes, .empty, readText_eq_breakdown.mp hbreak, rfl⟩
    obtain ⟨first, hfirst, rfl⟩ := readText_eq_ok.mp hsource
    rcases bind_eq_error.mp hname with hbreak | ⟨⟨name, rest⟩, hname, hkind⟩
    · exact ⟨first, rest, .source hfirst, readText_eq_breakdown.mp hbreak, rfl⟩
    obtain ⟨second, hsecond, rfl⟩ := readText_eq_ok.mp hname
    rcases bind_eq_error.mp hkind with hbreak | ⟨⟨kind, rest⟩, hkind, hdescription⟩
    · exact absurd hbreak mapError_fault_ne_breakdown
    obtain ⟨third, hthird, rfl⟩ := readKind_eq_ok.mp (mapError_eq_ok.mp hkind)
    rcases bind_eq_error.mp hdescription with hbreak | ⟨⟨description, rest⟩, -, hdone⟩
    · refine ⟨first ++ second ++ third, rest, .kind hfirst hsecond hthird,
        readText_eq_breakdown.mp hbreak, ?_⟩
      simp only [List.append_assoc]
    · cases hdone
  · rintro ⟨front, rest, hopening, hlong, rfl⟩
    have hbreak := readText_eq_breakdown.mpr hlong
    cases hopening with
    | empty =>
      exact bind_eq_error.mpr (Or.inl hbreak)
    | source hfirst =>
      rw [readText_eq_ok.mpr ⟨_, hfirst, rfl⟩]
      refine bind_eq_error.mpr (Or.inr ⟨_, rfl, ?_⟩)
      exact bind_eq_error.mpr (Or.inl hbreak)
    | kind hfirst hsecond hthird =>
      simp only [List.append_assoc]
      rw [readText_eq_ok.mpr ⟨_, hfirst, rfl⟩]
      refine bind_eq_error.mpr (Or.inr ⟨_, rfl, ?_⟩)
      rw [readText_eq_ok.mpr ⟨_, hsecond, rfl⟩]
      refine bind_eq_error.mpr (Or.inr ⟨_, rfl, ?_⟩)
      rw [readKind_eq_ok.mpr ⟨_, hthird, rfl⟩]
      refine bind_eq_error.mpr (Or.inr ⟨_, rfl, ?_⟩)
      exact bind_eq_error.mpr (Or.inl hbreak)

/-! ## Fetching what was kept -/

theorem decode_eq_script {bytes : List UInt8} {s : Script} :
    decode bytes = .script s ↔ ofBytes bytes = .ok s := by
  rw [decode]
  constructor
  · intro h
    split at h
    · next hread =>
      cases h
      exact hread
    · cases h
    · cases h
  · intro h
    rw [h]

/-- A script that is written as bytes is read back from them, whatever follows, as long as no
    text of it is longer than any memory. -/
theorem decode_toBytes (s : Script) (rest : List UInt8)
    (hsource : s.source.utf8ByteSize < 2 ^ 63) (hname : s.name.utf8ByteSize < 2 ^ 63)
    (hdescription : s.description.utf8ByteSize < 2 ^ 63) :
    decode (s.toBytes ++ rest) = .script s := by
  rw [decode_eq_script, ofBytes_eq_ok]
  exact ⟨s.toBytes, rest, spelled_toBytes hsource hname hdescription, rfl⟩

/-- A script in which characters take up one, two, three and four bytes, and one text none. -/
def accented : Script :=
  { source := "var né = '→𝄞\x00';\n", name := "é", description := "" }

theorem accented_decoded :
    (accented.source.utf8ByteSize < 2 ^ 63 ∧ accented.name.utf8ByteSize < 2 ^ 63 ∧
        accented.description.utf8ByteSize < 2 ^ 63) ∧
      decode (accented.toBytes ++ [0xFF, 0x00]) = .script accented := by
  have hsource : accented.source.utf8ByteSize < 2 ^ 63 := by decide
  have hname : accented.name.utf8ByteSize < 2 ^ 63 := by decide
  have hdescription : accented.description.utf8ByteSize < 2 ^ 63 := by decide
  exact ⟨⟨hsource, hname, hdescription⟩,
    decode_toBytes accented [0xFF, 0x00] hsource hname hdescription⟩

/-- What comes of bytes that are taken for a script.  A script is fetched from just the bytes that
    start with a spelling of it.  Where a text is announced that no memory can hold, the program
    breaks down; all other bytes are refused with the fault that was found. -/
theorem decode_outcome (bytes : List UInt8) :
    (∀ s, decode bytes = .script s ↔ ∃ front rest, s.Spelled front ∧ bytes = front ++ rest) ∧
      (decode bytes = .breakdown ↔ Overreaches bytes) ∧
      (¬ Overreaches bytes → (∃ s, decode bytes = .script s) ∨
        ∃ fault, decode bytes = .refused (.undecodable fault)) := by
  refine ⟨fun s => decode_eq_script.trans ofBytes_eq_ok, ?_, ?_⟩
  · rw [← ofBytes_eq_breakdown, decode]
    constructor
    · intro h
      split at h
      · cases h
      · cases h
      · next hread => exact hread
    · intro h
      rw [h]
  · intro hpossible
    rw [← ofBytes_eq_breakdown] at hpossible
    rw [decode]
    split
    · next s hread => exact Or.inl ⟨s, rfl⟩
    · next fault hread => exact Or.inr ⟨fault, rfl⟩
    · next hread => exact absurd hread hpossible

/-- Nine bytes that announce a text of the greatest length there is. -/
def greatestLength : List UInt8 :=
  [0xFD, 0xFF, 0xFF, 0xFF, 0xFF, 0xFF, 0xFF, 0xFF, 0xFF]

/-- Not all bytes give a script or are refused: nine of them are enough to break the program
    down. -/
theorem greatestLength_breakdown :
    decode greatestLength = .breakdown ∧
      ¬ ∀ bytes, (∃ s, decode bytes = .script s) ∨ ∃ error, decode bytes = .refused error := by
  have hbreak : decode greatestLength = .breakdown := by decide
  refine ⟨hbreak, ?_⟩
  intro hall
  rcases hall greatestLength with ⟨s, h⟩ | ⟨error, h⟩
  · rw [hbreak] at h
    cases h
  · rw [hbreak] at h
    cases h

end Script

end Flowchart
