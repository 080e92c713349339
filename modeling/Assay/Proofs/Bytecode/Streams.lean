import Assay.Bytecode.Listing
import Assay.Machine.Step
import Assay.Proofs.Machine.Structure
import Assay.Proofs.Success
import Mathlib.Data.List.Basic
import Mathlib.Data.List.Forall2
import Mathlib.Data.List.Induction

/-!
Streams of instructions. Encoding and decoding a whole stream are inverse to each other, and the two loops
that step through code, the listing and the machine, come to the same instructions at the same offsets.
-/

namespace Assay.Bytecode

section Numbers

theorem CodeAt.cons {code : Array UInt8} {offset : Nat} {byte : UInt8} {rest : List UInt8}
    (first : code[offset]? = some byte) (later : CodeAt code (offset + 1) rest) :
    CodeAt code offset (byte :: rest) := by
  obtain ⟨inside, rfl⟩ := Array.getElem?_eq_some_iff.mp first
  have split : code.toList.drop offset = code[offset] :: code.toList.drop (offset + 1) := by
    rw [List.drop_eq_getElem_cons (by simpa using inside), Array.getElem_toList]
  unfold CodeAt
  rw [split]
  exact List.cons_prefix_cons.mpr ⟨rfl, later⟩

theorem codeAt_of_readNumber? {code : Array UInt8} {offset width start number : Nat}
    (read : readNumber? code offset width start = some number) :
    ∃ bytes, bytes.length = width ∧ CodeAt code offset bytes ∧ bigEndianValue start bytes = number := by
  induction width generalizing offset start with
  | zero => exact ⟨[], rfl, List.nil_prefix, Option.some.inj read⟩
  | succ width ih =>
      simp only [readNumber?] at read
      split at read
      · rename_i byte present
        obtain ⟨bytes, length, later, value⟩ := ih read
        exact ⟨byte :: bytes, by simp [length], .cons present later, value⟩
      · simp at read

theorem bigEndianValue_concat (start : Nat) (bytes : List UInt8) (last : UInt8) :
    bigEndianValue start (bytes ++ [last]) = bigEndianValue start bytes * 256 + last.toNat := by
  simp [bigEndianValue]

theorem bigEndian_bigEndianValue (bytes : List UInt8) :
    bigEndian bytes.length (bigEndianValue 0 bytes) = bytes ∧
      bigEndianValue 0 bytes < 256 ^ bytes.length := by
  -- Digits are split off at the low end, so the induction takes the last byte away.
  induction bytes using List.reverseRecOn with
  | nil => exact ⟨rfl, by simp [bigEndianValue]⟩
  | append_singleton bytes last ih =>
      have small : last.toNat < 256 := last.toNat_lt
      have high : (bigEndianValue 0 bytes * 256 + last.toNat) / 256 = bigEndianValue 0 bytes := by omega
      have low : UInt8.ofNat (bigEndianValue 0 bytes * 256 + last.toNat) = last :=
        UInt8.toNat_inj.mp (by rw [UInt8.toNat_ofNat']; omega)
      rw [bigEndianValue_concat, List.length_append, List.length_singleton]
      refine ⟨by rw [bigEndian, high, low, ih.1], ?_⟩
      rw [Nat.pow_succ]
      have bound := ih.2
      omega

end Numbers

section Single

def FitsWidth (operand : Int) (width : Nat) : Prop := 0 ≤ operand ∧ operand < 256 ^ width

structure CodeItem where
  opcode : Opcode
  operands : List Int
deriving DecidableEq, Repr

def CodeItem.Fits (item : CodeItem) : Prop :=
  List.Forall₂ FitsWidth item.operands item.opcode.widths

theorem not_fits_iff (operand : Int) (width : Nat) :
    (operand < 0 || 1 <<< (8 * width) ≤ operand.toNat) = true ↔ ¬FitsWidth operand width := by
  have power : 1 <<< (8 * width) = 256 ^ width := by rw [Nat.one_shiftLeft, Nat.pow_mul]
  have cast : ((256 ^ width : Nat) : Int) = 256 ^ width := by simp
  rw [FitsWidth, power, ← cast, Bool.or_eq_true, decide_eq_true_eq, decide_eq_true_eq]
  omega

theorem encodeOperands_isOk_iff (opcode : Opcode) {widths : List Nat} {operands : List Int}
    (sameLength : operands.length = widths.length) :
    (∃ bytes, encodeOperands opcode widths operands = .ok bytes) ↔
      List.Forall₂ FitsWidth operands widths := by
  induction widths generalizing operands with
  | nil =>
      obtain rfl := List.length_eq_zero_iff.mp sameLength
      exact ⟨fun _ => .nil, fun _ => ⟨[], rfl⟩⟩
  | cons width widths ih =>
      obtain ⟨operand, operands, rfl⟩ := List.exists_cons_of_length_eq_add_one sameLength
      have others := ih (by simpa using sameLength)
      rw [List.forall₂_cons, ← others, encodeOperands]
      by_cases fits : FitsWidth operand width
      · rw [if_neg (mt (not_fits_iff operand width).mp (not_not_intro fits))]
        cases encodeOperands opcode widths operands with
        | ok rest => exact ⟨fun _ => ⟨fits, rest, rfl⟩, fun _ => ⟨_, rfl⟩⟩
        | error problem => simp
      · rw [if_pos ((not_fits_iff operand width).mpr fits)]
        simp [fits]

theorem encode_isOk_iff (item : CodeItem) :
    (∃ bytes, encode item.opcode item.operands = .ok bytes) ↔ item.Fits := by
  by_cases sameLength : item.operands.length = item.opcode.widths.length
  · rw [CodeItem.Fits, ← encodeOperands_isOk_iff item.opcode sameLength, encode,
      if_neg (not_not_intro sameLength)]
    cases encodeOperands item.opcode item.opcode.widths item.operands with
    | ok rest => exact ⟨fun _ => ⟨rest, rfl⟩, fun _ => ⟨_, rfl⟩⟩
    | error problem => simp
  · rw [encode, if_pos sameLength]
    exact ⟨fun done => by simp at done, fun fits => absurd fits.length_eq sameLength⟩

theorem encodeOperands_of_readOperands? {code : Array UInt8} {offset : Nat} {widths operands : List Nat}
    (opcode : Opcode) (read : readOperands? code offset widths = some operands) :
    ∃ bytes, encodeOperands opcode widths (operands.map Int.ofNat) = .ok bytes ∧
      CodeAt code offset bytes ∧ operands.length = widths.length := by
  induction widths generalizing offset operands with
  | nil =>
      obtain rfl : [] = operands := by simpa [readOperands?] using read
      exact ⟨[], rfl, List.nil_prefix, rfl⟩
  | cons width widths ih =>
      simp only [readOperands?] at read
      split at read
      · simp at read
      · rename_i operand isNumber
        obtain ⟨others, readOthers, rfl⟩ := Option.map_eq_some_iff.mp read
        obtain ⟨digits, rfl, here, rfl⟩ := codeAt_of_readNumber? isNumber
        obtain ⟨digitsOf, small⟩ := bigEndian_bigEndianValue digits
        obtain ⟨rest, encoded, later, sameLength⟩ := ih readOthers
        have fits : FitsWidth (Int.ofNat (bigEndianValue 0 digits)) digits.length :=
          ⟨Int.natCast_nonneg _, Int.ofNat_lt.mpr small⟩
        refine ⟨digits ++ rest, ?_, CodeAt.append_iff.mpr ⟨here, later⟩, by simp [sameLength]⟩
        rw [List.map_cons, encodeOperands,
          if_neg (mt (not_fits_iff _ _).mp (not_not_intro fits)), encoded]
        exact congrArg (fun bytes => Except.ok (bytes ++ rest)) digitsOf

theorem Opcode.size_pos (opcode : Opcode) : 0 < opcode.size := by
  cases opcode <;> decide

theorem Opcode.toByte_of_ofByte? {byte : UInt8} {opcode : Opcode}
    (named : Opcode.ofByte? byte = some opcode) : opcode.toByte = byte := by
  unfold Opcode.ofByte? at named
  refine UInt8.toNat_inj.mp ?_
  split at named <;> cases named
  all_goals
    rename_i number
    exact number.symm

theorem encode_of_decodeAt {code : Array UInt8} {offset next : Nat} {opcode : Opcode}
    {operands : List Nat} (decoded : decodeAt code offset = .instruction opcode operands next) :
    ∃ bytes, encode opcode (operands.map Int.ofNat) = .ok bytes ∧ CodeAt code offset bytes := by
  simp only [decodeAt] at decoded
  split at decoded
  · simp at decoded
  · rename_i byte present
    split at decoded
    · simp at decoded
    · rename_i named
      split at decoded
      · simp at decoded
      · rename_i read
        simp only [Decoded.instruction.injEq] at decoded
        obtain ⟨rfl, rfl, -⟩ := decoded
        obtain ⟨rest, encoded, later, sameLength⟩ := encodeOperands_of_readOperands? _ read
        refine ⟨_ :: rest, ?_, .cons present later⟩
        rw [encode, if_neg (not_not_intro (by simpa using sameLength)), encoded,
          Opcode.toByte_of_ofByte? named]

end Single

section Streams

def encodeAll : List CodeItem → Except EncodingError (List UInt8)
  | [] => .ok []
  | item :: rest => do
    let bytes ← encode item.opcode item.operands
    let others ← encodeAll rest
    pure (bytes ++ others)

/-- The instructions with their offsets: each stands behind the sizes of those before it. -/
def located (start : Nat) (items : List CodeItem) : List Located :=
  items.mapIdx fun index item =>
    { offset := start + ((items.take index).map fun earlier => earlier.opcode.size).sum
      opcode := item.opcode
      operands := item.operands.map Int.toNat }

def Located.item (line : Located) : CodeItem :=
  { opcode := line.opcode, operands := line.operands.map Int.ofNat }

theorem located_cons (start : Nat) (item : CodeItem) (rest : List CodeItem) :
    located start (item :: rest) =
      { offset := start, opcode := item.opcode, operands := item.operands.map Int.toNat } ::
        located (start + item.opcode.size) rest := by
  simp [located, List.mapIdx_cons, Nat.add_assoc]

theorem encodeAll_isOk_iff (items : List CodeItem) :
    (∃ bytes, encodeAll items = .ok bytes) ↔ ∀ item ∈ items, item.Fits := by
  induction items with
  | nil => exact ⟨fun _ => by simp, fun _ => ⟨[], rfl⟩⟩
  | cons item rest ih =>
      rw [List.forall_mem_cons, ← ih, ← encode_isOk_iff]
      constructor
      · rintro ⟨bytes, encoded⟩
        obtain ⟨first, isFirst, encodedRest⟩ := bind_eq_ok.mp encoded
        obtain ⟨others, isRest, -⟩ := bind_eq_ok.mp encodedRest
        exact ⟨⟨first, isFirst⟩, others, isRest⟩
      · rintro ⟨⟨first, isFirst⟩, others, isRest⟩
        exact ⟨first ++ others, by rw [encodeAll, isFirst, isRest]; rfl⟩

theorem decodes_encodeAll {items : List CodeItem} {bytes : List UInt8} {code : Array UInt8}
    {offset : Nat} (encoded : encodeAll items = .ok bytes) (here : CodeAt code offset bytes)
    (whole : offset + bytes.length = code.size) : Decodes code offset (located offset items) := by
  induction items generalizing offset bytes with
  | nil =>
      obtain rfl : [] = bytes := by simpa [encodeAll] using encoded
      obtain rfl : offset = code.size := by simpa using whole
      exact .finish
  | cons item rest ih =>
      obtain ⟨first, isFirst, encodedRest⟩ := bind_eq_ok.mp encoded
      obtain ⟨others, isRest, joined⟩ := bind_eq_ok.mp encodedRest
      cases joined
      rw [List.length_append, ← Nat.add_assoc] at whole
      have later := ih isRest here.right whole
      rw [encode_length isFirst] at later
      have decoded := decodeAt_encode isFirst here.left
      rw [encode_length isFirst] at decoded
      rw [located_cons]
      exact .step decoded later

theorem Decodes.unique {code : Array UInt8} {offset : Nat} {first second : List Located}
    (decodes : Decodes code offset first) (again : Decodes code offset second) : first = second := by
  induction decodes generalizing second with
  | finish =>
      cases again with
      | finish => rfl
      | step decoded _ => exact absurd (decodeAt_instruction decoded).1 (Nat.lt_irrefl _)
  | step decoded _ ih =>
      cases again with
      | finish => exact absurd (decodeAt_instruction decoded).1 (Nat.lt_irrefl _)
      | step decodedAgain later =>
          rw [decoded, Decoded.instruction.injEq] at decodedAgain
          obtain ⟨rfl, rfl, rfl⟩ := decodedAgain
          rw [ih later]

theorem encodeAll_of_decodes {code : Array UInt8} {offset : Nat} {listing : List Located}
    (decodes : Decodes code offset listing) :
    encodeAll (listing.map Located.item) = .ok (code.toList.drop offset) ∧
      located offset (listing.map Located.item) = listing := by
  induction decodes with
  | finish => exact ⟨by simp [encodeAll], rfl⟩
  | @step offset next opcode operands rest decoded _ ih =>
      obtain ⟨bytes, encoded, tail, split⟩ := encode_of_decodeAt decoded
      obtain rfl : next = offset + bytes.length := by
        rw [(decodeAt_instruction decoded).2, encode_length encoded]
      rw [← List.drop_drop, ← split, List.drop_left] at ih
      have size : opcode.size = bytes.length := (encode_length encoded).symm
      constructor
      · rw [List.map_cons, encodeAll, Located.item, encoded, ih.1, ← split]
        rfl
      · rw [List.map_cons, located_cons, Located.item, size, ih.2]
        simp [Function.comp_def]

/-- Decoding to the end and encoding are inverse to each other. -/
theorem decodes_iff (code : Array UInt8) (listing : List Located) :
    Decodes code 0 listing ↔
      ∃ items, encodeAll items = .ok code.toList ∧ listing = located 0 items := by
  constructor
  · intro decodes
    obtain ⟨encoded, offsets⟩ := encodeAll_of_decodes decodes
    exact ⟨listing.map Located.item, encoded, offsets.symm⟩
  · rintro ⟨items, encoded, rfl⟩
    exact decodes_encodeAll encoded List.prefix_rfl (by simp)

theorem listFrom_of_decodes {constants : Array Constant} {code : Array UInt8} {offset fuel : Nat}
    {listing : List Located} (decodes : Decodes code offset listing)
    (enough : code.size < offset + fuel) :
    listFrom constants code fuel offset = some (listing.map fun line =>
      listingLine constants line.offset line.opcode line.operands) := by
  induction decodes generalizing fuel with
  | finish =>
      obtain ⟨fuel, rfl⟩ : ∃ less, fuel = less + 1 := ⟨fuel - 1, by omega⟩
      have atEnd : decodeAt code code.size = .finished := by simp [decodeAt]
      simp [listFrom, atEnd]
  | @step offset next opcode operands rest decoded _ ih =>
      obtain ⟨inside, isNext⟩ := decodeAt_instruction decoded
      obtain ⟨fuel, rfl⟩ : ∃ less, fuel = less + 1 := ⟨fuel - 1, by omega⟩
      have forward := opcode.size_pos
      simp only [listFrom, decoded, ih (show code.size < next + fuel by omega), Option.map_some,
        List.map_cons]

theorem item_located {items : List CodeItem} (fit : ∀ item ∈ items, item.Fits) (start : Nat) :
    (located start items).map Located.item = items := by
  have back : ∀ {operands : List Int} {widths : List Nat}, List.Forall₂ FitsWidth operands widths →
      operands.map (Int.ofNat ∘ Int.toNat) = operands := by
    intro operands widths fits
    induction fits with
    | nil => rfl
    | cons first _ ih => rw [List.map_cons, ih, Function.comp, Int.ofNat_eq_natCast,
        Int.toNat_of_nonneg first.1]
  induction items generalizing start with
  | nil => rfl
  | cons item rest ih =>
      rw [located_cons, List.map_cons, ih (fun other later => fit other (List.mem_cons_of_mem _ later)),
        Located.item, List.map_map, back (fit item List.mem_cons_self)]

/-- Decoding the code, listing it and running it all come to these instructions. -/
structure SteppedAs (code : Array UInt8) (listing : List Located) : Prop where
  decodes : ∀ other, Decodes code 0 other ↔ other = listing
  lines : ∀ (image : ClassImage) (routine : Routine), routine.code = code →
    image.listRoutine? routine = some (listing.map fun line =>
      listingLine image.constants line.offset line.opcode line.operands)
  steps : ∀ line ∈ listing, ∀ (program : Program) (frame : Machine.Frame) (world : Machine.World),
    frame.routine.code = code → frame.offset = line.offset →
    frame.advance program world =
      Machine.execute program { frame with offset := line.offset + line.opcode.size } world
        line.opcode (line.operands.headD 0)

theorem Decodes.steppedAs {code : Array UInt8} {listing : List Located}
    (decodes : Decodes code 0 listing) : SteppedAs code listing where
  decodes other := ⟨fun again => again.unique decodes, fun same => same ▸ decodes⟩
  lines := by
    rintro image routine rfl
    exact listFrom_of_decodes decodes (by omega)
  steps := by
    rintro line isLine program frame world rfl atLine
    obtain ⟨next, decoded, -⟩ := decodes.decodeAt isLine
    rw [Machine.Frame.advance, atLine, decoded, (decodeAt_instruction decoded).2]

/-- A stream of instructions that fit can be encoded, and its code is decoded, listed and run as just these
instructions, each behind the sizes of those before it. Code that is decoded to its end is nothing but the
stream of what was decoded. -/
theorem streams_round_trip :
    (∀ items : List CodeItem, (∀ item ∈ items, item.Fits) →
      ∃ bytes, encodeAll items = .ok bytes ∧ SteppedAs bytes.toArray (located 0 items) ∧
        (located 0 items).map Located.item = items) ∧
      ∀ (code : Array UInt8) (listing : List Located), Decodes code 0 listing →
        encodeAll (listing.map Located.item) = .ok code.toList ∧
          (∀ line ∈ listing, line.item.Fits) ∧ listing = located 0 (listing.map Located.item) := by
  constructor
  · intro items fit
    obtain ⟨bytes, encoded⟩ := (encodeAll_isOk_iff items).mpr fit
    have decodes : Decodes bytes.toArray 0 (located 0 items) :=
      (decodes_iff _ _).mpr ⟨items, encoded, rfl⟩
    exact ⟨bytes, encoded, decodes.steppedAs, item_located fit 0⟩
  · intro code listing decodes
    obtain ⟨items, encoded, rfl⟩ := (decodes_iff code listing).mp decodes
    have fit := (encodeAll_isOk_iff items).mp ⟨_, encoded⟩
    rw [item_located fit 0]
    refine ⟨encoded, fun line isLine => fit _ ?_, rfl⟩
    rw [← item_located fit 0]
    exact List.mem_map_of_mem isLine

def mixedStream : List CodeItem :=
  [{ opcode := .load, operands := [255] }, { opcode := .pushConstant, operands := [258] },
    { opcode := .retValue, operands := [] }]

theorem streams_round_trip_mixed :
    (∀ item ∈ mixedStream, item.Fits) ∧ encodeAll mixedStream = .ok [4, 255, 1, 1, 2, 28] ∧
      SteppedAs #[4, 255, 1, 1, 2, 28]
        [{ offset := 0, opcode := .load, operands := [255] },
          { offset := 2, opcode := .pushConstant, operands := [258] },
          { offset := 5, opcode := .retValue, operands := [] }] := by
  have fit : ∀ item ∈ mixedStream, item.Fits := by
    simp [mixedStream, CodeItem.Fits, FitsWidth, Opcode.widths]
  have encoded : encodeAll mixedStream = .ok [4, 255, 1, 1, 2, 28] := rfl
  obtain ⟨bytes, isEncoded, stepped, -⟩ := streams_round_trip.1 mixedStream fit
  obtain rfl : [4, 255, 1, 1, 2, 28] = bytes := Except.ok.inj (encoded.symm.trans isEncoded)
  exact ⟨fit, encoded, stepped⟩

end Streams

end Assay.Bytecode
