import Assay.Proofs.Assembly.Orders
import Assay.Proofs.Bytecode.Capacity
import Assay.Proofs.Graph.Traversal
import Assay.Proofs.Lowering.Totality

/-!
Emission of the blocks of a body fails in one way only: the pool gets more constants than an operand of
two bytes can number. Whether that happens depends on the set of constants alone, not on the order in
which blocks and constants are met.
-/

namespace Assay.Assembly

open Bytecode Assay.Graph Lowering Typing

theorem Assembled.key {constant : Constant} (assembled : Assembled constant) :
    ∃ key, constant.key? = some key := by
  cases assembled with
  | int value => exact ⟨_, key?_ofInt value⟩
  | string value => exact ⟨_, key?_ofString value⟩
  | method value => exact ⟨_, key?_ofMethod value⟩
  | nanosPerMilli => exact ⟨_, key?_nanosPerMilli⟩

theorem Usual.method_eq {testClass : String} {entry method : MethodRef}
    (first : Usual testClass (.ofMethod entry)) (second : Usual testClass (.ofMethod method))
    (same : entry.text = method.text) : entry = method := by
  have known : ∀ {found : MethodRef}, Usual testClass (.ofMethod found) →
      found = outputRef ∨ ∃ signature, found = memberRef testClass signature := by
    intro found usual
    generalize isFound : Constant.ofMethod found = constant at usual
    cases usual with
    | int value => simp [Constant.ofMethod, Constant.ofInt] at isFound
    | string value => simp [Constant.ofMethod, Constant.ofString] at isFound
    | nanosPerMilli => simp [Constant.ofMethod, Constant.ofFloat] at isFound
    | output => exact .inl (by simpa [Constant.ofMethod] using isFound)
    | member signature => exact .inr ⟨signature, by simpa [Constant.ofMethod] using isFound⟩
  obtain ⟨sameArgs, sameReturns, sameName⟩ := MethodRef.text_determines same
  rcases known first with rfl | ⟨signature, rfl⟩
  · rcases known second with rfl | ⟨other, rfl⟩
    · rfl
    · simp [outputRef, memberRef] at sameArgs
  · rcases known second with rfl | ⟨other, rfl⟩
    · simp [outputRef, memberRef] at sameArgs
    · have name : signature.name = other.name := by
        have chars := congrArg String.toList sameName
        simp only [memberRef, String.toList_append, List.append_assoc] at chars
        exact String.toList_injective (List.append_cancel_left (List.append_cancel_left chars))
      simp only [memberRef] at sameReturns
      simp only [memberRef, name, sameReturns]

/-- The pool of a test class holds what is needed and nothing else, and every index fits in two
bytes. -/
structure Fits (testClass : String) (image : ClassImage) (needed : ConstantKey → Prop) : Prop where
  keys : ∃ keys, image.pool.Exact keys ∧ keys.length ≤ 65536 ∧ ∀ key, key ∈ keys ↔ needed key
  usual : ∀ entry ∈ image.constants, Usual testClass entry

variable {testClass : String} {needed : ConstantKey → Prop} {image : ClassImage}

theorem Fits.congr {same : ConstantKey → Prop} (fits : Fits testClass image needed)
    (same_iff : ∀ key, needed key ↔ same key) : Fits testClass image same := by
  obtain ⟨keys, exact, few, needs⟩ := fits.keys
  exact ⟨⟨keys, exact, few, fun key => (needs key).trans (same_iff key)⟩, fits.usual⟩

theorem Fits.sound (fits : Fits testClass image needed) : PoolSound image.pool := by
  obtain ⟨keys, exact, -⟩ := fits.keys
  exact ⟨exact.to_indexed, fun entry member => (fits.usual entry member).assembled⟩

theorem Fits.not_exceeds (fits : Fits testClass image needed) : ¬Exceeds 65536 needed := by
  rintro ⟨some, distinct, many, inside⟩
  obtain ⟨keys, -, few, needs⟩ := fits.keys
  have fewer := (List.subperm_of_subset distinct
    fun key member => (needs key).mpr (inside key member)).length_le
  omega

theorem fits_new (testClass name : String) : Fits testClass (ClassImage.new name) fun _ => False :=
  ⟨⟨[], ConstantPool.exact_empty, by simp, by simp⟩,
    fun entry member => by simp [ClassImage.new, ClassImage.constants, ConstantPool.empty] at member⟩

def TooWide (problem : AssemblyError) : Prop :=
  ∃ (opcode : Opcode) (operand : Int), 65535 < operand ∧
    problem = .encoding (.operandRange opcode operand 2)

/-- A step of the generator succeeds with what is needed in the pool, or too much is needed. -/
def Copes {α : Type} (testClass : String) (needed : ConstantKey → Prop)
    (result : ClassImage × Except AssemblyError α) : Prop :=
  (∃ image value, result = (image, .ok value) ∧ Fits testClass image needed) ∨
    ∃ image problem, result = (image, .error problem) ∧ TooWide problem ∧ Exceeds 65536 needed

theorem encode_wide {opcode : Opcode} {index : Nat} (wide : opcode.widths = [2])
    (large : 65536 ≤ index) :
    encode opcode [(index : Int)] = .error (.operandRange opcode index 2) := by
  have outOfRange : ((index : Int) < 0 || 1 <<< (8 * 2) ≤ (index : Int).toNat) = true := by
    rw [Bool.or_eq_true, decide_eq_true_eq, decide_eq_true_eq]
    omega
  simp only [encode, wide, encodeOperands, outOfRange, if_true]
  simp

theorem intern_usual {constant : Constant} (fits : Fits testClass image needed)
    (usual : Usual testClass constant) :
    ∀ entry ∈ (image.intern constant).1.constants, Usual testClass entry := by
  intro entry member
  rcases (ConstantPool.intern_interned fits.sound.indexed constant).nothingElse entry member with
    old | rfl
  · exact fits.usual entry old
  · exact usual

theorem constantInstruction_copes {opcode : Opcode} {constant : Constant} {key : ConstantKey}
    (wide : opcode.widths = [2]) (usual : Usual testClass constant)
    (keyed : constant.key? = some key) (fits : Fits testClass image needed) :
    Copes testClass (fun other => needed other ∨ other = key)
      (constantInstruction image opcode constant) := by
  obtain ⟨keys, exact, few, needs⟩ := fits.keys
  have interned := intern_usual fits usual
  by_cases known : key ∈ keys
  · obtain ⟨still, small⟩ := exact.intern_old keyed known
    have index : (image.intern constant).2 < 65536 := Nat.lt_of_lt_of_le small few
    obtain ⟨bytes, encoded⟩ := encode_index wide index
    refine .inl ⟨(image.intern constant).1, bytes, ?_, ⟨keys, still, few, ?_⟩, interned⟩
    · simp [constantInstruction, encoded, Except.mapError]
    · intro other
      constructor
      · exact fun member => .inl ((needs other).mp member)
      · rintro (isNeeded | rfl)
        · exact (needs other).mpr isNeeded
        · exact known
  · obtain ⟨longer, atEnd⟩ := exact.intern_new keyed known
    have index : (image.intern constant).2 = keys.length := atEnd
    have grown : ∀ other, other ∈ keys ++ [key] ↔ needed other ∨ other = key := by
      intro other
      rw [List.mem_append, List.mem_singleton, needs]
    have length : (keys ++ [key]).length = keys.length + 1 := by simp
    rcases Nat.lt_or_ge keys.length 65536 with room | full
    · obtain ⟨bytes, encoded⟩ := encode_index wide (index ▸ room)
      refine .inl ⟨(image.intern constant).1, bytes, ?_, ⟨_, longer, by omega, grown⟩, interned⟩
      simp [constantInstruction, encoded, Except.mapError]
    · refine .inr ⟨(image.intern constant).1, _, ?_, ⟨opcode, keys.length, by omega, rfl⟩, _,
        longer.distinct, by omega, fun other => (grown other).mp⟩
      simp [constantInstruction, index, encode_wide wide full, Except.mapError]

def constantOf? : Instruction → Option Constant
  | .const value => some (.ofInt value)
  | .newString text => some (.ofString text)
  | .getField _ field => some (.ofString field)
  | .putField _ field => some (.ofString field)
  | .virtualCall owner name args returns =>
    (kindOf returns).toOption.map fun kind => .ofMethod { owner, name, args, returns := kind }
  | _ => none

def codeKeys (code : List Instruction) : List ConstantKey :=
  code.filterMap fun instruction => (constantOf? instruction).bind Constant.key?

theorem codeKeys_append (first second : List Instruction) :
    codeKeys (first ++ second) = codeKeys first ++ codeKeys second := by
  simp [codeKeys]

theorem constantInstruction_needs {opcode : Opcode} {constant : Constant} {instruction : Instruction}
    (isConstant : constantOf? instruction = some constant) (wide : opcode.widths = [2])
    (usual : Usual testClass constant) (fits : Fits testClass image needed) :
    Copes testClass (fun key => needed key ∨ key ∈ codeKeys [instruction])
      (constantInstruction image opcode constant) := by
  obtain ⟨key, keyed⟩ := usual.assembled.key
  have keys : codeKeys [instruction] = [key] := by simp [codeKeys, isConstant, keyed]
  simp only [keys, List.mem_singleton]
  exact constantInstruction_copes wide usual keyed fits

theorem plainInstruction_needs {opcode : Opcode} {operands : List Int} {instruction : Instruction}
    (noConstant : constantOf? instruction = none) (encodable : (encode opcode operands).isOk = true)
    (fits : Fits testClass image needed) :
    Copes testClass (fun key => needed key ∨ key ∈ codeKeys [instruction])
      (plainInstruction image opcode operands) := by
  cases encoded : encode opcode operands with
  | error problem => simp [encoded, Except.isOk, Except.toBool] at encodable
  | ok bytes =>
      refine .inl ⟨image, bytes, by simp [plainInstruction, encoded, Except.mapError], ?_⟩
      exact fits.congr fun key => by simp [codeKeys, noConstant]

variable {isField : String → Prop}

theorem lowerInstruction_copes {instruction : Instruction} (isPlain : Plain isField instruction)
    (fits : Fits testClass image needed) :
    Copes testClass (fun key => needed key ∨ key ∈ codeKeys [instruction])
      (lowerInstruction image instruction) := by
  cases isPlain with
  | const value => exact constantInstruction_needs rfl rfl (.int value) fits
  | newString text => exact constantInstruction_needs rfl rfl (.string text) fits
  | loadReceiver => exact plainInstruction_needs rfl rfl fits
  | @getField owner name known => exact constantInstruction_needs rfl rfl (.string name) fits
  | @putField owner name known => exact constantInstruction_needs rfl rfl (.string name) fits
  | arithmetic operator =>
      refine plainInstruction_needs rfl ?_ fits
      cases operator <;> rfl
  | output =>
      have isOutput : constantOf? outputCall = some (.ofMethod outputRef) := rfl
      exact constantInstruction_needs isOutput rfl .output fits

theorem lowerReturn_copes (kind : ValueKind) (fits : Fits testClass image needed) :
    Copes testClass (fun key => needed key ∨ key ∈ codeKeys [.ret kind])
      (lowerInstruction image (.ret kind)) := by
  refine plainInstruction_needs rfl ?_ fits
  split <;> rfl

theorem isReturn_of_plain {instruction : Instruction} (isPlain : Plain isField instruction) :
    instruction.isReturn = false := by
  cases isPlain <;> rfl

theorem lowerCode_step {summary : BlockSummary} {isExit : Bool} {instruction : Instruction}
    {rest : List Instruction} {bytes : Array UInt8}
    (placed : (instruction.isReturn && !(rest.isEmpty && isExit)) = false)
    (first : Copes testClass (fun key => needed key ∨ key ∈ codeKeys [instruction])
      (lowerInstruction image instruction))
    (later : ∀ grown encoded,
      Fits testClass grown (fun key => needed key ∨ key ∈ codeKeys [instruction]) →
      Copes testClass (fun key => (needed key ∨ key ∈ codeKeys [instruction]) ∨ key ∈ codeKeys rest)
        (lowerCode summary isExit rest grown (bytes ++ encoded))) :
    Copes testClass (fun key => needed key ∨ key ∈ codeKeys (instruction :: rest))
      (lowerCode summary isExit (instruction :: rest) image bytes) := by
  have whole : ∀ key, key ∈ codeKeys (instruction :: rest) ↔
      key ∈ codeKeys [instruction] ∨ key ∈ codeKeys rest := by
    intro key
    rw [← List.singleton_append, codeKeys_append, List.mem_append]
  simp only [lowerCode, placed, Bool.false_eq_true, if_false, whole, ← or_assoc]
  rcases first with ⟨grown, encoded, done, fits⟩ | ⟨grown, problem, failed, wide, exceeds⟩
  · simp only [done]
    exact later grown encoded.toArray fits
  · simp only [failed]
    exact .inr ⟨grown, problem, rfl, wide, exceeds.mono fun key isNeeded => .inl isNeeded⟩

theorem lowerCode_nil_copes (summary : BlockSummary) (isExit : Bool) (bytes : Array UInt8)
    (fits : Fits testClass image needed) :
    Copes testClass (fun key => needed key ∨ key ∈ codeKeys [])
      (lowerCode summary isExit [] image bytes) :=
  .inl ⟨image, bytes, rfl, fits.congr fun key => by simp [codeKeys]⟩

theorem lowerCode_copes (summary : BlockSummary) (isExit : Bool) {body ending : List Instruction}
    (isPlain : ∀ instruction ∈ body, Plain isField instruction)
    (ends : ending = [] ∨ isExit = true ∧ ∃ kind, ending = [.ret kind]) (bytes : Array UInt8)
    (fits : Fits testClass image needed) :
    Copes testClass (fun key => needed key ∨ key ∈ codeKeys (body ++ ending))
      (lowerCode summary isExit (body ++ ending) image bytes) := by
  induction body generalizing image bytes needed with
  | nil =>
      rcases ends with rfl | ⟨rfl, kind, rfl⟩
      · exact lowerCode_nil_copes summary isExit bytes fits
      · refine lowerCode_step rfl (lowerReturn_copes kind fits) fun grown encoded grownFits => ?_
        exact lowerCode_nil_copes summary true _ grownFits
  | cons instruction rest ih =>
      have first := isPlain instruction List.mem_cons_self
      refine lowerCode_step ?_ (lowerInstruction_copes first fits) fun grown encoded grownFits => ?_
      · simp [isReturn_of_plain first]
      · exact ih (fun other later => isPlain other (List.mem_cons_of_mem _ later)) _ grownFits

def Complete (isField : String → Prop) (arena : Arena) : Prop :=
  ∀ id code transfer, arena.Holds id code transfer →
    Finished (Plain isField) arena.size code transfer

theorem Complete.closed {arena : Arena} (complete : Complete isField arena) : arena.Closed := by
  intro id next isNext
  cases found : arena.get? id with
  | none => simp [Arena.successors_of_none found] at isNext
  | some block =>
      rw [Arena.successors_of_get found] at isNext
      exact (complete id _ _ ⟨block, found, rfl, rfl⟩).successor_lt isNext

theorem Complete.grown {before after : Arena} (complete : Complete isField before)
    (adds : before.Adds (Plain isField) after) : Complete isField after := by
  intro id code transfer holds
  by_cases old : id < before.size
  · obtain ⟨oldCode, oldTransfer, oldHolds⟩ := Arena.exists_holds old
    obtain ⟨rfl, rfl⟩ := holds.unique (adds.keeps _ _ _ oldHolds)
    exact (complete id _ _ oldHolds).mono adds.size_le
  · exact adds.finished id code transfer (Nat.not_lt.mp old) holds

def blockKeys (arena : Arena) (id : BlockIndex) : List ConstantKey :=
  match arena.get? id with
  | some block => codeKeys block.code
  | none => []

theorem blockKeys_of_holds {arena : Arena} {id : BlockIndex} {code : List Instruction}
    {transfer : Transfer} (holds : arena.Holds id code transfer) :
    blockKeys arena id = codeKeys code := by
  obtain ⟨block, found, rfl, -⟩ := holds
  simp only [blockKeys, found]

theorem lowerCode_of_finished {size : Nat} {code : List Instruction} {transfer : Transfer}
    (finished : Finished (Plain isField) size code transfer) (summary : BlockSummary)
    (fits : Fits testClass image needed) :
    Copes testClass (fun key => needed key ∨ key ∈ codeKeys code)
        (lowerCode summary transfer.isExit code image #[]) ∧
      (transfer.isExit && !endsWithReturn code) = false := by
  cases finished with
  | @exit body kind isPlain =>
      refine ⟨lowerCode_copes summary true isPlain (.inr ⟨rfl, kind, rfl⟩) #[] fits, ?_⟩
      simp [endsWithReturn, Instruction.isReturn]
  | jump isPlain inside =>
      have copes := lowerCode_copes summary false isPlain (.inl rfl) #[] fits
      simp only [List.append_nil] at copes
      exact ⟨copes, rfl⟩
  | branch isPlain known yesInside noInside =>
      have copes := lowerCode_copes summary false isPlain (.inl rfl) #[] fits
      simp only [List.append_nil] at copes
      exact ⟨copes, rfl⟩

/-- A block that is handed over once, after its successors were visited, is lowered. -/
theorem materialize_copes {arena : Arena} {generator : Generator} {visited : Std.HashSet BlockIndex}
    {id : BlockIndex} (complete : Complete isField arena) (inside : id < arena.size)
    (fresh : generator.lowered.contains id = false)
    (ready : ∀ next ∈ arena.successors id, visited.contains next = true)
    (fits : Fits testClass generator.image needed) :
    (∃ image bytes, generator.materialize arena visited id =
        ({ image, lowered := generator.lowered.insert id bytes }, .ok ()) ∧
      Fits testClass image (fun key => needed key ∨ key ∈ blockKeys arena id)) ∨
    ∃ failed problem, generator.materialize arena visited id = (failed, .error problem) ∧
      TooWide problem ∧ Exceeds 65536 (fun key => needed key ∨ key ∈ blockKeys arena id) := by
  obtain ⟨code, transfer, block, found, rfl, rfl⟩ := Arena.exists_holds inside
  have holds : arena.Holds id block.code block.transfer := ⟨block, found, rfl, rfl⟩
  obtain ⟨copes, returns⟩ := lowerCode_of_finished (complete id _ _ holds) block.summary fits
  rw [blockKeys_of_holds holds]
  rw [Arena.successors_of_get found] at ready
  have noDangling : block.successors.find? (fun next => !visited.contains next) = none := by
    refine List.find?_eq_none.mpr fun next isNext => ?_
    simp [ready next isNext]
  simp only [Generator.materialize, found, Option.getD_some, fresh, noDangling, Bool.false_eq_true,
    if_false]
  rcases copes with ⟨image, bytes, done, grown⟩ | ⟨image, problem, failed, wide, exceeds⟩
  · refine .inl ⟨image, bytes, ?_, grown⟩
    simp only [Block.isExit, done, returns, Bool.false_eq_true, if_false]
  · refine .inr ⟨{ image, lowered := generator.lowered }, problem, ?_, wide, exceeds⟩
    simp only [Block.isExit, failed]

theorem followTrace_append (first second : List Visit) (emission : Emission) :
    followTrace (first ++ second) emission =
      match followTrace first emission with
      | (middle, .ok ()) => followTrace second middle
      | (middle, .error problem) => (middle, .error problem) := by
  induction first generalizing emission with
  | nil => rfl
  | cons visit rest ih =>
      obtain ⟨run, generator, handed⟩ := emission
      cases visit with
      | enter id => exact ih _
      | leave id =>
          simp only [List.cons_append, followTrace]
          rcases generator.materialize run.arena run.visited id with ⟨grown, problem | done⟩
          · rfl
          · exact ih _

def traceKeys (arena : Arena) (trace : List Visit) : List ConstantKey :=
  (leaveOrder trace).flatMap (blockKeys arena)

theorem mem_traceKeys_visit (arena : Arena) (id : BlockIndex) (inner outer : List Visit)
    (key : ConstantKey) :
    key ∈ traceKeys arena (.enter id :: (inner ++ .leave id :: outer)) ↔
      (key ∈ traceKeys arena inner ∨ key ∈ blockKeys arena id) ∨ key ∈ traceKeys arena outer := by
  simp only [traceKeys, leaveOrder_visit, List.flatMap_append, List.flatMap_cons, List.mem_append,
    or_assoc]

structure Emitted (testClass : String) (needed : ConstantKey → Prop) (trace : List Visit)
    (after : Std.HashSet BlockIndex) (before result : Emission) : Prop where
  run : result.run = { before.run with visited := after }
  lowered : ∀ id, result.generator.lowered.contains id = true ↔
    before.generator.lowered.contains id = true ∨ id ∈ leaveOrder trace
  fits : Fits testClass result.generator.image fun key =>
    needed key ∨ key ∈ traceKeys before.run.arena trace

def Emits (testClass : String) (needed : ConstantKey → Prop) (trace : List Visit)
    (after : Std.HashSet BlockIndex) (emission : Emission) : Prop :=
  (∃ result, followTrace trace emission = (result, .ok ()) ∧
      Emitted testClass needed trace after emission result) ∨
    ∃ result problem, followTrace trace emission = (result, .error problem) ∧ TooWide problem ∧
      Exceeds 65536 fun key => needed key ∨ key ∈ traceKeys emission.run.arena trace

theorem emits_visit {id : BlockIndex} {inner outer : List Visit} {middle after : Std.HashSet BlockIndex}
    {emission : Emission} (complete : Complete isField emission.run.arena)
    (inside : id < emission.run.arena.size)
    (before : Emits testClass needed inner middle { emission with run := emission.run.enter id })
    (fresh : emission.generator.lowered.contains id = false) (once : id ∉ leaveOrder inner)
    (ready : ∀ next ∈ emission.run.arena.successors id, middle.contains next = true)
    (behind : ∀ later : Emission, later.run = { emission.run with visited := middle } →
      (∀ other, later.generator.lowered.contains other = true ↔
        other = id ∨ emission.generator.lowered.contains other = true ∨ other ∈ leaveOrder inner) →
      Fits testClass later.generator.image (fun key => needed key ∨
        (key ∈ traceKeys emission.run.arena inner ∨ key ∈ blockKeys emission.run.arena id)) →
      Emits testClass (fun key => needed key ∨
        (key ∈ traceKeys emission.run.arena inner ∨ key ∈ blockKeys emission.run.arena id))
        outer after later) :
    Emits testClass needed (.enter id :: (inner ++ .leave id :: outer)) after emission := by
  obtain ⟨run, generator, handed⟩ := emission
  simp only [Emits, followTrace, followTrace_append, mem_traceKeys_visit]
  rcases before with ⟨first, firstDone, emitted⟩ | ⟨first, problem, failed, wide, exceeds⟩
  · have firstRun : first.run = { run with visited := middle } := emitted.run
    have notLowered : first.generator.lowered.contains id = false := by
      rw [← Bool.not_eq_true, emitted.lowered]
      rintro (old | isInner)
      · simp [old] at fresh
      · exact once isInner
    simp only [firstDone, firstRun]
    rcases materialize_copes complete inside notLowered ready emitted.fits with
      ⟨image, bytes, done, fits⟩ | ⟨failed, problem, isFailed, wide, exceeds⟩
    · simp only [done]
      rcases behind { run := { run with visited := middle }
                      generator := { image, lowered := first.generator.lowered.insert id bytes }
                      handed := id :: first.handed } rfl (fun other => by
            rw [Std.HashMap.contains_insert, Bool.or_eq_true, emitted.lowered, beq_iff_eq, eq_comm])
          (fits.congr fun key => or_assoc) with
        ⟨last, lastDone, lastEmitted⟩ | ⟨last, problem, failed, wide, exceeds⟩
      · refine .inl ⟨last, lastDone, lastEmitted.run, fun other => ?_,
          lastEmitted.fits.congr fun key => by rw [mem_traceKeys_visit]; exact or_assoc⟩
        rw [lastEmitted.lowered, Std.HashMap.contains_insert, Bool.or_eq_true, emitted.lowered,
          leaveOrder_visit, List.mem_append, List.mem_cons, beq_iff_eq]
        constructor
        · rintro ((rfl | old | isInner) | isOuter)
          · exact .inr (.inr (.inl rfl))
          · exact .inl old
          · exact .inr (.inl isInner)
          · exact .inr (.inr (.inr isOuter))
        · rintro (old | isInner | rfl | isOuter)
          · exact .inl (.inr (.inl old))
          · exact .inl (.inr (.inr isInner))
          · exact .inl (.inl rfl)
          · exact .inr isOuter
      · exact .inr ⟨last, problem, failed, wide, exceeds.mono fun key => or_assoc.mp⟩
    · simp only [isFailed]
      refine .inr ⟨_, problem, rfl, wide, exceeds.mono fun key isNeeded => ?_⟩
      rw [or_assoc] at isNeeded
      exact isNeeded.imp_right .inl
  · simp only [failed]
    exact .inr ⟨first, problem, rfl, wide, exceeds.mono fun key isNeeded =>
      isNeeded.imp_right fun isInner => .inl (.inl isInner)⟩

theorem followTrace_emits {arena : Arena} (complete : Complete isField arena) {ids : List BlockIndex}
    {seen after : Std.HashSet BlockIndex} {trace : List Visit}
    (forest : Forest arena ids seen trace after) (inside : ∀ id ∈ ids, id < arena.size)
    {emission : Emission} (sameArena : emission.run.arena = arena)
    (visited : emission.run.visited = seen)
    (below : ∀ id, emission.generator.lowered.contains id = true → seen.contains id = true)
    (fits : Fits testClass emission.generator.image needed) :
    Emits testClass needed trace after emission := by
  induction forest generalizing emission needed with
  | nil seen =>
      refine .inl ⟨emission, rfl, ?_, ?_, ?_⟩
      · rw [← visited]
      · simp [leaveOrder]
      · exact fits.congr fun key => by simp [traceKeys, leaveOrder]
  | skip _ _ ih =>
      exact ih (fun id later => inside id (List.mem_cons_of_mem _ later)) sameArena visited below fits
  | @visit id rest seen middle after inner outer fresh innerForest outerForest innerIh outerIh =>
      subst sameArena visited
      have entered : ∀ other, emission.generator.lowered.contains other = true →
          (emission.run.visited.insert id).contains other = true := by
        intro other isLowered
        simp [below other isLowered]
      have notLowered : emission.generator.lowered.contains id = false := by
        cases isLowered : emission.generator.lowered.contains id with
        | false => rfl
        | true => simp [below id isLowered] at fresh
      have once : id ∉ leaveOrder inner := by
        intro isInner
        simpa using innerForest.distinct.2 id isInner
      have innerEmits : Emits testClass needed inner middle
          { emission with run := emission.run.enter id } :=
        innerIh (fun next isNext => complete.closed id next isNext) rfl rfl entered fits
      refine emits_visit complete (inside id List.mem_cons_self) innerEmits notLowered once
        (fun next isNext => innerForest.covers isNext) fun later sameRun lowered laterFits => ?_
      refine outerIh (fun other isLater => inside other (List.mem_cons_of_mem _ isLater))
        (by rw [sameRun]) (by rw [sameRun]) (fun other isLowered => ?_) laterFits
      rcases (lowered other).mp isLowered with rfl | old | isInner
      · exact innerForest.seen_le (by simp)
      · exact innerForest.seen_le (entered other old)
      · exact (innerForest.seen_iff other).mpr (.inr isInner)

end Assay.Assembly
