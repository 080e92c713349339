import Assay.Assembly.Harness
import Assay.Proofs.Bytecode.Decoding
import Assay.Proofs.Bytecode.Interning
import Assay.Proofs.Graph.Extension

/-!
What a generator has lowered: the bytes of each block encode the instructions of the block, with
operands that name the right constants of the pool, whatever the generator did in between.
-/

namespace Assay.Assembly

open Bytecode Assay.Graph

inductive Assembled : Constant → Prop
  | int (value : Int64) : Assembled (.ofInt value)
  | string (value : String) : Assembled (.ofString value)
  | method (value : MethodRef) : Assembled (.ofMethod value)
  | nanosPerMilli : Assembled (.ofFloat nanosPerMilli)

/-- An entry that stands for a constant: the constant itself, or a method of the same text. -/
inductive StandsFor : Constant → Constant → Prop
  | same (constant : Constant) : StandsFor constant constant
  | method {entry method : MethodRef} : entry.text = method.text →
      StandsFor (.ofMethod entry) (.ofMethod method)

theorem key?_nanosPerMilli : (Constant.ofFloat nanosPerMilli).key? =
    some { kind := 2, int := 0, float := nanosPerMilli.toBits, text := "" } := by
  have self : (nanosPerMilli == nanosPerMilli) = true := by decide
  have nonzero : (nanosPerMilli == 0) = false := by decide
  simp [Constant.key?, Constant.ofFloat, self, nonzero, ConstantKind.toCode]

theorem Assembled.standsFor {entry constant : Constant} (first : Assembled entry)
    (second : Assembled constant) (same : entry.key? = constant.key?) :
    StandsFor entry constant := by
  cases first <;> cases second <;>
    simp only [key?_ofInt, key?_ofString, key?_ofMethod, key?_nanosPerMilli, Option.some.injEq,
      ConstantKey.mk.injEq] at same
  case int.int => rw [same.2.1]; exact .same _
  case string.string => rw [same.2.2.2]; exact .same _
  case method.method => exact .method same.2.2.2
  case nanosPerMilli.nanosPerMilli => exact .same _
  all_goals exact absurd same.1 (by decide)

structure PoolSound (pool : ConstantPool) : Prop where
  indexed : pool.Indexed
  assembled : ∀ entry ∈ pool.entries, Assembled entry

theorem PoolSound.empty : PoolSound ConstantPool.empty :=
  ⟨ConstantPool.indexed_empty, fun entry member => by simp [ConstantPool.empty] at member⟩

structure Grows (before after : ClassImage) : Prop where
  name : after.name = before.name
  fields : after.fields = before.fields
  routines : after.routines = before.routines
  retains : Retains before.constants after.constants
  sound : PoolSound after.pool

theorem Grows.refl {image : ClassImage} (sound : PoolSound image.pool) : Grows image image :=
  ⟨rfl, rfl, rfl, Retains.refl _, sound⟩

theorem Grows.trans {first second third : ClassImage} (earlier : Grows first second)
    (later : Grows second third) : Grows first third where
  name := later.name.trans earlier.name
  fields := later.fields.trans earlier.fields
  routines := later.routines.trans earlier.routines
  retains := earlier.retains.trans later.retains
  sound := later.sound

theorem intern_grows {image : ClassImage} {constant : Constant} (sound : PoolSound image.pool)
    (assembled : Assembled constant) :
    Grows image (image.intern constant).1 ∧
      ∃ entry, (image.intern constant).1.constants[(image.intern constant).2]? = some entry ∧
        StandsFor entry constant := by
  have interned := ConstantPool.intern_interned sound.indexed constant
  obtain ⟨entry, found, origin⟩ := interned.entry
  constructor
  · refine ⟨rfl, rfl, rfl, interned.retains, interned.indexed, ?_⟩
    intro entry member
    rcases interned.nothingElse entry member with old | rfl
    · exact sound.assembled entry old
    · exact assembled
  · refine ⟨entry, found, ?_⟩
    rcases origin with rfl | ⟨member, sameKey⟩
    · exact .same _
    · exact (sound.assembled entry member).standsFor assembled sameKey

inductive Lowers (constants : Array Constant) : Instruction → Opcode → List Int → Prop
  | const {value : Int64} {index : Nat} : constants[index]? = some (.ofInt value) →
      Lowers constants (.const value) .pushConstant [(index : Int)]
  | newString {text : String} {index : Nat} : constants[index]? = some (.ofString text) →
      Lowers constants (.newString text) .pushConstant [(index : Int)]
  | load (slot : Int) : Lowers constants (.load slot) .load [slot]
  | getField {owner field : String} {index : Nat} : constants[index]? = some (.ofString field) →
      Lowers constants (.getField owner field) .getField [(index : Int)]
  | putField {owner field : String} {index : Nat} : constants[index]? = some (.ofString field) →
      Lowers constants (.putField owner field) .setField [(index : Int)]
  | arithmetic (operator : Arithmetic) :
      Lowers constants (.arithmetic operator) (arithmeticOpcode operator) []
  | virtualCall {owner name : String} {args : Int} {returns : ValueKind} {kind : Kind}
      {entry : MethodRef} {index : Nat} : kindOf returns = .ok kind →
      constants[index]? = some (.ofMethod entry) →
      entry.text = MethodRef.text { owner, name, args, returns := kind } →
      Lowers constants (.virtualCall owner name args returns) .invokeVirtual [(index : Int)]
  | ret (kind : ValueKind) :
      Lowers constants (.ret kind) (if kind = .void then .ret else .retValue) []

theorem Lowers.retained {before after : Array Constant} {instruction : Instruction}
    {opcode : Opcode} {operands : List Int} (lowers : Lowers before instruction opcode operands)
    (retains : Retains before after) : Lowers after instruction opcode operands := by
  cases lowers with
  | const found => exact .const (retains _ _ found)
  | newString found => exact .newString (retains _ _ found)
  | load slot => exact .load slot
  | getField found => exact .getField (retains _ _ found)
  | putField found => exact .putField (retains _ _ found)
  | arithmetic operator => exact .arithmetic operator
  | virtualCall known found sameText => exact .virtualCall known (retains _ _ found) sameText
  | ret kind => exact .ret kind

inductive Encodes (constants : Array Constant) : List Instruction → List UInt8 → Prop
  | nil : Encodes constants [] []
  | cons {instruction : Instruction} {rest : List Instruction} {opcode : Opcode}
      {operands : List Int} {bytes restBytes : List UInt8} :
      Lowers constants instruction opcode operands → encode opcode operands = .ok bytes →
      Encodes constants rest restBytes →
      Encodes constants (instruction :: rest) (bytes ++ restBytes)

theorem Encodes.retained {before after : Array Constant} {code : List Instruction}
    {bytes : List UInt8} (encodes : Encodes before code bytes) (retains : Retains before after) :
    Encodes after code bytes := by
  induction encodes with
  | nil => exact .nil
  | cons lowers encoded _ ih => exact .cons (lowers.retained retains) encoded ih

theorem mapError_ok {α ε ε' : Type} {f : ε → ε'} {result : Except ε α} {value : α}
    (done : result.mapError f = .ok value) : result = .ok value := by
  cases result with
  | error problem => simp [Except.mapError] at done
  | ok found => simpa [Except.mapError] using done

theorem constantInstruction_grows {image : ClassImage} (opcode : Opcode) {constant : Constant}
    (sound : PoolSound image.pool) (assembled : Assembled constant) :
    Grows image (constantInstruction image opcode constant).1 ∧
      ∀ bytes, (constantInstruction image opcode constant).2 = .ok bytes →
        ∃ index : Nat, encode opcode [(index : Int)] = .ok bytes ∧
          ∃ entry, (constantInstruction image opcode constant).1.constants[index]? = some entry ∧
            StandsFor entry constant := by
  obtain ⟨grows, entry, found, stands⟩ := intern_grows sound assembled
  refine ⟨grows, ?_⟩
  intro bytes encoded
  exact ⟨_, mapError_ok encoded, entry, found, stands⟩

theorem StandsFor.eq_of_no_method {entry constant : Constant} (stands : StandsFor entry constant)
    (noMethod : constant.method = none) : entry = constant := by
  cases stands with
  | same => rfl
  | method => simp [Constant.ofMethod] at noMethod

theorem StandsFor.method_of_method {entry : Constant} {method : MethodRef}
    (stands : StandsFor entry (.ofMethod method)) :
    ∃ found : MethodRef, entry = .ofMethod found ∧ found.text = method.text := by
  generalize same : Constant.ofMethod method = constant at stands
  cases stands with
  | same => exact ⟨method, same.symm, rfl⟩
  | @method found other sameText =>
      simp only [Constant.ofMethod, Constant.mk.injEq, Option.some.injEq, true_and] at same
      exact ⟨found, rfl, by rw [sameText, same]⟩

theorem lowerInstruction_lowers {image : ClassImage} (instruction : Instruction)
    (sound : PoolSound image.pool) :
    Grows image (lowerInstruction image instruction).1 ∧
      ∀ bytes, (lowerInstruction image instruction).2 = .ok bytes →
        ∃ opcode operands, encode opcode operands = .ok bytes ∧
          Lowers (lowerInstruction image instruction).1.constants instruction opcode operands := by
  cases instruction with
  | const value =>
      obtain ⟨grows, lowered⟩ := constantInstruction_grows .pushConstant sound (.int value)
      refine ⟨grows, fun bytes done => ?_⟩
      obtain ⟨index, encoded, entry, found, stands⟩ := lowered bytes done
      obtain rfl := stands.eq_of_no_method rfl
      exact ⟨_, _, encoded, .const found⟩
  | newString text =>
      obtain ⟨grows, lowered⟩ := constantInstruction_grows .pushConstant sound (.string text)
      refine ⟨grows, fun bytes done => ?_⟩
      obtain ⟨index, encoded, entry, found, stands⟩ := lowered bytes done
      obtain rfl := stands.eq_of_no_method rfl
      exact ⟨_, _, encoded, .newString found⟩
  | load slot => exact ⟨Grows.refl sound, fun bytes done => ⟨_, _, mapError_ok done, .load slot⟩⟩
  | getField owner field =>
      obtain ⟨grows, lowered⟩ := constantInstruction_grows .getField sound (.string field)
      refine ⟨grows, fun bytes done => ?_⟩
      obtain ⟨index, encoded, entry, found, stands⟩ := lowered bytes done
      obtain rfl := stands.eq_of_no_method rfl
      exact ⟨_, _, encoded, .getField found⟩
  | putField owner field =>
      obtain ⟨grows, lowered⟩ := constantInstruction_grows .setField sound (.string field)
      refine ⟨grows, fun bytes done => ?_⟩
      obtain ⟨index, encoded, entry, found, stands⟩ := lowered bytes done
      obtain rfl := stands.eq_of_no_method rfl
      exact ⟨_, _, encoded, .putField found⟩
  | arithmetic operator =>
      exact ⟨Grows.refl sound, fun bytes done => ⟨_, _, mapError_ok done, .arithmetic operator⟩⟩
  | virtualCall owner name args returns =>
      cases known : kindOf returns with
      | error problem =>
          simp only [lowerInstruction, known]
          exact ⟨Grows.refl sound, fun bytes done => by simp at done⟩
      | ok kind =>
          simp only [lowerInstruction, known]
          obtain ⟨grows, lowered⟩ := constantInstruction_grows .invokeVirtual sound
            (.method { owner, name, args, returns := kind })
          refine ⟨grows, fun bytes done => ?_⟩
          obtain ⟨index, encoded, entry, found, stands⟩ := lowered bytes done
          obtain ⟨method, rfl, sameText⟩ := stands.method_of_method
          exact ⟨_, _, encoded, .virtualCall known found sameText⟩
  | ret kind => exact ⟨Grows.refl sound, fun bytes done => ⟨_, _, mapError_ok done, .ret kind⟩⟩
  | unknown code => exact ⟨Grows.refl sound, fun bytes done => by simp [lowerInstruction] at done⟩

theorem lowerCode_encodes (summary : BlockSummary) (isExit : Bool) (code : List Instruction)
    {image : ClassImage} (start : Array UInt8) (sound : PoolSound image.pool) :
    Grows image (lowerCode summary isExit code image start).1 ∧
      ∀ bytes, (lowerCode summary isExit code image start).2 = .ok bytes →
        ∃ added, bytes.toList = start.toList ++ added ∧
          Encodes (lowerCode summary isExit code image start).1.constants code added := by
  induction code generalizing image start with
  | nil =>
      refine ⟨Grows.refl sound, fun bytes done => ⟨[], ?_, .nil⟩⟩
      simp only [lowerCode, Except.ok.injEq] at done
      simp [done]
  | cons instruction rest ih =>
      obtain ⟨grows, lowered⟩ := lowerInstruction_lowers instruction sound
      simp only [lowerCode]
      split
      · exact ⟨Grows.refl sound, fun bytes done => by simp at done⟩
      · rcases step : lowerInstruction image instruction with ⟨grown, problem | encoded⟩
        · rw [step] at grows
          exact ⟨grows, fun bytes done => by simp at done⟩
        · rw [step] at grows lowered
          obtain ⟨opcode, operands, encodedBy, lowers⟩ := lowered encoded rfl
          obtain ⟨restGrows, restLowered⟩ := ih (start ++ encoded.toArray) grows.sound
          refine ⟨grows.trans restGrows, fun bytes done => ?_⟩
          obtain ⟨added, sameBytes, encodes⟩ := restLowered bytes done
          refine ⟨encoded ++ added, by simp [sameBytes], ?_⟩
          exact .cons (lowers.retained restGrows.retains) encodedBy encodes

/-- What is known about a block with lowered code: the code is that of the block, and an exit block
returns. -/
def Materialized (arena : Arena) (constants : Array Constant) (id : BlockIndex)
    (bytes : Array UInt8) : Prop :=
  ∃ block, arena.get? id = some block ∧ Encodes constants block.code bytes.toList ∧
    (block.transfer = .exit → endsWithReturn block.code = true)

theorem Materialized.later {before after : Arena} {constants more : Array Constant} {id : BlockIndex}
    {bytes : Array UInt8} (materialized : Materialized before constants id bytes)
    (extended : before.Extends after) (retains : Retains constants more) :
    Materialized after more id bytes := by
  obtain ⟨block, found, encodes, returns⟩ := materialized
  obtain ⟨later, laterFound, sameCode, sameTransfer⟩ := extended id block found
  refine ⟨later, laterFound, by rw [sameCode]; exact encodes.retained retains, fun exits => ?_⟩
  rw [sameCode]
  apply returns
  by_cases left : block.transfer = .exit
  · exact left
  · rw [← sameTransfer left, exits]

namespace Generator

structure Sound (generator : Generator) (arena : Arena) : Prop where
  pool : PoolSound generator.image.pool
  lowered : ∀ (id : BlockIndex) (bytes : Array UInt8), generator.lowered[id]? = some bytes →
    Materialized arena generator.image.constants id bytes

theorem Sound.extended {generator : Generator} {before after : Arena}
    (sound : generator.Sound before) (extended : before.Extends after) : generator.Sound after where
  pool := sound.pool
  lowered := fun id bytes found => (sound.lowered id bytes found).later extended (Retains.refl _)

theorem Sound.grown {generator : Generator} {arena : Arena} {image : ClassImage}
    (sound : generator.Sound arena) (grows : Grows generator.image image) :
    ({ generator with image } : Generator).Sound arena where
  pool := grows.sound
  lowered := fun id bytes found =>
    (sound.lowered id bytes found).later (Arena.Extends.refl _) grows.retains

/-- A block of an arena may be lowered; what was lowered before stays. -/
theorem materialize_sound {generator : Generator} {arena : Arena} (visited : Std.HashSet BlockIndex)
    (id : BlockIndex) (sound : generator.Sound arena) :
    Grows generator.image (generator.materialize arena visited id).1.image ∧
      (generator.materialize arena visited id).1.Sound arena := by
  simp only [materialize]
  split
  · exact ⟨Grows.refl sound.pool, sound⟩
  · generalize found : (arena.get? id).getD { id, code := [], transfer := .exit, incoming := 0 } = block
    split
    · exact ⟨Grows.refl sound.pool, sound⟩
    · obtain ⟨grows, lowered⟩ :=
        lowerCode_encodes (block.summary) block.isExit block.code #[] sound.pool
      rcases result : lowerCode (block.summary) block.isExit block.code generator.image #[] with
        ⟨image, problem | bytes⟩
      · rw [result] at grows
        exact ⟨grows, sound.grown grows⟩
      · rw [result] at grows lowered
        obtain ⟨added, sameBytes, encodes⟩ := lowered bytes rfl
        dsimp only
        split
        · exact ⟨grows, sound.grown grows⟩
        · rename_i noReturn
          have present : arena.get? id = some block := by
            cases stored : arena.get? id with
            | some held => simpa [stored] using found
            | none =>
                rw [stored, Option.getD_none] at found
                subst found
                exact absurd rfl noReturn
          refine ⟨grows, grows.sound, ?_⟩
          intro other otherBytes otherFound
          rw [Std.HashMap.getElem?_insert] at otherFound
          split at otherFound
          · rename_i same
            obtain rfl := beq_iff_eq.mp same
            obtain rfl := Option.some.inj otherFound
            refine ⟨block, present, by simpa [sameBytes] using encodes, fun exits => ?_⟩
            simpa [Block.isExit, Transfer.isExit, exits] using noReturn
          · exact (sound.grown grows).lowered other otherBytes otherFound

end Generator

/-- A generator together with an arena that may grow while its blocks are lowered one by one. An
attempt that fails counts as well. -/
inductive Generated : Arena → Generator → Prop
  | start (arena : Arena) (name : String) : Generated arena (Generator.new name)
  | extend {arena later : Arena} {generator : Generator} : Generated arena generator →
      arena.Extends later → Generated later generator
  | materialize {arena : Arena} {generator : Generator} (visited : Std.HashSet BlockIndex)
      (id : BlockIndex) : Generated arena generator →
      Generated arena (generator.materialize arena visited id).1
  | addRoutine {arena : Arena} {generator grown : Generator} {name : String} {params : Int}
      {returns : Kind} {root : BlockIndex} {routine : Routine} : Generated arena generator →
      generator.addRoutine arena name params returns root = .ok (grown, routine) →
      Generated arena grown

theorem Generator.addRoutine_ok {generator grown : Generator} {arena : Arena} {name : String}
    {params : Int} {returns : Kind} {root : BlockIndex} {routine : Routine}
    (added : generator.addRoutine arena name params returns root = .ok (grown, routine)) :
    ∃ code, linearize generator arena root = .ok code ∧
      routine = { name, isStatic := true, params, locals := params, returns, code } ∧
      generator.image.routine? name = none ∧
      grown = { generator with
        image := { generator.image with routines := generator.image.routines.push routine } } := by
  simp only [Generator.addRoutine] at added
  cases linearized : linearize generator arena root with
  | error problem => simp [linearized, bind, Except.bind] at added
  | ok code =>
      simp only [linearized, bind, Except.bind, ClassImage.addRoutine?] at added
      split at added
      · rename_i image absent
        split at absent
        · simp at absent
        · rename_i free
          simp only [pure, Except.pure, Except.ok.injEq, Prod.mk.injEq] at added
          obtain ⟨rfl, rfl⟩ := added
          refine ⟨code, rfl, rfl, by simpa using free, ?_⟩
          rw [← Option.some.inj absent]
      · simp [throw, throwThe, MonadExceptOf.throw] at added

theorem Generated.sound {arena : Arena} {generator : Generator}
    (generated : Generated arena generator) : generator.Sound arena := by
  induction generated with
  | start arena name =>
      exact ⟨PoolSound.empty, fun id bytes found => by simp [Generator.new] at found⟩
  | extend _ extended ih => exact ih.extended extended
  | materialize visited id _ ih => exact (Generator.materialize_sound visited id ih).2
  | addRoutine _ added ih =>
      obtain ⟨code, _, _, _, rfl⟩ := Generator.addRoutine_ok added
      exact ⟨ih.pool, ih.lowered⟩

end Assay.Assembly
