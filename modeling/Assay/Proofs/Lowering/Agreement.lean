import Assay.Proofs.Assembly.Calls
import Assay.Proofs.Lowering.Totality

/-!
The two ways to lower an expression agree: the code that pushes the value and the code that branches on
it compute the same value, from any stack and in front of any blocks of any arena.
-/

namespace Assay.Lowering

open Assay.Assembly Assay.Graph Machine Syntax Typing

def Undisturbed (frame : Frame) (callers : List Frame) (world : World) (state : State) : Prop :=
  ∃ stack, state = .running { frame with stack } callers world

/-- In every graph that the lowering grows into, the walk from `root` comes to `target` with its stack
changed to `stack`. Until then it changes nothing but the stack, and it is in blocks numbered from
`bound` on. -/
def Computes (grown : Arena) (bound : Nat) (machine : Machine) (frame : Frame) (callers : List Frame)
    (world : World) (root target : BlockIndex) (stack : List Value) : Prop :=
  ∀ graph, grown.Extends graph →
    Crosses machine graph callers.length (Undisturbed frame callers world) bound
      root (.running frame callers world) target (.running { frame with stack } callers world)

section Surroundings

variable {checker : Checker} {expression : Expression} {arena : Arena} {frame : Frame}
  {world : World} {address : Nat} {object : Object} {store : Store}

/-- Whatever becomes of the value: the lowering succeeds, and its graph does that with the value. -/
theorem lowering_computes (fine : expressionProblems checker expression = [])
    (earlier : Resolution) (destination : Destination) (within : destination.Within arena.size)
    (machine : Machine) (callers : List Frame)
    (receiver : frame.locals[0]? = some (.object address))
    (found : world.object? address = some object) (represents : Represents object store)
    (typed : Typed checker.fieldType? store) {datum : Datum}
    (value : expression.value? store = some datum) :
    ∃ root grown,
      (lowerExpression (earlier.after checker) expression destination).run arena =
        (.ok root, grown) ∧
      match destination with
      | .value next =>
        Computes grown arena.size machine frame callers world root next
          (datum.toValue :: frame.stack)
      | .test yes no => ∀ truth, datum = .boolean truth →
        Computes grown arena.size machine frame callers world root (if truth then yes else no)
          frame.stack := by
  obtain ⟨root, grown, lowered, -⟩ : Builds _ _ arena _ :=
    builds_lowerExpression (resolves_after earlier checker) fine destination within
  let scene (graph : Arena) : Scene :=
    { machine, arena := graph, frame, callers, base := world, address, types := checker.fieldType? }
  have shows : ∀ graph stack,
      (scene graph).state store stack = .running { frame with stack } callers world := by
    intro graph stack
    simp only [Scene.state, scene, World.showing_of_represents found represents]
  have lands : ∀ graph, grown.Extends graph →
      (scene graph).Lands (Undisturbed frame callers world) arena.size store frame.stack datum root
        frame.stack destination := by
    intro graph extended
    have ready : (scene graph).Ready :=
      Scene.ready_of_represents receiver found represents typed
    have calm : ∀ stack, Undisturbed frame callers world ((scene graph).state store stack) :=
      fun stack => ⟨stack, shows graph stack⟩
    exact lowerExpression_lands calm ready typed lowered (Nat.le_refl _) extended value frame.stack
  refine ⟨root, grown, lowered, ?_⟩
  cases destination with
  | value next =>
      intro graph extended
      have moves := lands graph extended
      simp only [Scene.Lands, Scene.Moves, shows] at moves
      exact moves
  | test yes no =>
      intro truth isTruth graph extended
      have moves := lands graph extended truth isTruth
      simp only [Scene.Moves, shows] at moves
      exact moves

/-- An expression without problems has a value of its type. The code that leaves the value on the stack
and the code that branches on it both exist, and both compute it. -/
theorem expression_lowerings_agree (fine : expressionProblems checker expression = [])
    (earlier : Resolution) {next yes no : BlockIndex} (nextInside : next < arena.size)
    (yesInside : yes < arena.size) (noInside : no < arena.size) (machine : Machine)
    (callers : List Frame) (receiver : frame.locals[0]? = some (.object address))
    (found : world.object? address = some object) (represents : Represents object store)
    (typed : Typed checker.fieldType? store) :
    ∃ datum, expression.value? store = some datum ∧ datum.type = typeOf checker expression ∧
      (∃ root grown,
        (lowerExpression (earlier.after checker) expression (.value next)).run arena =
          (.ok root, grown) ∧
        Computes grown arena.size machine frame callers world root next
          (datum.toValue :: frame.stack)) ∧
      (typeOf checker expression = .boolean → ∃ truth root grown, datum = .boolean truth ∧
        (lowerExpression (earlier.after checker) expression (.test yes no)).run arena =
          (.ok root, grown) ∧
        Computes grown arena.size machine frame callers world root (if truth then yes else no)
          frame.stack) := by
  obtain ⟨datum, value, type⟩ := value?_typed typed fine
  have pushes := lowering_computes fine earlier (.value next) nextInside machine callers
    receiver found represents typed value
  refine ⟨datum, value, type, pushes, fun isBoolean => ?_⟩
  obtain ⟨truth, rfl⟩ := boolean_of_type (type.trans isBoolean)
  obtain ⟨root, grown, lowered, branches⟩ := lowering_computes fine earlier (.test yes no)
    ⟨yesInside, noInside⟩ machine callers receiver found represents typed value
  exact ⟨truth, root, grown, rfl, lowered, branches truth rfl⟩

end Surroundings

def offTwice : Expression :=
  .comparison .unknown .equal (.not .unknown (.field .unknown "on"))
    (.and .unknown (.comparison .unknown .lessThan (.int .unknown 1) (.int .unknown 2))
      (.not .unknown (.field .unknown "on")))

def lampFrame : Frame :=
  { image := { name := "", fields := [], pool := .ofEntries #[], routines := #[] }
    routine := default, locals := #[.object 0], stack := [.int 7], offset := 0
    keepsResult := true }

theorem expression_lowerings_agree_lamp :
    let checker := Member.checkerFor .test (check lampClass).type
    let arena := (((Arena.empty 0).newBlock []).1.newBlock []).1
    let machine := Machine.new { id := "", entry := { owner := "", routine := "" }, classes := [] } 0
    expressionProblems checker offTwice = [] ∧ arena.size = 2 ∧
      lampFrame.locals[0]? = some (.object 0) ∧ lampWorld.object? 0 = some lampObject ∧
      Represents lampObject lampStore ∧ Typed checker.fieldType? lampStore ∧
      (∃ root grown,
        (lowerExpression (Resolution.none.after checker) offTwice (.value 0)).run arena =
          (.ok root, grown) ∧
        Computes grown 2 machine lampFrame [] lampWorld root 0 [.int 1, .int 7]) ∧
      ∃ root grown,
        (lowerExpression (Resolution.none.after checker) offTwice (.test 1 0)).run arena =
          (.ok root, grown) ∧
        Computes grown 2 machine lampFrame [] lampWorld root 1 [.int 7] := by
  intro checker arena machine
  have fine : expressionProblems checker offTwice = [] := rfl
  have accepted : Accepted lampClass := accepted_of_no_errors rfl
  have typed : Typed checker.fieldType? lampStore := by
    rw [accepted.fieldType? .test]
    exact lampStore_typed
  have isValue : offTwice.value? lampStore = some (.boolean true) := rfl
  have zeroInside : 0 < arena.size := by decide
  have oneInside : 1 < arena.size := by decide
  have receiver : lampFrame.locals[0]? = some (.object 0) := rfl
  have found : lampWorld.object? 0 = some lampObject := rfl
  obtain ⟨datum, value, -, pushes, branches⟩ := expression_lowerings_agree fine .none zeroInside
    oneInside zeroInside machine [] receiver found lampObject_represents typed
  obtain rfl : datum = .boolean true := Option.some.inj (value.symm.trans isValue)
  obtain ⟨truth, root, grown, isTruth, lowered, computes⟩ := branches rfl
  obtain rfl : true = truth := Datum.boolean.inj isTruth
  exact ⟨fine, rfl, receiver, found, lampObject_represents, typed, pushes, root, grown, lowered,
    computes⟩

end Assay.Lowering
