import Assay.Proofs.Syntax.Tours

/-!
What a traversal tells its handlers. Whatever they answer, the calls that are made are those of the tour
without what was pruned, up to the call whose answer ends the traversal.
-/

namespace Assay.Syntax

variable {σ : Type} {before after : Option (Handler σ)}

def handlerFor (before after : Option (Handler σ)) : Bool → Option (Handler σ)
  | false => before
  | true => after

structure Answer where
  visit : NodeVisit
  action : Action
deriving DecidableEq, Repr

inductive Answers (before after : Option (Handler σ)) : σ → List Answer → σ → Prop
  | nil {state : σ} : Answers before after state [] state
  | cons {handle : Handler σ} {state next last : σ} {visit : NodeVisit} {action : Action}
      {rest : List Answer} : handlerFor before after visit.call.after = some handle →
      handle state visit.call = (next, action) → Answers before after next rest last →
      Answers before after state ({ visit, action } :: rest) last

def Action.halt? : Action → Option Halt
  | stop => some .stopped
  | fail error => some (.failed error)
  | _ => none

def prunedSites (log : List Answer) : List Site :=
  (log.filter fun answer => answer.action = .prune ∧ answer.visit.call.after = false).map
    (·.visit.site)

/-- The visit is of a node below the site, or the second one of the node there. -/
def LeftOut (pruned : Site) (visit : NodeVisit) : Prop :=
  pruned <+: visit.site ∧ (visit.site = pruned → visit.call.after = true)

instance (pruned : Site) (visit : NodeVisit) : Decidable (LeftOut pruned visit) :=
  inferInstanceAs (Decidable (_ ∧ _))

def remaining (before after : Option (Handler σ)) (pruned : List Site) (tour : List NodeVisit) :
    List NodeVisit :=
  tour.filter fun visit => (handlerFor before after visit.call.after).isSome ∧
    ∀ site ∈ pruned, ¬LeftOut site visit

/-- The calls that were made, when a traversal of the tour ended so. -/
inductive Traverses (before after : Option (Handler σ)) (tour : List NodeVisit) :
    List Answer → Option Halt → Prop
  | finished {log : List Answer} : (∀ answer ∈ log, answer.action.halt? = none) →
      log.map Answer.visit = remaining before after (prunedSites log) tour →
      Traverses before after tour log none
  | halted {earlier : List Answer} {last : Answer} {halt : Halt} :
      (∀ answer ∈ earlier, answer.action.halt? = none) → last.action.halt? = some halt →
      (earlier ++ [last]).map Answer.visit <+:
        remaining before after (prunedSites (earlier ++ [last])) tour →
      Traverses before after tour (earlier ++ [last]) (some halt)

section Logs

variable {first second log : List Answer} {state next last : σ} {tour later : List NodeVisit}
  {halt : Option Halt}

theorem Answers.append (answers : Answers before after state first next)
    (others : Answers before after next second last) :
    Answers before after state (first ++ second) last := by
  induction answers with
  | nil => exact others
  | cons known answered _ ih => exact .cons known answered (ih others)

theorem prunedSites_append (first second : List Answer) :
    prunedSites (first ++ second) = prunedSites first ++ prunedSites second := by
  simp [prunedSites]

theorem remaining_append (pruned : List Site) (tour later : List NodeVisit) :
    remaining before after pruned (tour ++ later) =
      remaining before after pruned tour ++ remaining before after pruned later :=
  List.filter_append ..

theorem remaining_congr {pruned more : List Site} (same : ∀ visit ∈ tour,
    (∀ site ∈ pruned, ¬LeftOut site visit) ↔ ∀ site ∈ more, ¬LeftOut site visit) :
    remaining before after pruned tour = remaining before after more tour :=
  List.filter_congr fun visit isVisit => by simp only [same visit isVisit]

theorem mem_prunedSites {site : Site} :
    site ∈ prunedSites log ↔ ∃ answer ∈ log, answer.action = .prune ∧
      answer.visit.call.after = false ∧ answer.visit.site = site := by
  simp [prunedSites, and_assoc]

theorem Traverses.visits_subset (traverses : Traverses before after tour log halt) {answer : Answer}
    (isAnswer : answer ∈ log) : answer.visit ∈ tour := by
  have inside : answer.visit ∈ log.map Answer.visit := List.mem_map_of_mem isAnswer
  cases traverses with
  | finished _ complete =>
      rw [complete] at inside
      exact (List.mem_filter.mp inside).1
  | halted _ _ upTo => exact (List.mem_filter.mp (upTo.subset inside)).1

theorem Traverses.pruned_subset (traverses : Traverses before after tour log halt) {site : Site}
    (isPruned : site ∈ prunedSites log) :
    ∃ visit ∈ tour, visit.site = site ∧ visit.call.after = false := by
  obtain ⟨answer, isAnswer, -, enters, rfl⟩ := mem_prunedSites.mp isPruned
  exact ⟨answer.visit, traverses.visits_subset isAnswer, rfl, enters⟩

theorem Traverses.stays (traverses : Traverses before after tour log halt) (ended : halt ≠ none)
    (later : List NodeVisit) : Traverses before after (tour ++ later) log halt := by
  cases traverses with
  | finished => exact absurd rfl ended
  | halted goesOn ends upTo =>
      refine .halted goesOn ends (upTo.trans ?_)
      rw [remaining_append]
      exact List.prefix_append _ _

theorem Traverses.append (traverses : Traverses before after tour first none)
    (continues : Traverses before after later second halt)
    (apart : ∀ visit ∈ tour, ∀ site ∈ prunedSites second, ¬LeftOut site visit)
    (apartLater : ∀ visit ∈ later, ∀ site ∈ prunedSites first, ¬LeftOut site visit) :
    Traverses before after (tour ++ later) (first ++ second) halt := by
  have split : remaining before after (prunedSites (first ++ second)) (tour ++ later) =
      remaining before after (prunedSites first) tour ++
        remaining before after (prunedSites second) later := by
    rw [remaining_append, prunedSites_append]
    congr 1
    · refine remaining_congr fun visit isVisit => ?_
      rw [List.forall_mem_append]
      exact and_iff_left (apart visit isVisit)
    · refine remaining_congr fun visit isVisit => ?_
      rw [List.forall_mem_append]
      exact and_iff_right (apartLater visit isVisit)
  obtain ⟨goesOn, complete⟩ : (∀ answer ∈ first, answer.action.halt? = none) ∧
      first.map Answer.visit = remaining before after (prunedSites first) tour := by
    cases traverses with
    | finished goesOn complete => exact ⟨goesOn, complete⟩
  cases continues with
  | finished goesOnToo completeToo =>
      refine .finished (List.forall_mem_append.mpr ⟨goesOn, goesOnToo⟩) ?_
      rw [split, List.map_append, complete, completeToo]
  | halted goesOnToo ends upTo =>
      rw [← List.append_assoc] at split ⊢
      refine .halted (List.forall_mem_append.mpr ⟨goesOn, goesOnToo⟩) ends ?_
      rw [split, List.append_assoc, List.map_append, complete]
      exact (List.prefix_append_right_inj _).mpr upTo

def Answer.inPart (index : Nat) (answer : Answer) : Answer :=
  { answer with visit := answer.visit.inPart index }

theorem Answers.inPart (index : Nat) (answers : Answers before after state log last) :
    Answers before after state (log.map (Answer.inPart index)) last := by
  induction answers with
  | nil => exact .nil
  | @cons handle _ _ _ visit _ _ known answered _ ih =>
      have inside : handlerFor before after (visit.inPart index).call.after = some handle := known
      exact .cons inside answered ih

theorem prunedSites_inPart (index : Nat) (log : List Answer) :
    prunedSites (log.map (Answer.inPart index)) = (prunedSites log).map (index :: ·) := by
  rw [prunedSites, List.filter_map, List.map_map, prunedSites, List.map_map]
  rfl

theorem leftOut_inPart {index : Nat} {site : Site} {visit : NodeVisit} :
    LeftOut (index :: site) (visit.inPart index) ↔ LeftOut site visit := by
  simp [LeftOut, NodeVisit.inPart]

theorem remaining_inPart (index : Nat) (pruned : List Site) (tour : List NodeVisit) :
    remaining before after (pruned.map (index :: ·)) (tour.map (NodeVisit.inPart index)) =
      (remaining before after pruned tour).map (NodeVisit.inPart index) := by
  rw [remaining, List.filter_map]
  refine congrArg (List.map _) (List.filter_congr fun visit _ => ?_)
  simp only [Function.comp_apply, List.forall_mem_map, leftOut_inPart]
  rfl

theorem Traverses.inPart (index : Nat) (traverses : Traverses before after tour log halt) :
    Traverses before after (tour.map (NodeVisit.inPart index)) (log.map (Answer.inPart index)) halt := by
  have visits : ∀ log : List Answer, (log.map (Answer.inPart index)).map Answer.visit =
      (log.map Answer.visit).map (NodeVisit.inPart index) := fun log => by
    simp [Function.comp_def, Answer.inPart]
  cases traverses with
  | finished goesOn complete =>
      refine .finished (by simpa [Answer.inPart] using goesOn) ?_
      rw [visits, complete, prunedSites_inPart, remaining_inPart]
  | @halted earlier last _ goesOn ends upTo =>
      have shape : (earlier ++ [last]).map (Answer.inPart index) =
          earlier.map (Answer.inPart index) ++ [last.inPart index] := by simp
      rw [shape]
      refine .halted (by simpa [Answer.inPart] using goesOn) ends ?_
      rw [← shape, visits, prunedSites_inPart, remaining_inPart]
      exact upTo.map _

theorem Traverses.leavesOut (traverses : Traverses before after tour log none)
    (leftOut : ∀ visit ∈ later, ∃ site ∈ prunedSites log, LeftOut site visit) :
    Traverses before after (tour ++ later) log none := by
  cases traverses with
  | finished goesOn complete =>
      refine .finished goesOn ?_
      have nothing : remaining before after (prunedSites log) later = [] := by
        refine List.filter_eq_nil_iff.mpr fun visit isVisit => ?_
        obtain ⟨site, isPruned, isLeftOut⟩ := leftOut visit isVisit
        simp only [decide_eq_true_eq, not_and, not_forall, not_not]
        exact fun _ => ⟨site, isPruned, isLeftOut⟩
      rw [remaining_append, nothing, List.append_nil, complete]

end Logs

section Walk

variable {parent : Option Node} {chain : List (Option Node)}

def ask (handler : Option (Handler σ)) (state : σ) (call : Call) : σ × Action :=
  match handler with
  | some handle => handle state call
  | none => (state, .proceed)

theorem ask_traverses {visit : NodeVisit} {state next : σ} {action : Action}
    (asked : ask (handlerFor before after visit.call.after) state visit.call = (next, action)) :
    ∃ log, Answers before after state log next ∧ Traverses before after [visit] log action.halt? ∧
      prunedSites log = if action = .prune ∧ visit.call.after = false then [visit.site] else [] := by
  cases known : handlerFor before after visit.call.after with
  | none =>
      rw [known] at asked
      cases asked
      refine ⟨[], .nil, .finished (by simp) ?_, by simp [prunedSites]⟩
      simp [remaining, known]
  | some handle =>
      rw [known] at asked
      have answered : handle state visit.call = (next, action) := asked
      have pruned : prunedSites [{ visit, action }] =
          if action = .prune ∧ visit.call.after = false then [visit.site] else [] := by
        by_cases prunes : action = .prune ∧ visit.call.after = false
        · simp [prunedSites, prunes]
        · rw [if_neg prunes, prunedSites, List.filter_cons_of_neg (by simpa using prunes)]
          rfl
      have present : remaining before after (prunedSites [{ visit, action }]) [visit] = [visit] := by
        refine List.filter_eq_self.mpr ?_
        simp only [List.mem_singleton, forall_eq, known, Option.isSome_some, true_and, decide_eq_true_eq,
          pruned]
        intro site isPruned
        split at isPruned
        · rename_i prunes
          rw [List.mem_singleton.mp isPruned]
          rintro ⟨-, leaves⟩
          rw [prunes.2] at leaves
          exact absurd (leaves rfl) (by decide)
        · simp at isPruned
      refine ⟨[{ visit, action }], .cons known answered .nil, ?_, pruned⟩
      cases ends : action.halt? with
      | none => exact .finished (by simpa using ends) present.symm
      | some halt =>
          let answer : Answer := { visit, action }
          have alone : [answer] = [] ++ [answer] := rfl
          have ended : answer.action.halt? = some halt := ends
          have upTo : ([] ++ [answer]).map Answer.visit <+:
              remaining before after (prunedSites ([] ++ [answer])) [visit] := by
            rw [List.nil_append, present]
            exact List.prefix_rfl
          exact alone ▸ .halted (by simp) ended upTo

variable {label : Node} {children : List Tree} {state next last final : σ} {action : Action} {halt : Halt}

theorem Tree.walk_entered (entered : ask before state
      { node := label, parent, chain := chain ++ [parent], after := false } = (next, action))
    (stays : action ≠ .proceed) :
    (Tree.node label children).walk before after parent chain state = (next, action.halt?) := by
  cases before <;> cases action <;> simp_all [ask, Tree.walk.eq_def, Action.halt?]

theorem Tree.walk_below (entered : ask before state
      { node := label, parent, chain := chain ++ [parent], after := false } = (next, .proceed))
    (below : walkAll before after label (chain ++ [parent]) children next = (last, some halt)) :
    (Tree.node label children).walk before after parent chain state = (last, some halt) := by
  cases before <;> simp_all [ask, Tree.walk.eq_def]

theorem Tree.walk_left (entered : ask before state
      { node := label, parent, chain := chain ++ [parent], after := false } = (next, .proceed))
    (below : walkAll before after label (chain ++ [parent]) children next = (last, none))
    (left : ask after last
      { node := label, parent, chain := chain ++ [parent], after := true } = (final, action)) :
    (Tree.node label children).walk before after parent chain state = (final, action.halt?) := by
  cases before <;> cases after <;> cases action <;> simp_all [ask, Tree.walk.eq_def, Action.halt?]

theorem site_of_mem_tourAll {parent : Node} {index : Nat} {children : List Tree} {visit : NodeVisit}
    (isVisit : visit ∈ tourAll parent chain index children) :
    ∃ number rest, index ≤ number ∧ visit.site = number :: rest := by
  rw [tourAll_eq] at isVisit
  obtain ⟨⟨child, number⟩, isChild, inside⟩ := List.mem_flatMap.mp isVisit
  obtain ⟨inner, -, rfl⟩ := List.mem_map.mp inside
  exact ⟨number, inner.site, List.le_snd_of_mem_zipIdx isChild, rfl⟩

mutual

/-- The calls of a traversal of a tree are those of its tour. -/
theorem Tree.walk_traverses (parent : Option Node) (chain : List (Option Node)) : ∀ (tree : Tree)
    (state : σ), ∃ log, Answers before after state log (tree.walk before after parent chain state).1 ∧
      Traverses before after (tree.tour parent chain) log
        (tree.walk before after parent chain state).2
  | .node label children, state => by
    let enter : NodeVisit :=
      { site := [], call := { node := label, parent, chain := chain ++ [parent], after := false } }
    let leave : NodeVisit :=
      { site := [], call := { node := label, parent, chain := chain ++ [parent], after := true } }
    have whole : (Tree.node label children).tour parent chain =
        [enter] ++ (tourAll label (chain ++ [parent]) 0 children ++ [leave]) := Tree.tour.eq_def ..
    rcases entered : ask before state enter.call with ⟨next, action⟩
    have asked : ask (handlerFor before after enter.call.after) state enter.call = (next, action) := entered
    obtain ⟨log, answers, entering, pruned⟩ := ask_traverses asked
    by_cases goesOn : action = .proceed
    · subst goesOn
      have nothing : prunedSites log = [] := by simpa using pruned
      obtain ⟨inner, answersBelow, below⟩ :=
        walkAll_traverses label (chain ++ [parent]) 0 children next
      rcases ran : walkAll before after label (chain ++ [parent]) children next with ⟨last, halt⟩
      rw [ran] at answersBelow below
      -- What is pruned below the node has nothing to do with the node itself.
      have apart : ∀ visit : NodeVisit, visit.site = [] →
          ∀ site ∈ prunedSites inner, ¬LeftOut site visit := by
        intro visit atRoot site isPruned isLeftOut
        obtain ⟨other, isVisit, rfl, -⟩ := below.pruned_subset isPruned
        obtain ⟨number, rest, -, atSite⟩ := site_of_mem_tourAll isVisit
        have inside := isLeftOut.1
        rw [atRoot, atSite] at inside
        exact absurd inside.length_le (by simp)
      have both := entering.append below
        (fun visit isEnter => apart visit (by rw [List.mem_singleton.mp isEnter]))
        (by simp [nothing])
      cases halt with
      | some halt =>
          rw [Tree.walk_below entered ran, whole, ← List.append_assoc]
          exact ⟨log ++ inner, answers.append answersBelow, both.stays (by simp) [leave]⟩
      | none =>
          rcases left : ask after last leave.call with ⟨final, answer⟩
          have askedAgain : ask (handlerFor before after leave.call.after) last leave.call =
              (final, answer) := left
          obtain ⟨ending, answersEnd, leaving, prunedEnd⟩ := ask_traverses askedAgain
          have nothingEnd : prunedSites ending = [] := by simpa [leave] using prunedEnd
          rw [Tree.walk_left entered ran left, whole, ← List.append_assoc]
          refine ⟨_, (answers.append answersBelow).append answersEnd, both.append leaving ?_ ?_⟩
          · simp [nothingEnd]
          · intro visit isLeave site isPruned
            rw [prunedSites_append, nothing, List.nil_append] at isPruned
            exact apart visit (by rw [List.mem_singleton.mp isLeave]) site isPruned
    · rw [Tree.walk_entered entered goesOn, whole]
      refine ⟨log, answers, ?_⟩
      cases ends : action.halt? with
      | some halt => exact (ends ▸ entering).stays (by simp) _
      | none =>
          have isPrune : action = .prune := by cases action <;> simp_all [Action.halt?]
          rw [ends] at entering
          refine entering.leavesOut fun visit isVisit => ⟨[], by simp [pruned, isPrune, enter], ?_⟩
          rcases List.mem_append.mp isVisit with inside | isLeave
          · obtain ⟨number, rest, -, atSite⟩ := site_of_mem_tourAll inside
            exact ⟨List.nil_prefix, fun atRoot => absurd (atSite.symm.trans atRoot) (by simp)⟩
          · exact ⟨List.nil_prefix, fun _ => by rw [List.mem_singleton.mp isLeave]⟩

theorem walkAll_traverses (parent : Node) (chain : List (Option Node)) : ∀ (index : Nat)
    (children : List Tree) (state : σ),
    ∃ log, Answers before after state log (walkAll before after parent chain children state).1 ∧
      Traverses before after (tourAll parent chain index children) log
        (walkAll before after parent chain children state).2
  | _, [], state => ⟨[], .nil, .finished (by simp) rfl⟩
  | index, tree :: rest, state => by
    obtain ⟨log, answers, inside⟩ := Tree.walk_traverses (some parent) chain tree state
    rw [walkAll, tourAll]
    rcases ran : tree.walk before after (some parent) chain state with ⟨next, _ | halt⟩
    · rw [ran] at answers inside
      obtain ⟨others, answersLater, later⟩ := walkAll_traverses parent chain (index + 1) rest next
      refine ⟨_, (answers.inPart index).append answersLater, (inside.inPart index).append later ?_ ?_⟩
      · intro visit isVisit site isPruned isLeftOut
        obtain ⟨_, -, rfl⟩ := List.mem_map.mp isVisit
        obtain ⟨other, isOther, rfl, -⟩ := later.pruned_subset isPruned
        obtain ⟨number, _, higher, atSite⟩ := site_of_mem_tourAll isOther
        have inside := isLeftOut.1
        rw [atSite] at inside
        have same : number = index := (List.cons_prefix_cons.mp inside).1
        omega
      · intro visit isVisit site isPruned isLeftOut
        rw [prunedSites_inPart] at isPruned
        obtain ⟨_, -, rfl⟩ := List.mem_map.mp isPruned
        obtain ⟨number, _, higher, atSite⟩ := site_of_mem_tourAll isVisit
        have inside := isLeftOut.1
        rw [atSite] at inside
        have same : index = number := (List.cons_prefix_cons.mp inside).1
        omega
    · rw [ran] at answers inside
      exact ⟨_, answers.inPart index, (inside.inPart index).stays (by simp) _⟩

end

end Walk

section InPlace

mutual

/-- The traversal with one chain for all nodes: a node puts its parent at the end of it, and takes it away
again when the node is left, in whatever way that happens. Both calls read the chain as it then is. -/
def Tree.walkInPlace (before after : Option (Handler σ)) (parent : Option Node) :
    Tree → List (Option Node) × σ → (List (Option Node) × σ) × Option Halt
  | .node label children, (chain, state) =>
    let chain := chain ++ [parent]
    let (state, action) := ask before state { node := label, parent, chain, after := false }
    match action with
    | .proceed =>
      match walkAllInPlace before after label children (chain, state) with
      | ((chain, state), some halt) => ((chain.dropLast, state), some halt)
      | ((chain, state), none) =>
        let (state, action) := ask after state { node := label, parent, chain, after := true }
        ((chain.dropLast, state), action.halt?)
    | ends => ((chain.dropLast, state), ends.halt?)

def walkAllInPlace (before after : Option (Handler σ)) (parent : Node) :
    List Tree → List (Option Node) × σ → (List (Option Node) × σ) × Option Halt
  | [], memory => (memory, none)
  | tree :: rest, memory =>
    match tree.walkInPlace before after (some parent) memory with
    | (memory, some halt) => (memory, some halt)
    | (memory, none) => walkAllInPlace before after parent rest memory

end

mutual

theorem Tree.walkInPlace_eq (parent : Option Node) (chain : List (Option Node)) : ∀ (tree : Tree) (state : σ),
    tree.walkInPlace before after parent (chain, state) =
      ((chain, (tree.walk before after parent chain state).1),
        (tree.walk before after parent chain state).2)
  | .node label children, state => by
    rw [Tree.walkInPlace]
    rcases entered : ask before state
      { node := label, parent, chain := chain ++ [parent], after := false } with ⟨next, action⟩
    by_cases goesOn : action = .proceed
    · subst goesOn
      simp only [walkAllInPlace_eq label (chain ++ [parent]) children next]
      rcases ran : walkAll before after label (chain ++ [parent]) children next with ⟨last, _ | halt⟩
      · rcases left : ask after last
          { node := label, parent, chain := chain ++ [parent], after := true } with ⟨final, answer⟩
        simp [Tree.walk_left entered ran left, left]
      · simp [Tree.walk_below entered ran]
    · rw [Tree.walk_entered entered goesOn]
      cases action with
      | proceed => exact absurd rfl goesOn
      | _ => simp

theorem walkAllInPlace_eq (parent : Node) (chain : List (Option Node)) : ∀ (children : List Tree) (state : σ),
    walkAllInPlace before after parent children (chain, state) =
      ((chain, (walkAll before after parent chain children state).1),
        (walkAll before after parent chain children state).2)
  | [], _ => rfl
  | tree :: rest, state => by
    rw [walkAllInPlace, walkAll, Tree.walkInPlace_eq (some parent) chain tree state]
    rcases tree.walk before after (some parent) chain state with ⟨next, _ | halt⟩
    · exact walkAllInPlace_eq parent chain rest next
    · rfl

end

end InPlace

/-- What a traversal returns: nothing, unless a handler failed, and then its error behind the trace. -/
def resultOf (trace : String) : Option Halt → Except WalkError Unit
  | some (.failed error) => .error { trace, cause := error }
  | _ => .ok ()

/-- The tour of a declaration visits each node of it once before and once after the nodes below it, with its
real parent and the path to it. Whatever the handlers answer, they are called just for the visits of
the tour, in its order, without what was pruned, and up to the call that ends the traversal; the error of
a handler that failed is returned behind a trace. One chain that all nodes share serves as well as one for
each. -/
theorem walk_reports_tree (declaration : ClassDeclaration) :
    Tours (.classDeclaration declaration) (declaration.tree.tour none []) ∧
      ∀ {σ : Type} (before after : Option (Handler σ)) (start : σ) (trace : String),
        (∃ log halt, Answers before after start log (declaration.tree.survey before after start trace).1 ∧
          Traverses before after (declaration.tree.tour none []) log halt ∧
          (declaration.tree.survey before after start trace).2 = resultOf trace halt) ∧
        declaration.tree.walkInPlace before after none ([], start) =
          (([], (declaration.tree.walk before after none [] start).1),
            (declaration.tree.walk before after none [] start).2) := by
  constructor
  · have tours := declaration.tree_faithful.1.tours
    rwa [declaration.tree_faithful.2] at tours
  · intro σ before after start trace
    refine ⟨?_, Tree.walkInPlace_eq none [] declaration.tree start⟩
    obtain ⟨log, answers, traverses⟩ : ∃ log,
        Answers before after start log (declaration.tree.walk before after none [] start).1 ∧
          Traverses before after (declaration.tree.tour none []) log
            (declaration.tree.walk before after none [] start).2 :=
      Tree.walk_traverses none [] declaration.tree start
    refine ⟨log, (declaration.tree.walk before after none [] start).2, ?_, traverses, ?_⟩
    · rw [Tree.survey, Tree.traverse]
      rcases ran : declaration.tree.walk before after none [] start with ⟨final, _ | _ | _⟩ <;>
        simpa [ran] using answers
    · rw [Tree.survey, Tree.traverse]
      rcases declaration.tree.walk before after none [] start with ⟨final, _ | _ | _⟩ <;> rfl

end Assay.Syntax
