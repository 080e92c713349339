import Assay.Proofs.Syntax.Walks

/-!
What a walk enumerates: the entries of its tour are the nodes of the tree, each before those below it, and the
entries from a child of the root down are those of the tour of that child.
-/

namespace Assay.Syntax

def entries (visits : List NodeVisit) : List NodeVisit := visits.filter fun visit => visit.call.after = false

def recordNode : Handler (List Node) := fun seen call => (seen ++ [call.node], .proceed)

section Recording

variable {state last : List Node} {log : List Answer}

theorem Answers.recorded (answers : Answers (some recordNode) none state log last) :
    last = state ++ log.map (·.visit.call.node) ∧ ∀ answer ∈ log, answer.action = .proceed := by
  induction answers with
  | nil => simp
  | @cons handle state _ _ visit _ _ known answered _ ih =>
      cases enters : visit.call.after with
      | true =>
          rw [enters] at known
          cases known
      | false =>
          rw [enters] at known
          cases known
          cases answered
          obtain ⟨rfl, proceeds⟩ := ih
          exact ⟨by simp, List.forall_mem_cons.mpr ⟨rfl, proceeds⟩⟩

theorem traverse_recordNode (tree : Tree) :
    tree.traverse (some recordNode) none [] =
      ((entries (tree.tour none [])).map (·.call.node), .ok ()) := by
  obtain ⟨log, answers, traverses⟩ : ∃ log,
      Answers (some recordNode) none [] log (tree.walk (some recordNode) none none [] []).1 ∧
        Traverses (some recordNode) none (tree.tour none []) log
          (tree.walk (some recordNode) none none [] []).2 :=
    Tree.walk_traverses none [] tree []
  rcases ran : tree.walk (some recordNode) none none [] [] with ⟨seen, halt⟩
  rw [ran] at answers traverses
  obtain ⟨rfl, proceeds⟩ := answers.recorded
  rw [Tree.traverse, ran]
  cases traverses with
  | finished _ complete =>
      have nothing : prunedSites log = [] := by
        rw [prunedSites, List.map_eq_nil_iff, List.filter_eq_nil_iff]
        intro answer isAnswer
        simp [proceeds answer isAnswer]
      have visits : log.map Answer.visit = entries (tree.tour none []) := by
        rw [complete, nothing]
        refine List.filter_congr fun visit _ => ?_
        cases visit.call.after <;> simp [handlerFor]
      rw [← visits, List.map_map]
      rfl
  | @halted earlier last _ _ ends _ =>
      rw [proceeds last (by simp)] at ends
      cases ends

end Recording

section Places

variable {parent : Option Node} {chain : List (Option Node)}

theorem entries_append (first second : List NodeVisit) :
    entries (first ++ second) = entries first ++ entries second :=
  List.filter_append ..

theorem entries_inPart (index : Nat) (visits : List NodeVisit) :
    entries (visits.map (NodeVisit.inPart index)) = (entries visits).map (NodeVisit.inPart index) :=
  List.filter_map

theorem nodes_inPart (index : Nat) (visits : List NodeVisit) :
    (visits.map (NodeVisit.inPart index)).map (·.call.node) = visits.map (·.call.node) := by
  rw [List.map_map]
  rfl

theorem entries_tour (label : Node) (children : List Tree) :
    entries ((Tree.node label children).tour parent chain) =
      { site := [], call := { node := label, parent, chain := chain ++ [parent], after := false } } ::
        entries (tourAll label (chain ++ [parent]) 0 children) := by
  rw [Tree.tour, entries, List.filter_cons_of_pos rfl, List.filter_append, ← entries]
  exact congrArg _ (List.append_nil _)

mutual

theorem Tree.nodes_entries (parent : Option Node) (chain : List (Option Node)) : ∀ tree : Tree,
    (entries (tree.tour parent chain)).map (·.call.node) = tree.nodes
  | .node label children => by
    rw [entries_tour, List.map_cons, nodes_entriesAll label (chain ++ [parent]) 0 children, Tree.nodes]

theorem nodes_entriesAll (parent : Node) (chain : List (Option Node)) : ∀ (index : Nat) (children : List Tree),
    (entries (tourAll parent chain index children)).map (·.call.node) = nodesOf children
  | _, [] => rfl
  | index, tree :: rest => by
    rw [tourAll, entries_append, List.map_append, entries_inPart, nodes_inPart,
      Tree.nodes_entries (some parent) chain tree, nodes_entriesAll parent chain (index + 1) rest, nodesOf]

end

def inside (site : Site) (visits : List NodeVisit) : List NodeVisit :=
  visits.filter fun visit => site <+: visit.site

theorem inside_inPart (index : Nat) (visits : List NodeVisit) :
    inside [index] (visits.map (NodeVisit.inPart index)) = visits.map (NodeVisit.inPart index) := by
  refine List.filter_eq_self.mpr fun visit isVisit => ?_
  obtain ⟨inner, -, rfl⟩ := List.mem_map.mp isVisit
  simp [NodeVisit.inPart]

theorem inside_other {index number : Nat} (apart : number ≠ index) (visits : List NodeVisit) :
    inside [number] (visits.map (NodeVisit.inPart index)) = [] := by
  refine List.filter_eq_nil_iff.mpr fun visit isVisit => ?_
  obtain ⟨inner, -, rfl⟩ := List.mem_map.mp isVisit
  simpa [NodeVisit.inPart] using apart

theorem inside_later {parent : Node} {index number : Nat} (earlier : number < index) (children : List Tree) :
    inside [number] (entries (tourAll parent chain index children)) = [] := by
  refine List.filter_eq_nil_iff.mpr fun visit isVisit => ?_
  obtain ⟨other, rest, higher, atSite⟩ := site_of_mem_tourAll (List.mem_of_mem_filter isVisit)
  rw [atSite, decide_eq_true_eq, List.cons_prefix_cons]
  omega

theorem inside_tourAll {parent : Node} {children : List Tree} {number : Nat} {child : Tree} (index : Nat)
    (isChild : children[number]? = some child) :
    inside [index + number] (entries (tourAll parent chain index children)) =
      (entries (child.tour (some parent) chain)).map (NodeVisit.inPart (index + number)) := by
  induction children generalizing index number with
  | nil => simp at isChild
  | cons first rest ih =>
      have split : inside [index + number] (entries (tourAll parent chain index (first :: rest))) =
          inside [index + number]
              ((entries (first.tour (some parent) chain)).map (NodeVisit.inPart index)) ++
            inside [index + number] (entries (tourAll parent chain (index + 1) rest)) := by
        rw [tourAll, entries_append, entries_inPart]
        exact List.filter_append ..
      rw [split]
      cases number with
      | zero =>
          obtain rfl : first = child := Option.some.inj isChild
          rw [Nat.add_zero, inside_inPart, inside_later (Nat.lt_succ_self index), List.append_nil]
      | succ number =>
          have next : index + (number + 1) = index + 1 + number := by omega
          rw [inside_other (by omega), List.nil_append, next]
          exact ih (index + 1) isChild

end Places

end Assay.Syntax
