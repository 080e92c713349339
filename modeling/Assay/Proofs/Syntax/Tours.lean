import Assay.Proofs.Syntax.Reachability
import Assay.Syntax.Walk
import Mathlib.Data.List.Basic

/-!
The tour of a tree: each of its nodes once before and once after the nodes below it. Nodes are told apart by
where they stand, so that equal nodes at different sites are visited one by one.
-/

namespace Assay.Syntax

def Node.parts : Node → List Node
  | classDeclaration declaration =>
    declaration.fields.map fieldDeclaration ++ declaration.fixtures.map fixtureDeclaration ++
      declaration.tests.map testDeclaration
  | fieldDeclaration _ => []
  | fixtureDeclaration declaration => [command declaration.body]
  | testDeclaration declaration => [command declaration.body]
  | command (.skip _) => []
  | command (.seq _ first second) => [command first, command second]
  | command (.ifThen _ condition yes) => [expression condition, command yes]
  | command (.ifElse _ condition yes no) => [expression condition, command yes, command no]
  | command (.loop _ condition body) => [expression condition, command body]
  | command (.ret _) => []
  | command (.assign _ _ value) => [expression value]
  | command (.assert _ condition) => [expression condition]
  | expression (.int _ _) => []
  | expression (.boolean _ _) => []
  | expression (.field _ _) => []
  | expression (.binary _ _ left right) => [expression left, expression right]
  | expression (.comparison _ _ left right) => [expression left, expression right]
  | expression (.not _ operand) => [expression operand]
  | expression (.and _ left right) => [expression left, expression right]
  | expression (.or _ left right) => [expression left, expression right]

def Node.at? : Node → Site → Option Node
  | root, [] => some root
  | root, index :: site =>
    match root.parts[index]? with
    | some part => part.at? site
    | none => none

def Node.above (root : Node) (site : Site) : List (Option Node) :=
  (List.range site.length).map fun depth => root.at? (site.take depth)

def Node.callBelow (parent : Option Node) (chain : List (Option Node)) (root node : Node) (site : Site)
    (after : Bool) : Call :=
  { node
    parent := if site = [] then parent else root.at? site.dropLast
    chain := chain ++ parent :: root.above site
    after }

/-- What has to be told about the node at a site: its parent, and no node and then the nodes on the path
from the root to the parent. -/
def Node.callAt (root node : Node) (site : Site) (after : Bool) : Call :=
  { node
    parent := if site = [] then none else root.at? site.dropLast
    chain := none :: root.above site
    after }

structure NodeVisit where
  site : Site
  call : Call
deriving DecidableEq, Repr

def NodeVisit.inPart (index : Nat) (visit : NodeVisit) : NodeVisit := { visit with site := index :: visit.site }

mutual

def Tree.tour (parent : Option Node) (chain : List (Option Node)) : Tree → List NodeVisit
  | .node label children =>
    let here := chain ++ [parent]
    { site := [], call := { node := label, parent, chain := here, after := false } } ::
      (tourAll label here 0 children ++
        [{ site := [], call := { node := label, parent, chain := here, after := true } }])

def tourAll (parent : Node) (chain : List (Option Node)) : Nat → List Tree → List NodeVisit
  | _, [] => []
  | index, tree :: rest =>
    (tree.tour (some parent) chain).map (NodeVisit.inPart index) ++ tourAll parent chain (index + 1) rest

end

/-- The order of a traversal. A node is come to before the nodes below it and left after them, and
between two nodes that part on their way from the root the number of the part decides. -/
def Precedes : Site → Bool → Site → Bool → Prop
  | [], after, [], later => after = false ∧ later = true
  | [], after, _ :: _, _ => after = false
  | _ :: _, _, [], later => later = true
  | index :: site, after, number :: other, later =>
    index < number ∨ index = number ∧ Precedes site after other later

def PostBefore : Site → Site → Prop
  | [], _ => False
  | _ :: _, [] => True
  | index :: site, number :: other => index < number ∨ index = number ∧ PostBefore site other

def sitesOf (after : Bool) (visits : List NodeVisit) : List Site :=
  (visits.filter fun visit => visit.call.after = after).map NodeVisit.site

/-- The visits are those of the nodes below a root, each come to once and left once, with its real parent
and the path that leads to it. Sites are ordered like lists, so the first order is pre-order. -/
structure Tours (root : Node) (visits : List NodeVisit) : Prop where
  exact : ∀ visit, visit ∈ visits ↔ ∃ node, root.at? visit.site = some node ∧
    visit.call = root.callAt node visit.site visit.call.after
  ordered : visits.Pairwise fun first second =>
    Precedes first.site first.call.after second.site second.call.after
  preorder : (sitesOf false visits).Pairwise (· < ·)
  postorder : (sitesOf true visits).Pairwise PostBefore

section Orders

theorem lt_of_precedes {site other : Site} (precedes : Precedes site false other false) : site < other := by
  induction site generalizing other with
  | nil =>
      cases other with
      | nil => exact absurd precedes.2 (by decide)
      | cons number other => exact List.nil_lt_cons number other
  | cons index site ih =>
      cases other with
      | nil => exact absurd precedes (by simp [Precedes])
      | cons number other =>
          rw [List.cons_lt_cons_iff]
          exact precedes.imp_right fun ⟨same, later⟩ => ⟨same, ih later⟩

theorem postBefore_of_precedes {site other : Site} (precedes : Precedes site true other true) :
    PostBefore site other := by
  induction site generalizing other with
  | nil =>
      cases other with
      | nil => exact absurd precedes.1 (by decide)
      | cons number other => exact absurd precedes (by simp [Precedes])
  | cons index site ih =>
      cases other with
      | nil => trivial
      | cons number other => exact precedes.imp_right fun ⟨same, later⟩ => ⟨same, ih later⟩

end Orders

section Trees

def Tree.label : Tree → Node
  | .node label _ => label

def Tree.children : Tree → List Tree
  | .node _ children => children

inductive Tree.Faithful : Tree → Prop
  | node {label : Node} {children : List Tree} : children.map Tree.label = label.parts →
      (∀ child ∈ children, child.Faithful) → Tree.Faithful (.node label children)

theorem Expression.tree_faithful (expression : Expression) :
    expression.tree.Faithful ∧ expression.tree.label = .expression expression := by
  induction expression with
  | int | boolean | field =>
      rw [Expression.tree]
      exact ⟨.node rfl (by simp), rfl⟩
  | binary _ _ _ _ leftIh rightIh | comparison _ _ _ _ leftIh rightIh | and _ _ _ leftIh rightIh
  | or _ _ _ leftIh rightIh =>
      rw [Expression.tree]
      exact ⟨.node (by simp [leftIh.2, rightIh.2, Node.parts]) (by simp [leftIh.1, rightIh.1]), rfl⟩
  | not _ _ ih =>
      rw [Expression.tree]
      exact ⟨.node (by simp [ih.2, Node.parts]) (by simp [ih.1]), rfl⟩

theorem Command.tree_faithful (command : Command) :
    command.tree.Faithful ∧ command.tree.label = .command command := by
  induction command with
  | skip | ret =>
      rw [Command.tree]
      exact ⟨.node rfl (by simp), rfl⟩
  | seq _ _ _ firstIh secondIh =>
      rw [Command.tree]
      exact ⟨.node (by simp [firstIh.2, secondIh.2, Node.parts]) (by simp [firstIh.1, secondIh.1]), rfl⟩
  | ifThen _ condition _ ih | loop _ condition _ ih =>
      have first := condition.tree_faithful
      rw [Command.tree]
      exact ⟨.node (by simp [first.2, ih.2, Node.parts]) (by simp [first.1, ih.1]), rfl⟩
  | ifElse _ condition _ _ yesIh noIh =>
      have first := condition.tree_faithful
      rw [Command.tree]
      exact ⟨.node (by simp [first.2, yesIh.2, noIh.2, Node.parts])
        (by simp [first.1, yesIh.1, noIh.1]), rfl⟩
  | assign _ _ value | assert _ value =>
      have only := value.tree_faithful
      rw [Command.tree]
      exact ⟨.node (by simp [only.2, Node.parts]) (by simp [only.1]), rfl⟩

theorem ClassDeclaration.tree_faithful (declaration : ClassDeclaration) :
    declaration.tree.Faithful ∧ declaration.tree.label = .classDeclaration declaration := by
  refine ⟨.node (by simp [Node.parts, FieldDeclaration.tree, Tree.label, Function.comp_def]) ?_, rfl⟩
  have body : ∀ (label : Node) (inner : Command), label.parts = [.command inner] →
      (Tree.node label [inner.tree]).Faithful := fun label inner single =>
    .node (by simp [inner.tree_faithful.2, single]) (by simp [inner.tree_faithful.1])
  intro child isChild
  simp only [List.mem_append, List.mem_map] at isChild
  rcases isChild with (⟨field, -, rfl⟩ | ⟨fixture, -, rfl⟩) | ⟨test, -, rfl⟩
  · exact .node rfl (by simp)
  · exact body _ _ rfl
  · exact body _ _ rfl

end Trees

section Tour

variable {parent : Option Node} {chain : List (Option Node)}

theorem Node.at?_cons {root part : Node} {index : Nat} (isPart : root.parts[index]? = some part)
    (site : Site) : root.at? (index :: site) = part.at? site := by
  rw [Node.at?, isPart]

theorem Node.callBelow_cons {root part : Node} {index : Nat} (isPart : root.parts[index]? = some part)
    (node : Node) (site : Site) (after : Bool) :
    callBelow parent chain root node (index :: site) after =
      callBelow (some root) (chain ++ [parent]) part node site after := by
  have path : root.above (index :: site) = some root :: part.above site := by
    simp [Node.above, List.range_succ_eq_map, Node.at?, isPart, Function.comp_def]
  have last : root.at? (index :: site).dropLast =
      if site = [] then some root else part.at? site.dropLast := by
    cases site with
    | nil => rfl
    | cons number rest => rw [List.dropLast_cons_cons, Node.at?_cons isPart, if_neg (List.cons_ne_nil _ _)]
  simp only [callBelow, path, last, List.append_assoc, List.singleton_append, List.cons_ne_nil, if_false]

theorem tourAll_eq (parent : Node) (index : Nat) (children : List Tree) :
    tourAll parent chain index children = (children.zipIdx index).flatMap fun (child, number) =>
      (child.tour (some parent) chain).map (NodeVisit.inPart number) := by
  induction children generalizing index with
  | nil => simp [tourAll]
  | cons child rest ih => simp [tourAll, ih]

theorem mem_tourAll {parent : Node} {children : List Tree} {visit : NodeVisit} :
    visit ∈ tourAll parent chain 0 children ↔ ∃ index child rest, children[index]? = some child ∧
      visit.site = index :: rest ∧ { visit with site := rest } ∈ child.tour (some parent) chain := by
  rw [tourAll_eq, List.mem_flatMap]
  constructor
  · rintro ⟨⟨child, index⟩, isChild, isVisit⟩
    obtain ⟨inner, isInner, rfl⟩ := List.mem_map.mp isVisit
    exact ⟨index, child, inner.site, List.mk_mem_zipIdx_iff_getElem?.mp isChild, rfl, isInner⟩
  · rintro ⟨index, child, rest, isChild, atSite, isVisit⟩
    refine ⟨(child, index), List.mk_mem_zipIdx_iff_getElem?.mpr isChild,
      List.mem_map.mpr ⟨_, isVisit, ?_⟩⟩
    rw [NodeVisit.inPart, ← atSite]

theorem Tree.Faithful.mem_tour {tree : Tree} (faithful : tree.Faithful) (visit : NodeVisit) :
    visit ∈ tree.tour parent chain ↔ ∃ node, tree.label.at? visit.site = some node ∧
      visit.call = Node.callBelow parent chain tree.label node visit.site visit.call.after := by
  induction faithful generalizing parent chain visit with
  | @node label children sameParts _ ih =>
      have isPart : ∀ index : Nat, label.parts[index]? = children[index]?.map Tree.label := by
        intro index
        rw [← sameParts, List.getElem?_map]
      obtain ⟨site, call⟩ := visit
      rw [Tree.tour, List.mem_cons, List.mem_append, List.mem_singleton, mem_tourAll]
      cases site with
      | nil =>
          obtain ⟨node, above, path, after⟩ := call
          cases after <;>
            simp [Tree.label, Node.at?, Node.callBelow, Node.above]
      | cons index rest =>
          simp only [NodeVisit.mk.injEq, List.cons_ne_nil, false_and, false_or, or_false, List.cons.injEq,
            Tree.label]
          constructor
          · rintro ⟨_, child, _, isChild, ⟨rfl, rfl⟩, isVisit⟩
            obtain ⟨node, isNode, told⟩ := (ih child (List.mem_of_getElem? isChild) _).mp isVisit
            have part : label.parts[index]? = some child.label := by rw [isPart, isChild, Option.map_some]
            exact ⟨node, by rw [Node.at?_cons part, isNode], by rw [Node.callBelow_cons part]; exact told⟩
          · rintro ⟨node, isNode, told⟩
            cases isChild : children[index]? with
            | none => simp [Node.at?, isPart, isChild] at isNode
            | some child =>
                have part : label.parts[index]? = some child.label := by
                  rw [isPart, isChild, Option.map_some]
                rw [Node.at?_cons part] at isNode
                rw [Node.callBelow_cons part] at told
                exact ⟨index, child, rest, isChild, ⟨rfl, rfl⟩,
                  (ih child (List.mem_of_getElem? isChild) _).mpr ⟨node, isNode, told⟩⟩

theorem Tree.Faithful.tour_ordered {tree : Tree} (faithful : tree.Faithful) :
    (tree.tour parent chain).Pairwise fun first second =>
      Precedes first.site first.call.after second.site second.call.after := by
  induction faithful generalizing parent chain with
  | @node label children _ _ ih =>
      have below : ∀ visit ∈ tourAll label (chain ++ [parent]) 0 children,
          ∃ index rest, visit.site = index :: rest := by
        intro visit isVisit
        obtain ⟨index, _, rest, _, atSite, _⟩ := mem_tourAll.mp isVisit
        exact ⟨index, rest, atSite⟩
      rw [Tree.tour, List.pairwise_cons, List.pairwise_append]
      refine ⟨?_, ?_, List.pairwise_singleton _ _, ?_⟩
      · intro visit isVisit
        rcases List.mem_append.mp isVisit with inside | isLast
        · obtain ⟨index, rest, atSite⟩ := below visit inside
          rw [atSite]
          rfl
        · rw [List.mem_singleton.mp isLast]
          exact ⟨rfl, rfl⟩
      · rw [tourAll_eq, List.pairwise_flatMap]
        constructor
        · rintro ⟨child, index⟩ isChild
          refine List.pairwise_map.mpr ((ih child ?_).imp fun earlier => .inr ⟨rfl, earlier⟩)
          exact List.mem_of_getElem? (List.mk_mem_zipIdx_iff_getElem?.mp isChild)
        · have numbered : ((children.zipIdx).map Prod.snd).Pairwise (· < ·) := by
            rw [List.zipIdx_map_snd]
            exact List.pairwise_lt_range'
          refine (List.pairwise_map.mp numbered).imp fun earlier first isFirst second isSecond => ?_
          obtain ⟨_, -, rfl⟩ := List.mem_map.mp isFirst
          obtain ⟨_, -, rfl⟩ := List.mem_map.mp isSecond
          exact .inl earlier
      · intro visit isVisit last isLast
        obtain ⟨index, rest, atSite⟩ := below visit isVisit
        rw [List.mem_singleton.mp isLast, atSite]
        rfl

theorem sitesOf_pairwise {order : Site → Site → Prop} {visits : List NodeVisit} {after : Bool}
    (ordered : visits.Pairwise fun first second =>
      Precedes first.site first.call.after second.site second.call.after)
    (implied : ∀ {site other}, Precedes site after other after → order site other) :
    (sitesOf after visits).Pairwise order := by
  refine List.pairwise_map.mpr ((ordered.filter _).imp_of_mem fun isFirst isSecond earlier => ?_)
  rw [of_decide_eq_true (List.mem_filter.mp isFirst).2,
    of_decide_eq_true (List.mem_filter.mp isSecond).2] at earlier
  exact implied earlier

theorem Tree.Faithful.tours {tree : Tree} (faithful : tree.Faithful) :
    Tours tree.label (tree.tour none []) where
  exact := faithful.mem_tour
  ordered := faithful.tour_ordered
  preorder := sitesOf_pairwise faithful.tour_ordered lt_of_precedes
  postorder := sitesOf_pairwise faithful.tour_ordered postBefore_of_precedes

end Tour

end Assay.Syntax
