import Assay.Source.Interruption
import Assay.Syntax.Tree

/-!
Traversal of a tree with handlers that are called before and after the descendants of each node and
that decide how the traversal goes on.
-/

namespace Assay.Syntax

/-- What a handler is told: the node, its parent and the nodes above it, starting above the root. -/
structure Call where
  node : Node
  parent : Option Node
  chain : List (Option Node)
  after : Bool
deriving DecidableEq, Repr

inductive Action
  | proceed
  /-- Leaves out the descendants of the node and the call after them. -/
  | prune
  | stop
  | fail (error : String)
deriving DecidableEq, Repr

inductive Halt
  | stopped
  | failed (error : String)
deriving DecidableEq, Repr

/-- A handler threads a state of its own through the calls. -/
abbrev Handler (σ : Type) := σ → Call → σ × Action

mutual

/-- Traverses a tree; the result says whether and why the traversal ended early. -/
def Tree.walk {σ : Type} (before after : Option (Handler σ)) (parent : Option Node)
    (chain : List (Option Node)) : Tree → σ → σ × Option Halt
  | .node label children, state =>
    let here := chain ++ [parent]
    let call : Call := { node := label, parent, chain := here, after := false }
    let (state, action) := match before with
      | some handle => handle state call
      | none => (state, .proceed)
    match action with
    | .stop => (state, some .stopped)
    | .fail error => (state, some (.failed error))
    | .prune => (state, none)
    | .proceed =>
      match walkAll before after label here children state with
      | (state, some halt) => (state, some halt)
      | (state, none) =>
        match after with
        | none => (state, none)
        | some handle =>
          match handle state { call with after := true } with
          | (state, .stop) => (state, some .stopped)
          | (state, .fail error) => (state, some (.failed error))
          | (state, _) => (state, none)

def walkAll {σ : Type} (before after : Option (Handler σ)) (parent : Node)
    (chain : List (Option Node)) : List Tree → σ → σ × Option Halt
  | [], state => (state, none)
  | tree :: rest, state =>
    match tree.walk before after (some parent) chain state with
    | (state, some halt) => (state, some halt)
    | (state, none) => walkAll before after parent chain rest state

end

def Tree.traverse {σ : Type} (tree : Tree) (before after : Option (Handler σ)) (state : σ) :
    σ × Except String Unit :=
  match tree.walk before after none [] state with
  | (state, some (.failed error)) => (state, .error error)
  | (state, _) => (state, .ok ())

/-- What the caller of a traversal gets. The trace is that of the calls at the time when a handler fails. -/
def Tree.survey {σ : Type} (tree : Tree) (before after : Option (Handler σ)) (state : σ) (trace : String) :
    σ × Except WalkError Unit :=
  let (state, result) := tree.traverse before after state
  (state, result.mapError fun cause => { trace, cause })

end Assay.Syntax
