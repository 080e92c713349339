import Assay.Text.Quoted
import Assay.Typing.ClassType

/-!
Which tests and fixtures of a class are compiled.
-/

namespace Assay.Assembly

open Typing

inductive Selection
  | everything
  | only (members : List Signature)
deriving DecidableEq, Repr

def Selection.includes : Selection → Signature → Bool
  | everything, _ => true
  | only members, signature => members.contains signature

inductive SelectionError
  | noSuchTest (owner name : String)
deriving DecidableEq, Repr

def SelectionError.message : SelectionError → String
  | noSuchTest owner name => owner ++ " has no test named " ++ Text.quote name

def namedTests (owner : ClassType) : List String → Except SelectionError (List Signature)
  | [] => .ok []
  | name :: rest =>
    match owner.test? name with
    | none => .error (.noSuchTest owner.name name)
    | some test =>
      match namedTests owner rest with
      | .ok tests => .ok (test :: tests)
      | .error problem => .error problem

/-- The named tests and every fixture. -/
def restrict (owner : ClassType) (names : List String) : Except SelectionError Selection :=
  match namedTests owner names with
  | .ok tests => .ok (.only (owner.fixtures ++ tests))
  | .error problem => .error problem

/-- Exactly the members with one of the names; other names are ignored. -/
def including (owner : ClassType) (names : List String) : Selection :=
  .only ((owner.fixtures ++ owner.tests).filter fun signature => names.contains signature.name)

def Selection.filter (selection : Selection) (members : List Signature) : List Signature :=
  members.filter selection.includes

def Selection.names (selection : Selection) (owner : ClassType) : List String :=
  ((selection.filter (owner.fixtures ++ owner.tests)).map Signature.qualifiedName).mergeSort
    (fun left right => left ≤ right)

end Assay.Assembly
