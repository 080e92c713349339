import Assay.Syntax.Command

/-!
Class declarations: fields, fixtures and tests, in declaration order.
-/

namespace Assay.Syntax

structure FieldDeclaration where
  position : Position
  name : String
  typeName : String
deriving DecidableEq, Repr, Inhabited

structure MemberDeclaration where
  position : Position
  name : String
  body : Command
deriving DecidableEq, Repr, Inhabited

structure ClassDeclaration where
  position : Position
  name : String
  fields : List FieldDeclaration
  fixtures : List MemberDeclaration
  tests : List MemberDeclaration
deriving DecidableEq, Repr, Inhabited

end Assay.Syntax
