import Assay.Description.Command
import Assay.Syntax.Declaration

/-!
Descriptions of classes: a mapping with the name of the class, its fields, its fixtures and its tests.
-/

namespace Assay.Description

open Document (Node Place)
open Syntax (Command ClassDeclaration FieldDeclaration MemberDeclaration)

def decodeFields (source : String) : List Entry → Decode (List FieldDeclaration)
  | [] => .ok []
  | entry :: rest => do
    let typeName ← decodeString "field type" entry.value
    let fields ← decodeFields source rest
    pure ({ position := positionOf source entry.keyPlace, name := entry.key, typeName } :: fields)

def decodeFieldMapping (source : String) : Node → Decode (List FieldDeclaration)
  | .scalar _ .null => .ok []
  | node => do decodeFields source (← decodeEntries "fields" node)

structure MemberParts where
  name : String
  body : Command

def decodeMemberParts (source kind : String) : MemberParts → List Entry → Decode MemberParts
  | parts, [] => .ok parts
  | parts, entry :: rest => do
    if entry.key = "name" then
      let name ← decodeString (kind ++ " name") entry.value
      decodeMemberParts source kind { parts with name } rest
    else if entry.key = "body" then
      let body ← decodeBlock source entry.value
      decodeMemberParts source kind { parts with body } rest
    else complain entry.keyPlace (.unknownKey entry.key kind)

/-- A test or a fixture. Without a body it does nothing. -/
def decodeMember (source kind : String) (node : Node) : Decode MemberDeclaration := do
  let entries ← decodeEntries kind node
  let position := positionOf source node.place
  let parts ← decodeMemberParts source kind { name := "", body := .skip position } entries
  if parts.name = "" then complain node.place (.missingName kind)
  else pure { position, name := parts.name, body := parts.body }

def decodeMembers (source kind : String) : List Node → Decode (List MemberDeclaration)
  | [] => .ok []
  | node :: rest => do
    let member ← decodeMember source kind node
    let members ← decodeMembers source kind rest
    pure (member :: members)

def decodeMemberSequence (source kind : String) (node : Node) :
    Decode (List MemberDeclaration) := do
  decodeMembers source kind (← decodeItems (kind ++ "s") node)

def decodeClassParts (source : String) : ClassDeclaration → List Entry → Decode ClassDeclaration
  | declaration, [] => .ok declaration
  | declaration, entry :: rest => do
    if entry.key = "class" then
      let name ← decodeString "class name" entry.value
      let position := positionOf source entry.keyPlace
      decodeClassParts source { declaration with name, position } rest
    else if entry.key = "fields" then
      let fields ← decodeFieldMapping source entry.value
      decodeClassParts source { declaration with fields } rest
    else if entry.key = "fixtures" then
      let fixtures ← decodeMemberSequence source "fixture" entry.value
      decodeClassParts source { declaration with fixtures } rest
    else if entry.key = "tests" then
      let tests ← decodeMemberSequence source "test" entry.value
      decodeClassParts source { declaration with tests } rest
    else complain entry.keyPlace (.unknownKey entry.key "class description")

def decodeClass (source : String) (node : Node) : Decode ClassDeclaration := do
  let entries ← decodeEntries "class description" node
  let empty : ClassDeclaration :=
    { position := positionOf source node.place, name := "", fields := [], fixtures := []
      tests := [] }
  let declaration ← decodeClassParts source empty entries
  if declaration.name = "" then complain node.place (.missingName "class") else pure declaration

inductive ReadError
  | notADocument (cause : String)
  | notAClass (problem : Problem)
deriving DecidableEq, Repr

/-- Reads the description of a class from a text with a single document. -/
def readClass (source text : String) (read : Document.Reader := Document.reader) :
    Except ReadError ClassDeclaration :=
  match read text with
  | .error cause => .error (.notADocument cause)
  | .ok [some body] => (decodeClass source body).mapError fun complaint =>
      .notAClass (complaint.problem source)
  | .ok _ => .error (.notAClass (Complaint.problem source ⟨⟨0, 0⟩, .notOneDocument⟩))

end Assay.Description
