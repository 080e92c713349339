import Assay.Description.Problem

/-!
Mappings with distinct keys that are strings, and what is read from single nodes.
-/

namespace Assay.Description

open Document (Node Place)

abbrev Decode (α : Type) := Except Complaint α

def complain {α : Type} (place : Place) (cause : Cause) : Decode α :=
  .error { place, cause }

structure Entry where
  key : String
  keyPlace : Place
  value : Node
deriving Repr, Inhabited

def decodeString (what : String) : Node → Decode String
  | .scalar _ (.text value) => .ok value
  | node => complain node.place (.notAString what)

/-- Checks the keys in order; `seen` are the keys before. -/
def decodeKeys : List String → List (Node × Node) → Decode (List Entry)
  | _, [] => .ok []
  | seen, (name, value) :: rest => do
    let key ← decodeString "key" name
    if seen.contains key then complain name.place (.duplicateKey key)
    else
      let entries ← decodeKeys (key :: seen) rest
      pure ({ key, keyPlace := name.place, value } :: entries)

def decodeEntries (what : String) : Node → Decode (List Entry)
  | .mapping _ entries => decodeKeys [] entries
  | node => complain node.place (.notAMapping what)

/-- The items of a sequence. Null counts as an empty one. -/
def decodeItems (what : String) : Node → Decode (List Node)
  | .sequence _ items => .ok items
  | .scalar _ .null => .ok []
  | node => complain node.place (.notASequence what)

def notOneEntry {α : Type} (what : String) (node : Node) : Decode α := do
  let _ ← decodeEntries what node
  complain node.place (.notOneKey what)

end Assay.Description
