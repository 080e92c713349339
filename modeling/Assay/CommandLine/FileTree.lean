import Assay.CommandLine.Host
import Assay.CommandLine.Flags

/-!
Files in nested directories, looked up by path.
-/

namespace Assay.CommandLine

/-- Files by the names that lead to them from the working directory. -/
structure FileTree where
  files : List (List String × String)
deriving Repr, Inhabited

/-- The names of a path. Empty names and `.` lead nowhere, `..` leads back. -/
def pathNames (path : String) : List String :=
  let parts := (splitAt '/' [] path.toList).map String.ofList
  (parts.foldl (fun names part =>
    if part = "" || part = "." then names
    else if part = ".." then names.drop 1
    else part :: names) []).reverse

namespace FileTree

def ofFiles (files : List (String × String)) : FileTree :=
  { files := files.map fun (path, text) => (pathNames path, text) }

def file? (tree : FileTree) (names : List String) : Option String := tree.files.lookup names

def isDirectory (tree : FileTree) (names : List String) : Bool :=
  names.isEmpty || tree.files.any fun (file, _) =>
    names.isPrefixOf file && names.length < file.length

def obstacle? (tree : FileTree) : List String → List String → Option FileError
  | _, [] => none
  | _, [_] => none
  | passed, name :: rest =>
    let here := passed ++ [name]
    if tree.isDirectory here then tree.obstacle? here rest
    else if (tree.file? here).isSome then some .notADirectory
    else some .missing

def read (tree : FileTree) (path : String) : Except FileError String :=
  let names := pathNames path
  if path = "" then .error .missing
  else
    match tree.obstacle? [] names with
    | some problem => .error problem
    | none =>
      if tree.isDirectory names then .error .isADirectory
      else
        match tree.file? names with
        | none => .error .missing
        | some text => if path.endsWith "/" then .error .notADirectory else .ok text

def watchProblem? (tree : FileTree) (path : String) : Option String :=
  let directory := (pathNames path).dropLast
  let problem? := match tree.obstacle? [] directory with
    | some problem => some problem
    | none =>
      if tree.isDirectory directory || (tree.file? directory).isSome then none
      else some .missing
  problem?.map fun
    | .notADirectory => "not a directory"
    | _ => "no such file or directory"

end FileTree

end Assay.CommandLine
