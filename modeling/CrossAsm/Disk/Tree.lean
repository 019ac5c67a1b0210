import CrossAsm.Disk
import CrossAsm.Entries
import CrossAsm.Text.Lines

/-! A directory tree in memory. -/

namespace CrossAsm

/-- A directory tree. A directory is there as long as a file lies in it, or work is done in it. -/
structure DiskTree where
  /-- The files under the names that lead to them from the root. -/
  files : List (List String × List UInt8)
  /-- The names that lead to the directory in which relative paths start. -/
  base : List String

namespace DiskTree

/-- What a path leads to. -/
inductive Place where
  | directory
  | file (path : List String) (bytes : List UInt8)
  /-- A name that is free in a directory. -/
  | vacant (path : List String)

/-- The longest name of a file or directory in bytes. -/
def maxName : Nat := 255

/-- The longest path in bytes. -/
def maxPath : Nat := 4095

/-- Whether there is a directory. -/
def hasDirectory (tree : DiskTree) (path : List String) : Bool :=
  path.isPrefixOf tree.base ||
    tree.files.any fun (file, _) => path.isPrefixOf file && path.length < file.length

/-- The names in a path; a slash at either end gives an empty one there. -/
def names (path : String) : List String :=
  (path.toList.splitOn '/').map String.ofList

/-- What names lead to from a directory; empty names and dots stay in it. -/
def locate (tree : DiskTree) (here : List String) : List String → Except DiskError Place
  | [] => .ok .directory
  | name :: rest =>
    if name = "" ∨ name = "." then tree.locate here rest
    else if name = ".." then tree.locate here.dropLast rest
    else if maxName < Text.byteLength name.toList then .error .nameTooLong
    else
      -- A file ends the walk; a free name may only come last.
      let path := here ++ [name]
      match Entries.get? path tree.files with
      | some bytes => if rest.isEmpty then .ok (.file path bytes) else .error .notADirectory
      | none =>
        if tree.hasDirectory path then tree.locate path rest
        else if rest.isEmpty then .ok (.vacant path)
        else .error .notFound

/-- The directory in which a path starts. An empty path, one that holds a NUL and one that is too
long start nowhere, whatever lies in the tree. -/
def start (tree : DiskTree) (path : String) : Except DiskError (List String) :=
  if path.isEmpty then .error .notFound
  else if path.toList.contains '\x00' then .error .nulInName
  else if maxPath < Text.byteLength path.toList then .error .nameTooLong
  else .ok (if path.toList.head? = some '/' then [] else tree.base)

/-- What a path leads to. -/
def find (tree : DiskTree) (path : String) : Except DiskError Place := do
  tree.locate (← tree.start path) (names path)

/-- The bytes of a file. -/
def read (tree : DiskTree) (path : String) : Except DiskError (List UInt8) := do
  match ← tree.find path with
  | .file _ bytes => return bytes
  | .directory => throw .isADirectory
  | .vacant _ => throw .notFound

/-- The names before the last one in a path; slashes at its end do not count. The empty name that
follows them lets them lead to a directory only. -/
def parentNames (path : String) : List String :=
  ((names path).reverse.dropWhile (· == "")).tail.reverse ++ [""]

/-- Gives a file its bytes. A path that ends in a slash names a directory, be it there or not, as
long as there is one for it to lie in. -/
def write (tree : DiskTree) (path : String) (bytes : List UInt8) : Except DiskError DiskTree := do
  if path.toList.getLast? = some '/' then
    let _ ← tree.locate (← tree.start path) (parentNames path)
    throw .isADirectory
  else
    match ← tree.find path with
    | .file path _ | .vacant path =>
      return { tree with files := Entries.insert path bytes tree.files }
    | .directory => throw .isADirectory

/-- The tree as a disk. -/
def disk : Disk (StateM DiskTree) where
  read path := return (← get).read path
  write path bytes := do
    match (← get).write path bytes with
    | .ok tree =>
      set tree
      return .ok ()
    | .error e => return .error e

end DiskTree

end CrossAsm
