import FlowCheck.Source.Cursor

/-!
# The world of a command

What a command can see: files, the environment, and the directories where it looks for settings.
-/
namespace FlowCheck

/-- What a path leads to. -/
inductive Entry where
  | file (bytes : List UInt8)
  | directory
  | missing
  /-- A part of the path that should be a directory is none. -/
  | blocked

inductive FileError where
  | missing (path : String)
  | blocked (path : String)
  | isDirectory (path : String)
  deriving DecidableEq, Repr

def FileError.message : FileError → String
  | missing path => "open " ++ path ++ ": no such file or directory"
  | blocked path => "open " ++ path ++ ": not a directory"
  | isDirectory path => "read " ++ path ++ ": is a directory"

structure World where
  /-- The working directory. -/
  dir : String
  /-- The home directory, if it is known. -/
  home : Option String
  env : String → Option String
  entry : String → Entry

namespace World

/-- The contents of a file. -/
def read (w : World) (path : String) : Except FileError (List UInt8) :=
  match w.entry path with
  | .file bytes => .ok bytes
  | .directory => .error (.isDirectory path)
  | .missing => .error (.missing path)
  | .blocked => .error (.blocked path)

/-- A file as a source. A directory can be opened but not read. -/
def source (w : World) (path : String) : Except FileError Source :=
  match w.read path with
  | .ok bytes => .ok ⟨path, bytes, none⟩
  | .error (.isDirectory path) => .ok ⟨path, [], some (FileError.isDirectory path).message⟩
  | .error e => .error e

/-- Which of the files of a tree a path leads to. Files are given by their paths from the root of
the tree, and so is the place reached so far, innermost part first. -/
def walk (files : List (List String × List UInt8)) (here : List String) : List String → Entry
  | [] =>
    match files.lookup here.reverse with
    | some bytes => .file bytes
    | none =>
      if here.isEmpty || files.any fun f => here.reverse.isPrefixOf f.1 then .directory
      else .missing
  | part :: rest =>
    match files.lookup here.reverse with
    | some _ => .blocked
    | none =>
      if !here.isEmpty && !files.any (fun f => here.reverse.isPrefixOf f.1) then .missing
      else if part = "" || part = "." then walk files here rest
      else if part = ".." then if here.isEmpty then .missing else walk files here.tail rest
      else walk files (part :: here) rest

/-- A working directory that holds the given files and nothing else. -/
def ofFiles (dir home : String) (env : String → Option String)
    (files : List (String × List UInt8)) : World where
  dir
  home := some home
  env
  entry path :=
    if path = "" then .missing
    else
      let root := (dir ++ "/").toList
      let cs := path.toList
      let cs := if root.isPrefixOf cs then cs.drop root.length else cs
      let files := files.map fun f => (f.1.splitOn "/", f.2)
      walk files [] ((String.ofList cs).splitOn "/")

end World

end FlowCheck
