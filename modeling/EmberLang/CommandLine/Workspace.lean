/-!
# Paths and files

A path is written in a normal form: without empty parts and without
parts that stay where they are. Parts that lead back are kept, because
what they lead back from has to exist.

A workspace is a directory with files in it, known by their paths
relative to the directory. Directories exist as far as there are files
in them.
-/

namespace EmberLang

/-- **A path.** -/
structure Path where
  /-- What it starts at: nothing for a relative path, one slash, or
  two. -/
  root : String
  /-- Its parts. -/
  parts : List String
  deriving DecidableEq, Repr

/-- What a path leads to. -/
inductive Entry where
  /-- A file with the given text. -/
  | file (text : String)
  /-- A directory. -/
  | directory
  /-- Nothing. -/
  | missing
  deriving DecidableEq, Repr

/-- **A directory with files in it**, known by their relative paths. -/
structure Workspace where
  /-- The files with their texts. -/
  files : List (String × String)

namespace Path

/-- What a path starts at. More than two slashes are as good as one. -/
def rootOf : List Char → String
  | '/' :: '/' :: '/' :: _ => "/"
  | ['/', '/'] => "//"
  | '/' :: '/' :: _ => "//"
  | '/' :: _ => "/"
  | _ => ""

/-- The characters before the first slash, between slashes and after the
last one. -/
def segments : List Char → List (List Char)
  | [] => [[]]
  | '/' :: cs => [] :: segments cs
  | c :: cs =>
    match segments cs with
    | [] => [[c]]
    | s :: rest => (c :: s) :: rest

/-- **Reads a path.** -/
def ofText (text : String) : Path where
  root := rootOf text.toList
  parts := ((segments text.toList).map String.ofList).filter fun part => part ≠ "" && part ≠ "."

/-- **The text of a path.** A path to where one is already is a dot. -/
def text (p : Path) : String :=
  if p.root = "" && p.parts.isEmpty then "." else p.root ++ "/".intercalate p.parts

/-- The path beside it whose last part has an addition. -/
def withSuffix (p : Path) (suffix : String) : Path :=
  match p.parts.reverse with
  | [] => p
  | last :: before => ⟨p.root, before.reverse ++ [last ++ suffix]⟩

end Path

namespace Workspace

/-- Whether the parts lead to a directory: to the workspace itself, or
to where there is a file below. -/
def isDirectory (w : Workspace) (parts : List String) : Bool :=
  parts.isEmpty || w.files.any fun file =>
    let path := (Path.ofText file.1).parts
    parts.isPrefixOf path && parts.length < path.length

/-- Follows parts from a place in the workspace. Every place on the way
must be a directory; nothing outside the workspace is known. -/
def follow? (w : Workspace) (place : List String) : List String → Option (List String)
  | [] => some place
  | part :: rest =>
    if !w.isDirectory place then none
    else if part = ".." then
      match place with
      | [] => none
      | _ => follow? w place.dropLast rest
    else follow? w (place ++ [part]) rest

/-- The place of a path in the workspace. -/
def place? (w : Workspace) (p : Path) : Option (List String) :=
  if p.root = "" then w.follow? [] p.parts else none

/-- Whether a path can only lead to a directory outside. -/
def leadsOut (p : Path) : Bool :=
  if p.root = "" then !p.parts.isEmpty && p.parts.all (· == "..") else p.parts.isEmpty

/-- **What a path leads to.** -/
def entry (w : Workspace) (p : Path) : Entry :=
  match w.place? p with
  | none => if leadsOut p then .directory else .missing
  | some place =>
    match w.files.find? fun file => (Path.ofText file.1).parts == place with
    | some file => .file file.2
    | none => if w.isDirectory place then .directory else .missing

/-- The name of a path among the files of the workspace. -/
def nameOf (w : Workspace) (p : Path) : String :=
  match w.place? p with
  | some place => "/".intercalate place
  | none => p.text

/-- **The files that writing creates or changes**, by name. -/
def changes (w : Workspace) (writes : List (Path × String)) : List (String × String) :=
  writes.filterMap fun (p, text) =>
    if w.entry p = .file text then none else some (w.nameOf p, text)

end Workspace

end EmberLang
