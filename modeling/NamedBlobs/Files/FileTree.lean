import NamedBlobs.Entries
import NamedBlobs.Files.FileError
import NamedBlobs.Traced

/-!
# A tree of files

Files and directories as they are seen from a working directory. Every place is
given by where the walk to it set out and the names passed since, so that two
different names in one directory are two different places. The root and the
directories above the working directory exist and hold nothing that is not
listed.

A path is walked name by name: each name must be looked up in a directory, a
single dot and an empty name stay in it, two dots leave it.
-/

namespace NamedBlobs

namespace FileTree

/-- Where a walk sets out: at the root, or some levels above the working
directory. -/
inductive Origin where
  | root
  | above (levels : Nat)
  deriving DecidableEq

/-- A place in the tree; the innermost name comes first. -/
structure Place where
  origin : Origin
  names : List Bytes
  deriving DecidableEq

namespace Place

def here : Place := ⟨.above 0, []⟩

def root : Place := ⟨.root, []⟩

def child (place : Place) (name : Bytes) : Place := { place with names := name :: place.names }

def parent : Place → Place
  | ⟨origin, _ :: names⟩ => ⟨origin, names⟩
  | ⟨.root, []⟩ => ⟨.root, []⟩
  | ⟨.above levels, []⟩ => ⟨.above (levels + 1), []⟩

end Place

inductive Node where
  | file (contents : Bytes)
  | directory
  deriving DecidableEq

end FileTree

/-- The files and directories, by place. -/
structure FileTree where
  entries : List (FileTree.Place × FileTree.Node)

namespace FileTree

/-- The tree in which only the working directory and what is above it exist. -/
def empty : FileTree := ⟨[]⟩

def node? (tree : FileTree) (place : Place) : Option Node :=
  if place.names.isEmpty then some .directory else tree.entries.lookup place

def put (tree : FileTree) (place : Place) (node : Node) : FileTree :=
  ⟨(place, node) :: Entries.without tree.entries place⟩

def remove (tree : FileTree) (place : Place) : FileTree :=
  ⟨Entries.without tree.entries place⟩

theorem node?_put_self (tree : FileTree) (place : Place) (node : Node)
    (h : place.names.isEmpty = false) : (tree.put place node).node? place = some node := by
  simp [node?, put, h]

theorem node?_put_of_ne (tree : FileTree) {place other : Place} (node : Node)
    (h : other ≠ place) : (tree.put place node).node? other = tree.node? other := by
  simp only [node?, put, Entries.lookup_cons_of_ne h, Entries.lookup_without_of_ne _ h]

/-- The longest name that a directory can hold. -/
def maxName : Nat := 255

/-- The length from which on a path is too long to be walked. -/
def pathLimit : Nat := 4096

/-- The place that `name` leads to from `place`, whether or not something is
there. -/
def enter (tree : FileTree) (place : Place) (name : Bytes) : Except FileError Place :=
  match tree.node? place with
  | none => .error .notFound
  | some (.file _) => .error .notDirectory
  | some .directory =>
      match Path.Component.of name with
      | .parent => .ok place.parent
      | .current | .root => .ok place
      | .name name =>
          if name.isEmpty then .ok place
          else if name.length > maxName then .error .nameTooLong
          else .ok (place.child name)

def walk (tree : FileTree) (place : Place) : List Bytes → Except FileError Place
  | [] => .ok place
  | name :: names =>
      match tree.enter place name with
      | .error failure => .error failure
      | .ok place => walk tree place names

def start (path : Path) : Place := if path.isAbsolute then .root else .here

/-- Refuses the paths that are not walked at all. -/
def check (path : Path) : Except FileError Unit :=
  if path.bytes.contains 0 then .error .nulInPath
  else if path.bytes.isEmpty then .error .notFound
  else if path.bytes.length ≥ pathLimit then .error .nameTooLong
  else .ok ()

def read (tree : FileTree) (path : Path) : Except FileError Bytes :=
  match check path with
  | .error failure => .error failure
  | .ok () =>
      match tree.walk (start path) path.names with
      | .error failure => .error failure
      | .ok place =>
          match tree.node? place with
          | none => .error .notFound
          | some .directory => .error .isDirectory
          | some (.file contents) => .ok contents

/-- A path's last name and the names before it; the empty names at its end do
not count. -/
def splitLast (path : Path) : List Bytes × Option Bytes :=
  match path.names.reverse.dropWhile (·.isEmpty) with
  | [] => ([], none)
  | last :: before => (before.reverse, some last)

/-- Whether the path can only be that of a directory: it ends in a separator or
in dots. -/
def namesDirectory (path : Path) : Bool :=
  match path.names.getLast?.map Path.Component.of with
  | some (.name name) => name.isEmpty
  | _ => true

/-- The place that a file written to `path` takes. Nothing but a file may be
there. -/
def destination (tree : FileTree) (path : Path) : Except FileError Place :=
  match check path with
  | .error failure => .error failure
  | .ok () =>
      match tree.walk (start path) (splitLast path).1 with
      | .error failure => .error failure
      | .ok directory =>
          match tree.node? directory with
          | none => .error .notFound
          | some (.file _) => .error .notDirectory
          | some .directory =>
              if namesDirectory path then .error .isDirectory
              else
                match tree.enter directory ((splitLast path).2.getD []) with
                | .error failure => .error failure
                | .ok place =>
                    if tree.node? place = some .directory then .error .isDirectory else .ok place

def write (tree : FileTree) (path : Path) (contents : Bytes) : Except FileError FileTree :=
  match tree.destination path with
  | .error failure => .error failure
  | .ok place => .ok (tree.put place (.file contents))

/-- The place that a sequence of names leads to from `place`, a directory being
made wherever nothing stands yet. Directories made before a failure stay. -/
def makeAlong (tree : FileTree) (place : Place) :
    List Bytes → Except FileError Place × FileTree
  | [] => (.ok place, tree)
  | name :: names =>
      match tree.enter place name with
      | .error failure => (.error failure, tree)
      | .ok next =>
          let tree := if (tree.node? next).isSome then tree else tree.put next .directory
          makeAlong tree next names

/-- Makes the directory at `path` and those on the way, where they are missing. The
way is walked as it is written, so that a directory that is entered only to be
left again is made too. -/
def makeDirectories (tree : FileTree) (path : Path) : Except FileError Unit × FileTree :=
  if path.bytes.isEmpty then (.ok (), tree)
  else
    match check path with
    | .error failure => (.error failure, tree)
    | .ok () =>
        match tree.makeAlong (start path) path.names with
        | (.error failure, tree) => (.error failure, tree)
        | (.ok place, tree) =>
            if tree.node? place = some .directory then (.ok (), tree)
            else (.error .notDirectory, tree)

def install (tree : FileTree) (path : Path) : Node → Except FileError Unit × FileTree
  | .directory => tree.makeDirectories path
  | .file contents =>
      match tree.makeDirectories path.outer with
      | (.error failure, tree) => (.error failure, tree)
      | (.ok (), tree) =>
          match tree.write path contents with
          | .error failure => (.error failure, tree)
          | .ok tree => (.ok (), tree)

/-- Deletes the file at `path`. Answers whether there was one. -/
def delete (tree : FileTree) (path : Path) : Bool × FileTree :=
  match check path, tree.walk (start path) path.names with
  | .ok (), .ok place =>
      match tree.node? place with
      | some (.file _) => (true, tree.remove place)
      | _ => (false, tree)
  | _, _ => (false, tree)

instance : MonadFiles (Traced FileTree) where
  read path := .step fun tree => (tree.read path, tree)
  write path contents := .step fun tree =>
    match tree.write path contents with
    | .error failure => (.error failure, tree)
    | .ok tree => (.ok (), tree)

end FileTree

end NamedBlobs
