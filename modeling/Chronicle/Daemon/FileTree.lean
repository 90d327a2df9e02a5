import Chronicle.Snapshot
import Chronicle.Text.Lines

/-!
What a program finds on disk when it starts: files and folders, and what becomes of a
path that it looks up or creates. A path is followed step by step, and every step but
the last has to lead into a folder; a slash at the end of a path asks for one.
-/

namespace Chronicle

open Text

/-- A place on disk: the names that lead to it from the folder at hand, after the steps
up that come first, or after the root. -/
abbrev Place := List String

namespace Place

/-- The place that a step leads to. A step up takes the last name back, and leads
nowhere from the root. -/
def step (place : Place) (name : String) : Place :=
  if name = "." then place
  else if name = ".." then
    if place = ["/"] then place
    else if place.isEmpty || place.getLast? = some ".." then place ++ [".."]
    else place.dropLast
  else place ++ [name]

def ofPath (path : String) : Place := (pathSteps path).foldl step []

def isAbove (upper lower : Place) : Bool := upper.isPrefixOf lower && upper ≠ lower

end Place

def maxPathBytes : Nat := 4095

def maxNameBytes : Nat := 255

structure FileTree where
  /-- The path from the root to the folder at hand. -/
  home : String
  files : List (Place × Bytes)
  folders : List Place

inductive Node where
  | file (content : Bytes)
  | folder
deriving DecidableEq

namespace FileTree

def ofFiles (home : String) (files : List (String × Bytes)) : FileTree where
  home := home
  files := files.map (fun (path, content) => (Place.ofPath path, content))
  folders := []

/-- Folders are the folder at hand and those above it, the root, and all that lies above
something in the tree. -/
def isFolder (tree : FileTree) (place : Place) : Bool :=
  place.all (· = "..") || place = ["/"] ||
    tree.folders.any (fun folder => place.isPrefixOf folder) ||
    tree.files.any (fun file => place.isAbove file.1)

def node? (tree : FileTree) (place : Place) : Option Node :=
  match tree.files.find? (fun file => file.1 = place) with
  | some (_, content) => some (.file content)
  | none => if tree.isFolder place then some .folder else none

def follow (tree : FileTree) (place : Place) (name : String) : Except FileFault Place :=
  match tree.node? place with
  | none => .error .notFound
  | some (.file _) => .error .notDirectory
  | some .folder =>
      if maxNameBytes < name.utf8ByteSize then .error .nameTooLong else .ok (place.step name)

def walk (tree : FileTree) (steps : List String) : Except FileFault Place :=
  steps.foldlM tree.follow []

def checkPath (path : String) : Except FileFault Unit :=
  if path.toList.contains '\x00' then .error .nulInName
  else if path.isEmpty then .error .notFound
  else if maxPathBytes < path.utf8ByteSize then .error .nameTooLong
  else .ok ()

def findSteps (tree : FileTree) (steps : List String) : Except FileFault Node := do
  match tree.node? (← tree.walk steps) with
  | some node => .ok node
  | none => .error .notFound

def find (tree : FileTree) (path : String) : Except FileFault Node := do
  checkPath path
  tree.findSteps (pathSteps path ++ (if path.toList.getLast? = some '/' then ["."] else []))

/-- What is found under a path that is written out from the root before it is followed. -/
def findFromRoot (tree : FileTree) (path : String) : Except FileFault Node := do
  checkPath (pathFrom tree.home path)
  tree.find path

def makeFolder (tree : FileTree) (steps : List String) : Except FileFault FileTree :=
  match steps.getLast? with
  | none => .error .notFound
  | some last => do
      let place ← tree.follow (← tree.walk steps.dropLast) last
      if last = "." || last = ".." || (tree.node? place).isSome then .error .alreadyExists
      else .ok { tree with folders := place :: tree.folders }

def ensureFolder (tree : FileTree) (steps : List String) : Except FileFault FileTree :=
  match tree.makeFolder steps with
  | .ok longer => .ok longer
  | .error fault =>
      match tree.findSteps steps with
      | .ok .folder => .ok tree
      | _ => .error fault

/-- Makes a folder, and first those above it, nearest first, if something on the way to it
is missing. -/
def createSteps (tree : FileTree) (steps : List String) :
    List String → Except FileFault FileTree
  | [] => tree.ensureFolder steps
  | above :: higher =>
      match tree.ensureFolder steps with
      | .error .notFound => do
          let longer ← tree.createSteps (above :: higher).reverse higher
          longer.ensureFolder steps
      | result => result

def createFolder (tree : FileTree) (path : String) : Except FileFault FileTree :=
  if path.isEmpty then .ok tree
  else do
    checkPath path
    tree.createSteps (pathSteps path) (namingSteps path).reverse.tail

def checkWritable (tree : FileTree) (path : String) : Except FileFault Unit := do
  checkPath path
  match tree.find path with
  | .ok .folder => .error .isDirectory
  | .ok (.file _) => .ok ()
  | .error .notFound => .ok ()
  | .error fault => .error fault

/-- The name that a place has in a folder, or that it lies under there. -/
def nameIn? (folder place : Place) : Option String :=
  if folder.isPrefixOf place then (place.drop folder.length).head? else none

def directory (tree : FileTree) (folder : Place) : Directory :=
  SortedMap.ofList (tree.files.filterMap fun (place, content) =>
    if place.length = folder.length + 1 then
      (nameIn? folder place).map (fun name => (name, content))
    else none)

def names (tree : FileTree) (folder : Place) : List String :=
  (tree.files.map (·.1) ++ tree.folders).filterMap (nameIn? folder)

end FileTree

end Chronicle
