import ClauseTriage.FileSystem

/-!
# Files in memory

A store holds files and directories by place: the names on the way from the root. It answers as a
file system does. A path is followed name by name through directories that are there; what its last
name stands for is looked up by the request.
-/
namespace ClauseTriage

/-- Files and directories in memory, by place. -/
structure Store where
  files : List (List String × ByteArray) := []
  directories : List (List String) := []

namespace Store

/-- What stands at a place. -/
inductive Entry where
  | directory
  | file (bytes : ByteArray)

/-- Where a path ends: the directory that holds the end, the name there, and whether a slash follows
the name. A path that ends in points ends in a directory without naming it. -/
structure Target where
  directory : List String
  name : Option String
  closed : Bool

/-- Relative paths start here. The name is empty, so no path leads here by name. -/
def home : List String := [""]

/-- A file that takes everything and is always empty. -/
def sink : List String := ["dev", "null"]

/-- Directories that are always there. -/
def standing : List (List String) := [[], home, sink.dropLast, ["tmp"]]

def isDirectory (s : Store) (place : List String) : Bool :=
  standing.contains place || s.directories.contains place

def file? (s : Store) (place : List String) : Option ByteArray :=
  if place = sink then some ByteArray.empty
  else (s.files.find? fun f => f.1 == place).map (·.2)

/-- What a name in a directory stands for; a name has at most 255 bytes. -/
def look (s : Store) (directory : List String) (name : String) :
    Except SystemError (Option Entry) :=
  let place := directory ++ [name]
  if 255 < name.utf8ByteSize then .error .nameTooLong
  else if s.isDirectory place then .ok (some .directory)
  else .ok ((s.file? place).map .file)

/-- Goes on from a directory to another; nothing is above the root. -/
def enter (s : Store) (directory : List String) (piece : String) :
    Except SystemError (List String) := do
  if Path.isIdle piece then return directory
  if piece = ".." then return directory.dropLast
  match ← s.look directory piece with
  | some .directory => return directory ++ [piece]
  | some (.file _) => throw .notDirectory
  | none => throw .notFound

/-- A text that can be a path: neither empty, nor of 4096 bytes or more, nor with a zero in it. -/
def checkPath (path : String) : Except SystemError Unit :=
  if path.toList.any fun c => c.toNat == 0 then .error .zeroInName
  else if path.isEmpty then .error .notFound
  else if 4096 ≤ path.utf8ByteSize then .error .nameTooLong
  else .ok ()

/-- Follows a path up to its last name. -/
def follow (s : Store) (path : String) : Except SystemError Target := do
  checkPath path
  let pieces := (Path.pieces path).reverse
  match pieces.dropWhile (· == "") with
  | [] => return ⟨[], none, true⟩
  | last :: before =>
    let directory ← before.reverse.foldlM s.enter (if Path.isAbsolute path then [] else home)
    if last = "." ∨ last = ".." then return ⟨← s.enter directory last, none, true⟩
    return ⟨directory, some last, pieces.head? = some ""⟩

def read (s : Store) (path : String) : Except SystemError ByteArray := do
  let target ← s.follow path
  match target.name with
  | none => throw .isDirectory
  | some name =>
    match ← s.look target.directory name with
    | some (.file bytes) => if target.closed then throw .notDirectory else return bytes
    | some .directory => throw .isDirectory
    | none => throw .notFound

/-- A file takes the place of the one it replaces, or the last place. -/
def put (place : List String) (bytes : ByteArray) :
    List (List String × ByteArray) → List (List String × ByteArray)
  | [] => [(place, bytes)]
  | f :: rest => if f.1 = place then (place, bytes) :: rest else f :: put place bytes rest

/-- Writes a file into a directory that is there. -/
def write (s : Store) (path text : String) : Except SystemError Store := do
  let target ← s.follow path
  match target.name with
  | none => throw .isDirectory
  | some name =>
    if target.closed then throw .isDirectory
    match ← s.look target.directory name with
    | some .directory => throw .isDirectory
    | _ => return { s with files := put (target.directory ++ [name]) text.toUTF8 s.files }

/-- Makes a directory where nothing is. -/
def makeDirectory (s : Store) (path : String) : Except SystemError Store := do
  let target ← s.follow path
  match target.name with
  | none => throw .exists
  | some name =>
    match ← s.look target.directory name with
    | some _ => throw .exists
    | none => return { s with directories := s.directories ++ [target.directory ++ [name]] }

/-- Keeps the store when a change is refused. -/
def update (change : Store → Except SystemError Store) : StateM Store (Except SystemError Unit) :=
  fun s => match change s with
    | .ok s' => (.ok (), s')
    | .error e => (.error e, s)

/-- The store as a file system. -/
def fileSystem : FileSystem (StateM Store) where
  read path := fun s => (s.read path, s)
  write path text := update fun s => s.write path text
  makeDirectory path := update fun s => s.makeDirectory path

/-- The place of a path without `..` that starts at home. -/
def placeOf (path : String) : List String := home ++ Path.parts path

/-- A store with some files at home and the directories they are in. -/
def ofFiles (files : List (String × String)) : Store where
  files := files.map fun f => (placeOf f.1, f.2.toUTF8)
  directories := (files.flatMap fun f => (Path.ancestors f.1).tail.map placeOf).eraseDups

/-- All files at home, by path. -/
def toFiles (s : Store) : List (String × ByteArray) :=
  s.files.filterMap fun f => match f.1 with
    | name :: rest => if name.isEmpty then some (Text.join "/" rest, f.2) else none
    | [] => none

end Store

end ClauseTriage
