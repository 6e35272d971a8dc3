import TreeToCpp.CommandLine.Disk
import TreeToCpp.Trimming

/-!
# A model of a file system

Files and directories by absolute path, and a working directory. A path is walked through one
component at a time, and every component but the last has to be a directory; so does the last, when
a slash stands behind it. Nothing here knows links, permissions or limits.

Opening a file for writing never gives a directory, and a path that names one by its form alone,
with a slash or a dot at its end, is refused as a directory even when nothing is there.

## Main definitions

* `FileSystem` — entries by path and the working directory
* `FileSystem.locate` — the entry that a path leads to
* `FileSystem.disk` — the operations of a run on this model
-/

namespace TreeToCpp.CommandLine

/-- What a file holds. -/
inductive Content where
  | bytes (data : ByteArray)
  /-- Zero bytes that are not stored. -/
  | hole (size : Nat)

namespace Content

/-- The number of bytes. -/
def size : Content → Nat
  | .bytes data => data.size
  | .hole size => size

/-- The bytes. -/
def data : Content → ByteArray
  | .bytes data => data
  | .hole size => size.fold (fun _ _ zeros => zeros.push 0) ByteArray.empty

/-- The text that the bytes are the UTF-8 form of. -/
def text? (content : Content) : Option String :=
  String.fromUTF8? content.data

end Content

/-- What a path stands for. -/
inductive Entry where
  | directory
  | file (content : Content)

/-- The components of an absolute path. -/
abbrev Place := List String

/-- A file system with a working directory. -/
structure FileSystem where
  entries : List (Place × Entry)
  workingDirectory : Place

namespace FileSystem

/-- The entry at a place. The root is always there. -/
def entry? (fs : FileSystem) (place : Place) : Option Entry :=
  if place.isEmpty then some .directory else fs.entries.lookup place

/-- Replaces or adds an entry. -/
def put (fs : FileSystem) (place : Place) (entry : Entry) : FileSystem :=
  { fs with entries := (place, entry) :: fs.entries.filter (·.1 != place) }

/-- Adds the directories on the way to a place that are not there. -/
def putParents (fs : FileSystem) (place : Place) : FileSystem :=
  (List.range (place.length - 1)).foldl (fun fs length =>
    let parent := place.take (length + 1)
    if (fs.entry? parent).isSome then fs else fs.put parent .directory) fs

/-- The components of a path; empty ones do not count. -/
def components (path : String) : List String :=
  (path.splitOn "/").filter (· != "")

/-- Where the walk along a path begins. -/
def origin (fs : FileSystem) (path : String) : Place :=
  if path.startsWith "/" then [] else fs.workingDirectory

/-- Whether a slash at its end makes a path stand for a directory. -/
def namesDirectory (path : String) : Bool :=
  path.endsWith "/"

/-- One component further, from a place that has to be a directory. -/
def step (fs : FileSystem) (place : Place) (component : String) : Except OsError Place :=
  match fs.entry? place with
  | none => .error .notFound
  | some (.file _) => .error .notADirectory
  | some .directory =>
    .ok (if component = "." then place
      else if component = ".." then place.dropLast
      else place ++ [component])

/-- The entry that a path leads to. -/
def locate (fs : FileSystem) (path : String) : Except OsError Entry := do
  let place ← (components path).foldlM fs.step (fs.origin path)
  match fs.entry? place with
  | none => .error .notFound
  | some (.file content) =>
    if namesDirectory path then .error .notADirectory else return .file content
  | some .directory => return .directory

/-- The size that is reported for a directory. -/
def directorySize : Nat := 4096

/-- The size of a file. A directory has one too. -/
def size (fs : FileSystem) (path : String) : Except OsError Nat := do
  match ← fs.locate path with
  | .directory => return directorySize
  | .file content => return content.size

/-- The text of a file. -/
def read (fs : FileSystem) (path : String) : Except ReadFault String :=
  match fs.locate path with
  | .error error => .error (.os error)
  | .ok .directory => .error (.os .isADirectory)
  | .ok (.file content) =>
    match content.text? with
    | some text => .ok text
    | none => .error .notText

/-- The place that is written when a path is opened for writing. -/
def target (fs : FileSystem) (path : String) : Except OsError Place := do
  let parts := components path
  let parent ← parts.dropLast.foldlM fs.step (fs.origin path)
  let place ← fs.step parent (parts.getLastD ".")
  if namesDirectory path || [".", ".."].contains (parts.getLastD ".") then .error .isADirectory
  else
    match fs.entry? place with
    | some .directory => .error .isADirectory
    | _ => return place

/-- The file system after a text has become the content of a file. -/
def write (fs : FileSystem) (path text : String) : Except OsError FileSystem := do
  return fs.put (← fs.target path) (.file (.bytes text.toUTF8))

/-- The operations of a run on this model. A failure changes nothing. -/
def disk : Disk (StateM FileSystem) where
  size path := do return (← get).size path
  read path := do return (← get).read path
  write path text := do
    match (← get).write path text with
    | .ok fs =>
      set fs
      return .ok ()
    | .error error => return .error error

/-- The files in the working directory and below, by their paths from there. -/
def workingFiles (fs : FileSystem) : List (Place × Content) :=
  fs.entries.filterMap fun (place, entry) =>
    match entry, dropStart? fs.workingDirectory place with
    | .file content, some relative => some (relative, content)
    | _, _ => none

end FileSystem

end TreeToCpp.CommandLine
