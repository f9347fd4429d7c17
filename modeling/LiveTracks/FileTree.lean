/-!
# File trees

Directories and regular files from the root on, the directory that one works in, and what a path leads to. A path is
followed name by name, from the root if it begins with a slash and from the working directory otherwise. Reading a
file as text fails for reasons of the path or of the bytes (`ReadError`).
-/

namespace LiveTracks

/-- A regular file with its bytes, or a directory with what it holds by name. -/
inductive FileNode where
  | file (content : List UInt8)
  | directory (entries : List (String × FileNode))

/-- All that there is from the root on. A place in it is told by the names that lead there, innermost first, and so is
the working directory. -/
structure FileTree where
  root : FileNode
  workdir : List String

/-- Why a file is not read. -/
inductive ReadError where
  | notFound
  | notDirectory
  | isDirectory
  | nameTooLong
  | nulInPath
  | notText
deriving DecidableEq, Repr

def ReadError.text : ReadError → String
  | notFound => "No such file or directory (os error 2)"
  | notDirectory => "Not a directory (os error 20)"
  | isDirectory => "Is a directory (os error 21)"
  | nameTooLong => "File name too long (os error 36)"
  | nulInPath => "file name contained an unexpected NUL byte"
  | notText => "stream did not contain valid UTF-8"

namespace FileNode

def empty : FileNode := directory []

def entries : FileNode → List (String × FileNode)
  | file _ => []
  | directory entries => entries

/-- Changes what lies at the end of a row of names. Directories are made on the way, and at its end,
where there is nothing yet. -/
def alter (f : FileNode → FileNode) : List String → FileNode → FileNode
  | [], t => f t
  | name :: names, t =>
    let below := alter f names ((t.entries.lookup name).getD empty)
    directory ((name, below) :: t.entries.filter fun e => e.1 ≠ name)

end FileNode

namespace FileTree

/-- A fresh directory to work in, below the root. -/
def empty : FileTree := ⟨.directory [("work", .empty)], ["work"]⟩

/-- What stands at a place; nothing does where the names lead past all that there is. -/
def at? (t : FileTree) : List String → Option FileNode
  | [] => some t.root
  | name :: above => (t.at? above).bind (·.entries.lookup name)

/-! ### Paths -/

def names (path : String) : List String := (path.toList.splitOn '/').map String.ofList

/-- Where a path begins. -/
def start (t : FileTree) (path : String) : List String :=
  if path.toList.head? = some '/' then [] else t.workdir

/-- The place one name further on. An empty name or a dot stays in place. Two dots lead to the directory above, and
above the root is the root. -/
def onward (place : List String) (name : String) : List String :=
  if name = "" ∨ name = "." then place
  else if name = ".." then place.tail
  else name :: place

def makeDirectory (t : FileTree) (path : String) : FileTree :=
  { t with
    root := ((names path).foldl (fun (root, place) name =>
      let place := onward place name
      (root.alter (fun node => node) place.reverse, place)) (t.root, t.start path)).1 }

def writeFile (t : FileTree) (path : String) (content : List UInt8) : FileTree :=
  { t with root := t.root.alter (fun _ => .file content) ((names path).foldl onward (t.start path)).reverse }

def maxPath : Nat := 4095

def maxName : Nat := 255

/-- Follows one name from a place, which has to be a directory. -/
def step (t : FileTree) (place : List String) (name : String) : Except ReadError (List String) :=
  match t.at? place with
  | none => .error .notFound
  | some (.file _) => .error .notDirectory
  | some (.directory entries) =>
    if name = "" ∨ name = "." then .ok place
    else if name = ".." then .ok place.tail
    else if maxName < name.utf8ByteSize then .error .nameTooLong
    else if (entries.lookup name).isSome then .ok (name :: place)
    else .error .notFound

def walk (t : FileTree) (place : List String) (names : List String) : Except ReadError (List String) :=
  names.foldlM t.step place

/-- The bytes of the file that a path leads to. A path that ends with a slash leads to a directory or
nowhere. -/
def readBytes (t : FileTree) (path : String) : Except ReadError (List UInt8) :=
  if path.toList.contains '\x00' then .error .nulInPath
  else if path = "" then .error .notFound
  else if maxPath < path.utf8ByteSize then .error .nameTooLong
  else
    match t.walk (t.start path) (names path) with
    | .error e => .error e
    | .ok place =>
      match t.at? place with
      | none => .error .notFound
      | some (.directory _) => .error .isDirectory
      | some (.file content) => .ok content

def readText (t : FileTree) (path : String) : Except ReadError String :=
  match t.readBytes path with
  | .error e => .error e
  | .ok content =>
    match String.fromUTF8? ⟨content.toArray⟩ with
    | some text => .ok text
    | none => .error .notText

end FileTree

end LiveTracks
