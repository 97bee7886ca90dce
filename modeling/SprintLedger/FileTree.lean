import SprintLedger.Storage

set_option autoImplicit false

namespace SprintLedger

abbrev Location := List ByteArray

inductive Node where
  | file (content : ByteArray)
  | directory
  | link (target : Path)

structure FileTree where
  nodes : List (Location × Node)
  current : Location

inductive Place where
  | directory (location : Location)
  | file (location : Location) (content : ByteArray)
  -- Nothing is there, but its directory is.
  | vacant (location : Location)
  | nowhere

namespace FileTree

def maxNameSize : Nat := 255

def pathSizeLimit : Nat := 4096

def maxLinks : Nat := 40

def nameOf (segment : List Char) : ByteArray := (String.ofList segment).toUTF8

def node? (t : FileTree) (location : Location) : Option Node :=
  if location = [] then some .directory else t.nodes.lookup location

-- The place to which the segments lead from a directory; `enter` goes on from a directory behind a
-- link. Only a last segment may name a file or nothing.
def follow (t : FileTree) (enter : Location → List (List Char) → Place) (here : Location) :
    List (List Char) → Place
  | [] => .directory here
  | segment :: rest =>
    if segment = [] ∨ segment = ['.'] then t.follow enter here rest
    else if segment = ['.', '.'] then t.follow enter here.dropLast rest
    else if maxNameSize < (nameOf segment).size then .nowhere
    else
      let there := here ++ [nameOf segment]
      match t.node? there with
      | none => if rest = [] then .vacant there else .nowhere
      | some (.file content) => if rest = [] then .file there content else .nowhere
      | some .directory => t.follow enter there rest
      | some (.link target) =>
        enter (if target.isAbsolute then [] else here) (target.segments ++ rest)

def walk (t : FileTree) : Nat → Location → List (List Char) → Place
  | 0 => t.follow fun _ _ => .nowhere
  | links + 1 => t.follow (t.walk links)

def place (t : FileTree) (p : Path) : Place :=
  if p = "" ∨ pathSizeLimit ≤ p.utf8ByteSize ∨ '\x00' ∈ p.toList then .nowhere
  else t.walk maxLinks (if p.isAbsolute then [] else t.current) p.segments

def put (t : FileTree) (location : Location) (node : Node) : FileTree :=
  { t with nodes := (location, node) :: t.nodes.filter (·.1 != location) }

def look (t : FileTree) (p : Path) : Content :=
  match t.place p with
  | .directory _ => .unreadable
  | .file _ content => .ofBytes content
  | .vacant _ => .missing
  | .nowhere => .missing

def write? (t : FileTree) (p : Path) (content : ByteArray) : Option FileTree :=
  match t.place p with
  | .file location _ => some (t.put location (.file content))
  | .vacant location => some (t.put location (.file content))
  | .directory _ => none
  | .nowhere => none

def read? (t : FileTree) (p : Path) : Option ByteArray :=
  match t.place p with
  | .file _ content => some content
  | _ => none

def isDirectory (t : FileTree) (p : Path) : Bool :=
  match t.place p with
  | .directory _ => true
  | _ => false

-- Whether the name, behind the path of its directory, leads to a directory. Only a name of UTF-8
-- text can stand behind a path.
def isDirectoryIn (t : FileTree) (dir : Path) (name : ByteArray) : Bool :=
  match String.fromUTF8? name with
  | some name => t.isDirectory (dir.join name)
  | none => false

def entryIn? (t : FileTree) (dir : Path) (parent location : Location) : Option DirectoryEntry :=
  match location.getLast? with
  | none => none
  | some name =>
    if location.dropLast == parent then some ⟨name, t.isDirectoryIn dir name⟩ else none

-- A path behind that of the directory may be too long, or lead through too many links, although the
-- directory can be listed.
def list? (t : FileTree) (p : Path) : Option (List DirectoryEntry) :=
  match t.place p with
  | .directory location => some (t.nodes.filterMap fun n => t.entryIn? p location n.1)
  | _ => none

instance : Storage (StateM FileTree) where
  look p t := (t.look p, t)
  save p text t :=
    match t.write? p text.toUTF8 with
    | some t' => (true, t')
    | none => (false, t)
  list? p t := (t.list? p, t)

end FileTree

end SprintLedger
