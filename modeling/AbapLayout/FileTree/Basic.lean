import AbapLayout.Text.Quoted

/-!
# File trees

The files, directories and symbolic links of a file system, as a value.  Of the file system only
what lies below one directory, the home, is known; the directories above it are there, and
everything else is not.  A path is the list of the names on the way from the top.

There are two ways to follow a path.  `walk` goes step by step through directories and gives up
where there is none.  `resolve` also goes on where nothing is, steps back over the name before, and
never fails but for links that lead back to themselves.
-/

namespace AbapLayout

/-- The names on the way from the top of the file system. -/
abbrev Path := List String

/-- The time since a file was last changed. -/
structure Age where
  hours : Rat

instance : DecidableEq Age := fun a b =>
  match instDecidableEqRat a.hours b.hours with
  | isTrue h => isTrue (congrArg Age.mk h)
  | isFalse h => isFalse fun e => h (congrArg Age.hours e)

def Age.fresh : Age := ⟨0⟩

/-- What stands at a path. -/
inductive Node where
  /-- A file with its bytes and its age. -/
  | file (bytes : List UInt8) (age : Age)
  | directory
  | link (target : String)
deriving DecidableEq

/-- A file system as far as it is known. -/
structure FileTree where
  /-- The path of the home as it is displayed. -/
  root : String
  /-- The directory below which everything is known. -/
  home : Path
  entries : List (Path × Node) := []
deriving DecidableEq

/-- What stands in the way of an operation on a file. -/
inductive Obstacle where
  | notFound
  | notADirectory
  | isDirectory
  | nameTooLong
  | tooManyLinks
deriving DecidableEq, Repr

/-- The number and the wording of an obstacle. -/
def Obstacle.message : Obstacle → String
  | .notFound => "[Errno 2] No such file or directory"
  | .notADirectory => "[Errno 20] Not a directory"
  | .isDirectory => "[Errno 21] Is a directory"
  | .nameTooLong => "[Errno 36] File name too long"
  | .tooManyLinks => "[Errno 40] Too many levels of symbolic links"

/-- Why an operation on a file failed, with the path as it is displayed. -/
structure FileFault where
  obstacle : Obstacle
  path : String
deriving DecidableEq, Repr

def FileFault.message (f : FileFault) : String :=
  f.obstacle.message ++ ": " ++ Text.quoted f.path

/-- Why it cannot be told where a path leads. -/
inductive PathFault where
  /-- Links lead back to themselves. -/
  | loop
  /-- The path holds the character U+0000. -/
  | zeroCharacter
deriving DecidableEq, Repr

namespace Path

/-- The names of a path in displayed form. -/
def parts (s : String) : List String :=
  (s.toList.splitOn '/').map String.ofList

/-- Whether a name is no step at all: it is empty or stands for the same directory. -/
def isIdle (name : String) : Bool :=
  name == "" || name == "."

/-- The names of a path in displayed form, those that are no steps left out. -/
def steps (s : String) : List String :=
  (parts s).filter (!isIdle ·)

/-- A path in displayed form, relative to a directory. -/
def text (p : Path) : String :=
  if p.isEmpty then "." else "/".intercalate p

/-- A path in displayed form without names that are no steps.  Two slashes at its front are kept,
more than two count as one. -/
def tidy (s : String) : String :=
  let body := "/".intercalate (steps s)
  if s.startsWith "//" && !s.startsWith "///" then "//" ++ body
  else if s.startsWith "/" then "/" ++ body
  else if body.isEmpty then "." else body

/-- The path of another name in the same directory. -/
def sibling (p : Path) (rename : String → String) : Path :=
  p.dropLast ++ [rename (p.getLast?.getD "")]

/-- Paths are ordered name by name. -/
def isLE : Path → Path → Bool
  | [], _ => true
  | _ :: _, [] => false
  | a :: as, b :: bs => if a = b then isLE as bs else a < b

/-- The rest of a path below a directory. -/
def below? (directory p : Path) : Option Path :=
  if directory.isPrefixOf p then some (p.drop directory.length) else none

/-- A path without idle steps and steps back; a step back takes away the name before. -/
def normalize (p : Path) : Path :=
  p.foldl (fun q name =>
    if isIdle name then q else if name == ".." then q.dropLast else q ++ [name]) []

end Path

namespace FileTree

/-- A path in displayed form. -/
def display (t : FileTree) (p : Path) : String :=
  match Path.below? t.home p with
  | some [] => t.root
  | some rest => t.root ++ "/" ++ "/".intercalate rest
  | none => "/" ++ "/".intercalate p

/-- The displayed form of a path that is given relative to the home. -/
def displayFrom (t : FileTree) (s : String) : String :=
  if s.startsWith "/" then Path.tidy s
  else if (Path.steps s).isEmpty then t.root
  else t.root ++ "/" ++ Path.tidy s

def node? (t : FileTree) (p : Path) : Option Node :=
  if p.isPrefixOf t.home then some .directory else t.entries.lookup p

/-- Puts something at a path, in the place of what stands there. -/
def set (t : FileTree) (p : Path) (n : Node) : FileTree :=
  if t.entries.any (·.1 == p) then
    { t with entries := t.entries.map fun e => if e.1 = p then (p, n) else e }
  else { t with entries := t.entries ++ [(p, n)] }

def erase (t : FileTree) (p : Path) : FileTree :=
  { t with entries := t.entries.filter (·.1 != p) }

/-! ## Following paths -/

/-- Where a path in displayed form starts, seen from a directory, and which names come then. -/
def start (t : FileTree) (directory : Path) (s : String) : Path × List String :=
  if s = t.root then (t.home, [])
  else if s.startsWith (t.root ++ "/") then
    (t.home, (Path.parts s).drop (Path.parts t.root).length)
  else if s.startsWith "/" then ([], Path.parts s)
  else (directory, Path.parts s)

/-- What stands in the way of a step from a path, if it is no directory. -/
def barrier? (t : FileTree) (p : Path) : Option Obstacle :=
  match t.node? p with
  | some .directory => none
  | some _ => some .notADirectory
  | none => some .notFound

def maxNameSize : Nat := 255

def maxPathSize : Nat := 4095

def maxLinks : Nat := 40

/-- Goes step by step through directories.  `enter` goes on at a link, from the place it stands in,
with its target and the names behind it.  The last name may be one at which nothing stands. -/
def walkWith (t : FileTree) (enter : Path → String → List String → Except Obstacle Path)
    (place : Path) : List String → Except Obstacle Path
  | [] => .ok place
  | name :: rest =>
    match t.barrier? place with
    | some obstacle => .error obstacle
    | none =>
      if Path.isIdle name then t.walkWith enter place rest
      else if name = ".." then t.walkWith enter place.dropLast rest
      else if maxNameSize < name.utf8ByteSize then .error .nameTooLong
      else
        match t.node? (place ++ [name]) with
        | some (.link target) => enter place target rest
        | _ => t.walkWith enter (place ++ [name]) rest

/-- Goes step by step through directories and follows the links on the way, of which there may be no
more than `links`. -/
def walk (t : FileTree) : (links : Nat) → Path → List String → Except Obstacle Path
  | 0 => t.walkWith fun _ _ _ => .error .tooManyLinks
  | links + 1 => t.walkWith fun place target rest =>
    let (base, steps) := t.start place target
    t.walk links base (steps ++ rest)

/-- Where a path leads. -/
def follow (t : FileTree) (p : Path) : Except Obstacle Path :=
  if maxPathSize < (t.display p).utf8ByteSize then .error .nameTooLong
  else t.walk maxLinks [] p

/-- Takes steps without regard to what is there.  `enter` tells where a link leads, from the place
it stands in, its path and its target; where it leads back to itself, the second component is true,
and all names behind it stay as they are. -/
def expandWith (t : FileTree) (enter : Path → Path → String → Path × Bool) (place : Path) :
    List String → Path × Bool
  | [] => (place, false)
  | name :: rest =>
    if Path.isIdle name then t.expandWith enter place rest
    else if name = ".." then t.expandWith enter place.dropLast rest
    else
      let here := place ++ [name]
      match t.node? here with
      | some (.link target) =>
        match enter place here target with
        | (stuck, true) => (stuck ++ rest, true)
        | (reached, false) => t.expandWith enter reached rest
      | _ => t.expandWith enter here rest

/-- Takes steps and follows links without regard to what is there.  `pending` holds the links that
are being followed; where one of them is met again, it leads back to itself. -/
def expand (t : FileTree) : (fuel : Nat) → (pending : List Path) → Path → List String → Path × Bool
  | 0, _ => t.expandWith fun _ here _ => (here, true)
  | fuel + 1, pending => t.expandWith fun place here target =>
    if pending.contains here then (here, true)
    else
      let (base, steps) := t.start place target
      t.expand fuel (here :: pending) base steps

/-- Where a path in displayed form leads, seen from a directory. -/
def resolve (t : FileTree) (directory : Path) (s : String) : Except PathFault Path :=
  if s.toList.contains '\x00' then .error .zeroCharacter
  else
    let (base, steps) := t.start directory s
    let reached := Path.normalize (t.expand (t.entries.length + 1) [] base steps).1
    match t.follow reached with
    | .error .tooManyLinks => .error .loop
    | _ => .ok reached

/-! ## What is there -/

/-- What a path leads to. -/
def target? (t : FileTree) (p : Path) : Option Node :=
  match t.follow p with
  | .ok q => t.node? q
  | .error _ => none

def exists? (t : FileTree) (p : Path) : Bool :=
  (t.target? p).isSome

def isFile (t : FileTree) (p : Path) : Bool :=
  match t.target? p with
  | some (.file _ _) => true
  | _ => false

def isDirectory (t : FileTree) (p : Path) : Bool :=
  match t.target? p with
  | some .directory => true
  | _ => false

def isLink (t : FileTree) (p : Path) : Bool :=
  match t.follow p.dropLast with
  | .ok q =>
    match t.node? (q ++ p.getLast?.toList) with
    | some (.link _) => true
    | _ => false
  | .error _ => false

/-- The fault of asking what stands at a path.  Names that are too long are the only reason. -/
def nameFault? (t : FileTree) (p : Path) : Option FileFault :=
  match t.follow p with
  | .error .nameTooLong => some ⟨.nameTooLong, t.display p⟩
  | _ => none

/-! ## Operations -/

/-- The file a path leads to, with its age. -/
def openFile (t : FileTree) (p : Path) : Except FileFault (List UInt8 × Age) :=
  match t.follow p with
  | .error obstacle => .error ⟨obstacle, t.display p⟩
  | .ok q =>
    match t.node? q with
    | some (.file bytes age) => .ok (bytes, age)
    | some .directory => .error ⟨.isDirectory, t.display p⟩
    | _ => .error ⟨.notFound, t.display p⟩

def read (t : FileTree) (p : Path) : Except FileFault (List UInt8) :=
  (t.openFile p).map (·.1)

def age? (t : FileTree) (p : Path) : Option Age :=
  match t.target? p with
  | some (.file _ age) => some age
  | some .directory => some .fresh
  | _ => none

/-- Writes the file a path leads to, which is made if its directory is there. -/
def write (t : FileTree) (p : Path) (bytes : List UInt8) (age : Age) :
    Except FileFault FileTree :=
  match t.follow p with
  | .error obstacle => .error ⟨obstacle, t.display p⟩
  | .ok q =>
    match t.node? q with
    | some .directory => .error ⟨.isDirectory, t.display p⟩
    | _ => .ok (t.set q (.file bytes age))

def copy (t : FileTree) (source destination : Path) : Except FileFault FileTree :=
  match t.openFile source with
  | .ok (bytes, age) => t.write destination bytes age
  | .error fault => .error fault

def rename (t : FileTree) (source destination : Path) : FileTree :=
  match t.node? source with
  | some n => (t.erase source).set destination n
  | none => t

def remove (t : FileTree) (p : Path) : Except FileFault FileTree :=
  match t.node? p with
  | some .directory => .error ⟨.isDirectory, t.display p⟩
  | some _ => .ok (t.erase p)
  | none => .error ⟨.notFound, t.display p⟩

/-- Makes the directories of the given names, each in the one before, as far as they are missing. -/
def makeBelow (t : FileTree) (place : Path) : List String → Except Obstacle FileTree
  | [] =>
    match t.barrier? place with
    | some obstacle => .error obstacle
    | none => .ok t
  | name :: rest =>
    match t.walk maxLinks place [name] with
    | .error obstacle => .error obstacle
    | .ok next =>
      let made := if (t.node? next).isSome then t else t.set next .directory
      made.makeBelow next rest

/-- Makes a directory and those it stands in; nothing is made if something stands in the way. -/
def makeDirectories (t : FileTree) (p : Path) : Except FileFault FileTree :=
  match t.makeBelow [] p with
  | .ok made => .ok made
  | .error obstacle => .error ⟨obstacle, t.display p⟩

/-- What lies below the home, in the order of the displayed paths. -/
def listing (t : FileTree) : List (String × Node) :=
  (t.entries.filterMap fun e => (Path.below? t.home e.1).map fun p => (Path.text p, e.2)).mergeSort
    fun a b => a.1 ≤ b.1

end FileTree
end AbapLayout
