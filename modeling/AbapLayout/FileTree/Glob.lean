import AbapLayout.FileTree.Basic

/-!
# Finding files by name

Name patterns with `*` for any characters, `?` for one, and sets of characters in square brackets.
A pattern for paths holds such patterns between slashes, and `**` in the place of a name stands for
any number of directories.
-/

namespace AbapLayout
namespace Glob

/-! ## Names -/

inductive Piece where
  | any
  | one
  | char (c : Char)
  /-- One character out of some ranges, or none of them. -/
  | set (negated : Bool) (ranges : List (Char × Char))
deriving DecidableEq, Repr

/-- The length of a set of characters behind its opening bracket, the closing one left out.  A
closing bracket in the first place belongs to the set. -/
def setLength? (t : Text) : Option Nat :=
  let mark := if t.head? == some '!' then 1 else 0
  let first := if (t.drop mark).head? == some ']' then mark + 1 else mark
  let n := first + ((t.drop first).takeWhile (· != ']')).length
  if n < t.length then some n else none

/-- Cuts a set of characters at the hyphens of its ranges.  The first `skip` characters, and the one
behind each hyphen, hold no such hyphen; `chunk` holds what was read since the last cut.  A hyphen
at the very end belongs to the chunk in front of it. -/
def chunks (skip : Nat) (chunk : Text) : Text → List Text
  | [] => if chunk.isEmpty then [] else [chunk]
  | [c] => if c == '-' && skip == 0 then [chunk ++ ['-']] else [chunk ++ [c]]
  | c :: cs =>
    if c == '-' && skip == 0 then chunk :: chunks 2 [] cs
    else chunks (skip - 1) (chunk ++ [c]) cs

/-- Joins chunks where the range between them would be empty: its ends are dropped. -/
def dropEmptyRanges : List Text → List Text
  | [] => []
  | a :: rest =>
    match a.getLast?, dropEmptyRanges rest with
    | some x, (y :: b) :: more =>
      if y < x then (a.dropLast ++ b) :: more else a :: (y :: b) :: more
    | _, more => a :: more

/-- The ranges of the characters of chunks, each chunk joined to the next by a range from its last
character to the first one there. -/
def rangesOf : List Text → List (Char × Char)
  | [] => []
  | a :: rest =>
    let others := rangesOf rest
    match a.getLast?, rest.head?.bind List.head?, others with
    | some x, some y, _ :: more => a.dropLast.map (fun c => (c, c)) ++ (x, y) :: more
    | _, _, _ => a.map (fun c => (c, c)) ++ others

/-- The piece of a set of characters: an exclamation mark at its front negates it. -/
def setPiece (body : Text) : Piece :=
  let cut := dropEmptyRanges (chunks (if body.head? == some '!' then 2 else 1) [] body)
  match cut with
  | ('!' :: a) :: rest =>
    if a.isEmpty then .set true (rangesOf rest) else .set true (rangesOf (a :: rest))
  | _ => .set false (rangesOf cut)

def pieces : Text → List Piece
  | [] => []
  | '*' :: cs => .any :: pieces cs
  | '?' :: cs => .one :: pieces cs
  | '[' :: cs =>
    match setLength? cs with
    | some n => setPiece (cs.take n) :: pieces (cs.drop (n + 1))
    | none => .char '[' :: pieces cs
  | c :: cs => .char c :: pieces cs
termination_by cs => cs.length

/-- Whether a piece stands for one given character. -/
def Piece.fits (p : Piece) (c : Char) : Bool :=
  match p with
  | .any => true
  | .one => true
  | .char d => c == d
  | .set negated ranges => (ranges.any fun r => r.1 ≤ c && c ≤ r.2) != negated

/-- Whether a name is made up of pieces. -/
def fits : List Piece → Text → Bool
  | [], [] => true
  | [], _ :: _ => false
  | .any :: ps, [] => fits ps []
  | .any :: ps, c :: cs => fits ps (c :: cs) || fits (.any :: ps) cs
  | _ :: _, [] => false
  | p :: ps, c :: cs => p.fits c && fits ps cs
termination_by ps cs => ps.length + cs.length

def accepts (pattern name : Text) : Bool :=
  fits (pieces pattern) name

/-! ## Paths -/

/-- One name in a pattern for paths. -/
inductive Part where
  /-- Any number of directories, one in the other. -/
  | depth
  /-- A name as it is. -/
  | name (s : String)
  /-- A name that fits a pattern. -/
  | pattern (t : Text)
deriving DecidableEq, Repr

def hasDoubleAsterisk : Text → Bool
  | '*' :: '*' :: _ => true
  | _ :: cs => hasDoubleAsterisk cs
  | [] => false

/-- The part of a pattern for paths that a name stands for.  Two asterisks stand alone only. -/
def Part.ofName? (s : String) : Option Part :=
  let t := s.toList
  if s == "**" then some .depth
  else if hasDoubleAsterisk t then none
  else if t.any ['*', '?', '['].contains then some (.pattern t)
  else some (.name s)

structure Pattern where
  parts : List Part
  /-- Only directories fit, since a slash stands at the end. -/
  directoriesOnly : Bool
deriving DecidableEq, Repr

def Pattern.ofText? (s : String) : Option Pattern :=
  ((Path.steps s).mapM Part.ofName?).map fun parts => ⟨parts, s.endsWith "/"⟩

end Glob

namespace FileTree

/-- The directories below a directory, links left out, as paths from there; the first one is the
directory itself. -/
def directoriesBelow (t : FileTree) (directory : Path) : List Path :=
  [] :: t.entries.filterMap fun e =>
    match e.2, Path.below? directory e.1 with
    | .directory, some (name :: rest) => some (name :: rest)
    | _, _ => none

def namesIn (t : FileTree) (directory : Path) : List String :=
  t.entries.filterMap fun e =>
    match Path.below? directory e.1 with
    | some [name] => some name
    | _ => none

/-- The paths that fit the parts of a pattern, seen from a directory.  Only a part that stands for
directories one in the other leaves out links. -/
def select (t : FileTree) : List Glob.Part → Path → List Path
  | [], p => [p]
  | .depth :: rest, p =>
    match t.follow p with
    | .ok q => (t.directoriesBelow q).flatMap fun below => t.select rest (p ++ below)
    | .error _ => []
  | .name s :: rest, p =>
    let q := p ++ [s]
    if if rest.isEmpty then t.exists? q else t.isDirectory q then t.select rest q else []
  | .pattern pattern :: rest, p =>
    match t.follow p with
    | .ok q =>
      (t.namesIn q).flatMap fun name =>
        if Glob.accepts pattern name.toList && (rest.isEmpty || t.isDirectory (p ++ [name])) then
          t.select rest (p ++ [name])
        else []
    | .error _ => []

/-- The paths below a directory that fit one of some patterns, in order. -/
def find (t : FileTree) (directory : Path) (patterns : List Glob.Pattern) : List Path :=
  if t.isDirectory directory then
    let found := patterns.flatMap fun g =>
      (t.select (.depth :: g.parts) directory).filter fun p =>
        !g.directoriesOnly || t.isDirectory p
    (found.mergeSort Path.isLE).eraseDups
  else []

/-- The files, links left out, below a directory with a path that fits one of some patterns. -/
def findFiles (t : FileTree) (directory : Path) (patterns : List Glob.Pattern) : List Path :=
  (t.find directory patterns).filter fun p => t.isFile p && !t.isLink p

end FileTree
end AbapLayout
