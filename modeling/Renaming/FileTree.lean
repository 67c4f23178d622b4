import Renaming.Bytes
import Renaming.SortedMap
import Renaming.Trouble

/-!
# File trees

The files and directories under a working directory as a value. A location is the list of names on
the way from the working directory; a path is a text that may name a location in several ways.
Names are Unicode texts, nothing in a tree is a link, and there is nothing above the working
directory, so two paths lead to one file only by how they are spelled. Operations fail as a file
system makes them fail.
-/

namespace Renaming

abbrev Location := List String

namespace Location

/-- The order in which a walk visits locations: by the first name in which they differ. -/
def before : Location → Location → Bool
  | [], [] => false
  | [], _ :: _ => true
  | _ :: _, [] => false
  | a :: as, b :: bs => decide (a < b) || (a == b && before as bs)

theorem before_irrefl : ∀ l : Location, before l l = false
  | [] => rfl
  | a :: as => by
    rw [before, decide_eq_false (String.lt_irrefl a), before_irrefl as, Bool.and_false]
    rfl

theorem before_trans : ∀ {a b c : Location},
    before a b = true → before b c = true → before a c = true
  | [], b :: bs, c :: cs, _, _ => by simp [before]
  | a :: as, b :: bs, c :: cs, hab, hbc => by
    simp only [before, Bool.or_eq_true, Bool.and_eq_true, decide_eq_true_eq, beq_iff_eq] at *
    rcases hab with hab | ⟨rfl, hab⟩ <;> rcases hbc with hbc | ⟨rfl, hbc⟩
    · exact .inl (String.lt_trans hab hbc)
    · exact .inl hab
    · exact .inl hbc
    · exact .inr ⟨rfl, before_trans hab hbc⟩
  | [], [], _, h, _ => by simp [before] at h
  | _ :: _, [], _, h, _ => by simp [before] at h
  | [], _ :: _, [], _, h => by simp [before] at h
  | _ :: _, _ :: _, [], _, h => by simp [before] at h

theorem eq_of_not_before : ∀ {a b : Location}, before a b = false → before b a = false → a = b
  | [], [], _, _ => rfl
  | [], _ :: _, h, _ => by simp [before] at h
  | _ :: _, [], _, h => by simp [before] at h
  | a :: as, b :: bs, hab, hba => by
    simp only [before, Bool.or_eq_false_iff, Bool.and_eq_false_iff, decide_eq_false_iff_not,
      beq_eq_false_iff_ne, String.not_lt] at *
    have h : a = b := String.le_antisymm hba.1 hab.1
    subst h
    rw [eq_of_not_before (hab.2.resolve_left (by simp)) (hba.2.resolve_left (by simp))]

end Location

instance : Key Location where
  before := Location.before
  irrefl := Location.before_irrefl
  trans := Location.before_trans
  eq_of_not_before := Location.eq_of_not_before

namespace Path

/-- One step along a path. Above the root of the tree there is the root again. -/
def step (here : Location) (name : String) : Location :=
  if name.isEmpty || name == "." then here
  else if name == ".." then here.dropLast
  else here ++ [name]

/-- The location a path leads to; the empty path leads nowhere. A separator at its front leads to
the root of the tree, which is the working directory, too. -/
def location? (path : String) : Option Location :=
  if path.isEmpty then none else some ((Text.fields '/' path).foldl step [])

def join (root path : String) : String :=
  if root.isEmpty then path
  else if Text.endsWith "/" root then root ++ path
  else root ++ "/" ++ path

/-- The parts of a path that tell it from others: repeated separators and dots after the first part
say nothing. -/
def parts (path : String) : List String :=
  let root := if Text.startsWith "/" path then ["/"] else []
  root ++ ((Text.fields '/' path).zipIdx.filter fun (name, i) =>
    !name.isEmpty && (name != "." || i == 0)).map Prod.fst

/-- The last name of a path, without separators and dots after it. -/
def fileName? (path : String) : Option String :=
  let names := (Text.fields '/' path).zipIdx.filter fun (name, i) =>
    !name.isEmpty && (name != "." || i == 0)
  match names.getLast? with
  | none => none
  | some (name, _) => if name == "." || name == ".." then none else some name

/-- The part of the last name after its last dot, unless that dot is its first character. -/
def extension? (path : String) : Option String :=
  match fileName? path with
  | none => none
  | some name =>
    match Text.cutLast '.' name with
    | none => none
    | some (stem, ext) => if stem.isEmpty then none else some ext

/-- Whether a path names an archive rather than a directory. -/
def isArchive (path : String) : Bool :=
  (extension? path).any fun ext => ext.toLower == "zip" || ext.toLower == "jar"

/-- What stands after the last separator is a name, and not a way to a directory. -/
def endsInName (path : String) : Bool :=
  (Text.fields '/' path).getLast?.any fun name =>
    !(name.isEmpty || name == "." || name == "..")

/-- What stands last in a path, separators behind it left out, is a dot or two and no name. -/
def endsInDots (path : String) : Bool :=
  ((Text.fields '/' path).filter (!·.isEmpty)).getLast?.any fun name => name == "." || name == ".."

/-- A part of a path that leads no further. -/
def staysHere (part : String) : Bool := part.isEmpty || part == "."

/-- The path without its last name and without what leads no further on either side of that. -/
def parent (path : String) : String :=
  let above := ((Text.fields '/' path).reverse.dropWhile staysHere).tail
  Text.join "/" (above.dropWhile staysHere).reverse

end Path

inductive FileEntry where
  | file (content : Bytes)
  | directory
  deriving DecidableEq, Repr

structure FileTree where
  entries : SortedMap Location FileEntry := .empty
  deriving DecidableEq, Inhabited

namespace FileTree

/-- What is at a location; the root itself is always a directory. -/
def at? (t : FileTree) (l : Location) : Option FileEntry :=
  if l.isEmpty then some .directory else t.entries.get? l

def isFileAt (t : FileTree) (l : Location) : Bool :=
  match t.at? l with
  | some (.file _) => true
  | _ => false

/-- The proper ancestors of a location, the root left out. -/
def ancestors (l : Location) : List Location :=
  (List.range l.length).filterMap fun n => if n == 0 then none else some (l.take n)

/-- What a path leads to. -/
def find (t : FileTree) (path : String) : Except FileTrouble FileEntry :=
  match Path.location? path with
  | none => .error .notFound
  | some l =>
    if (ancestors l).any t.isFileAt then .error .notDirectory
    else
      match t.at? l with
      | none => .error .notFound
      | some (.file content) =>
        if Path.endsInName path then .ok (.file content) else .error .notDirectory
      | some .directory => .ok .directory

def isFile (t : FileTree) (path : String) : Bool :=
  match t.find path with
  | .ok (.file _) => true
  | _ => false

def isDirectory (t : FileTree) (path : String) : Bool :=
  match t.find path with
  | .ok .directory => true
  | _ => false

def pathExists (t : FileTree) (path : String) : Bool :=
  match t.find path with
  | .ok _ => true
  | .error _ => false

/-- Whether two paths lead to the same place; paths that lead nowhere are compared as written. -/
def samePlace (t : FileTree) (a b : String) : Bool :=
  if t.pathExists a && t.pathExists b then Path.location? a == Path.location? b
  else Path.parts a == Path.parts b

def readBytes (t : FileTree) (path : String) : Except FileTrouble Bytes :=
  match t.find path with
  | .ok (.file content) => .ok content
  | .ok .directory => .error .isDirectory
  | .error e => .error e

def readText (t : FileTree) (path : String) : Except FileTrouble String :=
  match t.readBytes path with
  | .error e => .error e
  | .ok content =>
    match content.text? with
    | some s => .ok s
    | none => .error .notText

def addDirectories (t : FileTree) (l : Location) : FileTree :=
  ⟨(ancestors l ++ if l.isEmpty then [] else [l]).foldl
    (fun m a => m.insertIfNew a .directory) t.entries⟩

def putFile (t : FileTree) (l : Location) (content : Bytes) : FileTree :=
  ⟨t.entries.insert l (.file content)⟩

/-- Makes a directory and all that are missing above it. -/
def createDirectories (t : FileTree) (path : String) : Except FileTrouble FileTree :=
  if path.isEmpty then .ok t
  else
    match Path.location? path with
    | none => .error .notFound
    | some l =>
      if (ancestors l).any t.isFileAt then .error .notDirectory
      else if t.isFileAt l then .error .alreadyExists
      else .ok (t.addDirectories l)

/-- The tree that is left when making directories stops after the first few names of the path. -/
def startDirectories (t : FileTree) (path : String) (names : Nat) : FileTree :=
  match Path.location? path with
  | none => t
  | some l => t.addDirectories (l.take names)

/-- Creates or truncates a file in a directory that exists. -/
def writeFile (t : FileTree) (path : String) (content : Bytes) : Except FileTrouble FileTree :=
  match Path.location? path with
  | none => .error .notFound
  | some l =>
    if (ancestors l).any t.isFileAt then .error .notDirectory
    else if Path.endsInDots path then
      match t.at? l with
      | none => .error .notFound
      | some (.file _) => .error .notDirectory
      | some .directory => .error .isDirectory
    else if t.at? l.dropLast = none then .error .notFound
    else if t.at? l = some .directory || Text.endsWith "/" path then .error .isDirectory
    else .ok (t.putFile l content)

/-- Puts a finished file in the place of what a path names, which must not be a directory. -/
def replaceFile (t : FileTree) (path : String) (content : Bytes) : Except FileTrouble FileTree :=
  match Path.location? path with
  | none => .error .notFound
  | some l =>
    if Path.endsInDots path then
      match t.at? l with
      | none => .error .notFound
      | some (.file _) => .error .notDirectory
      | some .directory => .error .busy
    else if Text.endsWith "/" path then .error .notDirectory
    else if t.at? l = some .directory then .error .isDirectory
    else .ok (t.putFile l content)

/-- The files below a location, each by the names that lead to it from there. -/
def filesBelow (t : FileTree) (root : Location) : List (Location × Bytes) :=
  t.entries.entries.filterMap fun (l, e) =>
    match e with
    | .directory => none
    | .file content =>
      if root.isPrefixOf l then some (l.drop root.length, content) else none

/-- All files by their paths from the root, in walking order. -/
def files (t : FileTree) : List (String × Bytes) :=
  (t.filesBelow []).map fun (l, content) => (Text.join "/" l, content)

end FileTree

end Renaming
