/-!
# Folders

A folder tree holds files under names. A name with slashes is a way from the tree's own folder, or
from the root if it starts with a slash. A file can be created where the way up to its last step
leads through folders and no folder stands at its end; a missing file can be neither opened nor
read, and a folder can be opened but not read.

The file system bounds how long a step and a whole way may be. How much of a way leads to the tree's
own folder is a parameter of the tree.
-/

namespace EventConditions

/-- What stands at a place. -/
inductive Entry where
  | file (bytes : List UInt8)
  | folder

/-- A folder tree: everything in it, by the steps that lead there. The tree's own folder is always
there, under no steps, and so are the folders above it and the root. -/
structure Folder where
  entries : List (List String × Entry) := []
  /-- How many bytes the way from the root to the tree's own folder takes. -/
  ownWay : Nat := 0

namespace Folder

/-- Only steps upwards, or the root: a place that the tree does not hold, but lies in. -/
def isAbove (place : List String) : Bool :=
  place.all (· == "..") || place == ["/"]

/-- What stands at a place. -/
def find? (f : Folder) (place : List String) : Option Entry :=
  if isAbove place then some .folder else f.entries.lookup place

/-- A folder stands at a place. -/
def hasFolder (f : Folder) (place : List String) : Bool :=
  match f.find? place with
  | some .folder => true
  | _ => false

/-- Steps hold no NUL and at most 255 bytes. -/
def isStep (s : String) : Bool :=
  !s.contains '\x00' && s.utf8ByteSize ≤ 255

/-- The folder around a place. The root is around itself. -/
def outward (place : List String) : List String :=
  if place == ["/"] then place
  else if isAbove place then place ++ [".."]
  else place.dropLast

/-- The place one step on. Nothing and one dot stay, two dots lead outwards. -/
def onward (place : List String) (step : String) : List String :=
  if step = "" ∨ step = "." then place
  else if step = ".." then outward place
  else place ++ [step]

/-- Takes steps from a place on. Each must start from a folder; the last one may lead to nothing. -/
def follow? (f : Folder) (place : List String) : List String → Option (List String)
  | [] => some place
  | step :: rest =>
    if f.hasFolder place && isStep step then f.follow? (onward place step) rest else none

/-- The most bytes that a file system takes a way from the root with. -/
def maxWay : Nat := 4095

/-- Where the way of a name starts. A way that would be too long starts nowhere. -/
def start? (f : Folder) (name : String) : Option (List String) :=
  if name.startsWith "/" then
    if name.utf8ByteSize ≤ maxWay then some ["/"] else none
  else
    if f.ownWay + name.utf8ByteSize ≤ maxWay then some [] else none

/-- The place that a name with slashes leads to. -/
def locate? (f : Folder) (name : String) : Option (List String) :=
  (f.start? name).bind fun place => f.follow? place (name.splitOn "/")

/-- Puts something at a place instead of what stood there. -/
def put (f : Folder) (place : List String) (entry : Entry) : Folder :=
  { f with entries := (place, entry) :: f.entries.filter (·.1 != place) }

/-- Writes a file, unless it cannot be created. -/
def write? (f : Folder) (name : String) (bytes : List UInt8) : Option Folder :=
  match f.locate? name with
  | some place => if f.hasFolder place then none else some (f.put place (.file bytes))
  | none => none

/-- What a name that can be opened leads to. -/
def open? (f : Folder) (name : String) : Option Entry :=
  (f.locate? name).bind f.find?

/-- Takes steps from a place on and makes the folders that are missing on the way. No file may stand
in the way. -/
def makeWay? (f : Folder) (place : List String) : List String → Option Folder
  | [] => some f
  | step :: rest =>
    if isStep step then
      let next := onward place step
      match f.find? next with
      | some .folder => f.makeWay? next rest
      | some (.file _) => none
      | none => (f.put next .folder).makeWay? next rest
    else none

/-- Makes a folder and the missing ones around it. -/
def makeFolder? (f : Folder) (name : String) : Option Folder :=
  (f.start? name).bind fun place => f.makeWay? place (name.splitOn "/")

end Folder

end EventConditions
