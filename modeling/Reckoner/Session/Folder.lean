import Reckoner.Session.File

/-!
# Folders in memory

A folder with files and folders in it, as plain data. A session or a command can be run in it
instead of on a disk. A path is followed from the folder itself. The folders outside it, those
above it and the root, are there but have nothing else in them.
-/

namespace Reckoner

/-- The names on the way from a folder to a file or folder. A way out of the folder begins with
two points for each folder above, or with a slash for the root. -/
abbrev Route := List String

/-- Files with their bytes, and folders, by their routes. -/
structure Folder where
  files : List (Route × ByteArray)
  folders : List Route

namespace Folder

/-- Nothing. -/
def empty : Folder := ⟨[], []⟩

/-- The bytes of a file. -/
def file? (folder : Folder) (route : Route) : Option ByteArray := folder.files.lookup route

/-- Whether a name stands for a folder that is there without having been made. -/
def isOuter (name : String) : Bool := name == ".." || name == "/"

/-- Whether a route leads to a folder: one that was made, one that something lies in, or one
outside. -/
def hasFolder (folder : Folder) (route : Route) : Bool :=
  route.all isOuter || folder.folders.any route.isPrefixOf
    || folder.files.any fun entry ↦ route.isPrefixOf entry.1 && route != entry.1

/-- The folder with a file, in place of one that was there. -/
def put (folder : Folder) (route : Route) (bytes : ByteArray) : Folder :=
  { folder with files := (route, bytes) :: folder.files.filter (·.1 != route) }

/-- The parts of a path between its slashes. -/
def parts : List Char → List (List Char)
  | [] => [[]]
  | c :: rest =>
    if c = '/' then [] :: parts rest
    else match parts rest with
      | [] => [[c]]
      | part :: others => (c :: part) :: others

/-- The longest name in bytes. -/
def nameLimit : Nat := 255

/-- The longest path in bytes. A longer one is refused before any name in it is followed. -/
def pathLimit : Nat := 4095

/-- The route that a name leads to from a folder. -/
def enter (route : Route) (name : String) : Route :=
  if name = "." then route
  else if name = ".." then
    match route.getLast? with
    | none | some ".." => route ++ [".."]
    | some "/" => route
    | some _ => route.dropLast
  else route ++ [name]

/-- Follow names, each of which has to lead to a folder. -/
def follow (folder : Folder) (route : Route) : List String → Except FileFault Route
  | [] => .ok route
  | name :: rest =>
    let next := enter route name
    if nameLimit < name.utf8ByteSize then .error .nameTooLong
    else if folder.hasFolder next then folder.follow next rest
    else .error (if (folder.file? next).isSome then .notADirectory else .notFound)

/-- Where a path leads: the folder that it ends in, and the name in that folder. -/
structure Target where
  parent : Route
  name : String
  /-- Whether the path says that the name is a folder's: it ends in a slash, or in points. -/
  isFolder : Bool

/-- Where a path leads, if it is short enough and the folders on its way are there. -/
def locate (folder : Folder) (path : String) : Except FileFault Target :=
  let names := ((parts path.toList).filter (!·.isEmpty)).map String.ofList
  let start : Route := if path.toList.head? = some '/' then ["/"] else []
  if path.isEmpty then .error .notFound
  else if path.toList.contains '\x00' then .error .nameWithNull
  else if pathLimit < path.utf8ByteSize then .error .nameTooLong
  else do
    let parent ← folder.follow start names.dropLast
    let name := names.getLast?.getD "."
    return ⟨parent, name, path.toList.getLast? = some '/' || name == "." || name == ".."⟩

/-- The text of a file. -/
def read (folder : Folder) (path : String) : Except FileFault String := do
  let target ← folder.locate path
  let route := enter target.parent target.name
  if nameLimit < target.name.utf8ByteSize then throw .nameTooLong
  else match folder.file? route with
    | some bytes =>
      if target.isFolder then throw .notADirectory
      else match String.fromUTF8? bytes with
        | some text => return text
        | none => throw .invalidText
    | none => throw (if folder.hasFolder route then .isADirectory else .notFound)

/-- The folder after a text was written to a file of it. -/
def write (folder : Folder) (path text : String) : Except FileFault Folder := do
  let target ← folder.locate path
  let route := enter target.parent target.name
  if target.isFolder then throw .isADirectory
  else if nameLimit < target.name.utf8ByteSize then throw .nameTooLong
  else if folder.hasFolder route then throw .isADirectory
  else return folder.put route text.toUTF8

end Folder

end Reckoner
