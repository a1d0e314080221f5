import LS8.Source

/-!
# Folders

A folder of named files and empty folders, and what comes of opening a path in it: what a command
that works there gets for the paths it is given. Opening a folder succeeds; reading it is what
fails.

A path can also leave the folder, upwards or by a slash in front that starts it at the root, where
every climb ends. Of what lies outside only the standard folders of the root are known, and the
devices with nothing to read: `null`, and standard input, which is empty.
-/

namespace LS8

inductive Entry where
  | file (bytes : List UInt8)
  | folder
deriving DecidableEq

structure Folder where
  entries : List (String × Entry)
  /-- How far below the root the folder lies that holds this one. -/
  holderDepth : Nat := 1

namespace Folder

/-- Where a path has led. -/
inductive Place where
  | here
  | file (bytes : List UInt8)
  /-- An empty folder in it. -/
  | inside
  /-- A folder outside, so many steps below the root. -/
  | outside (depth : Nat)
  | devices
  /-- The folder of what a process has open. -/
  | descriptors

def Place.ofEntry : Entry → Place
  | .file bytes => .file bytes
  | .folder => .inside

/-- Where paths that start with a slash begin. -/
def Place.root : Place := .outside 0

/-- The folders in the root, apart from that of devices. -/
def standardFolders : List String :=
  ["etc", "proc", "tmp", "usr", "var"]

def partLimit : Nat := 255

def pathLimit : Nat := 4095

/-- The folder that holds a folder. The root holds itself, and what a process has open is held by
the folder of the process, which is no device. -/
def parent (f : Folder) (place : Place) : Place :=
  match place with
  | .inside => .here
  | .here => .outside f.holderDepth
  | .outside depth => .outside (depth - 1)
  | .devices => .root
  | .descriptors => .outside 2
  | .file bytes => .file bytes

/-- What has a name at a place. -/
def find? (f : Folder) (place : Place) (name : String) : Option Place :=
  match place with
  | .here => (f.entries.lookup name).map Place.ofEntry
  | .outside 0 =>
    if name = "dev" then some .devices
    else if name ∈ standardFolders then some (.outside 1)
    else none
  | .devices =>
    if name = "null" || name = "stdin" then some (.file [])
    else if name = "fd" then some .descriptors
    else none
  | .descriptors => if name = "0" then some (.file []) else none
  | .inside | .outside _ | .file _ => none

/-- Goes on from a place by one part of a path. -/
def walk (f : Folder) (place : Place) (part : String) : Except IoError Place :=
  match place with
  | .file _ => .error .notDirectory
  | _ =>
    if part = "" || part = "." then .ok place
    else if part = ".." then .ok (f.parent place)
    else if partLimit < part.utf8ByteSize then .error .nameTooLong
    else
      match f.find? place part with
      | some next => .ok next
      | none => .error .notFound

/-- Where a path leads from a place, part by part. -/
def lead (f : Folder) (start : Place) (path : List Char) : Except IoError Place :=
  ((path.splitOn '/').map String.ofList).foldlM f.walk start

/-- What comes of opening what is at a place. -/
def Place.opened : Place → OpenedFile
  | .file bytes => .ok ⟨bytes, none⟩
  | .here | .inside | .outside _ | .devices | .descriptors => .ok ⟨[], some .isDirectory⟩

def openFile (f : Folder) (path : String) : OpenedFile :=
  if path = "" then .error .notFound
  else if pathLimit < path.utf8ByteSize then .error .nameTooLong
  else
    let start := if path.toList.head? = some '/' then .root else .here
    (f.lead start path.toList).bind Place.opened

end Folder

end LS8
