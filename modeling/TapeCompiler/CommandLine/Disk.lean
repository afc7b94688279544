import TapeCompiler.CommandLine.Path
import TapeCompiler.Text.Quoted

namespace TapeCompiler

inductive DiskFault where
  | missing
  | notFolder
  | isFolder
  deriving DecidableEq, Repr

def DiskFault.message (fault : DiskFault) (path : Path) : String :=
  let cause :=
    match fault with
    | .missing => "[Errno 2] No such file or directory: "
    | .notFolder => "[Errno 20] Not a directory: "
    | .isFolder => "[Errno 21] Is a directory: "
  cause ++ Text.quoted path.text

structure Disk where
  files : List (List String × List UInt8)
  folders : List (List String)
  deriving DecidableEq, Repr

inductive Spot where
  | folder
  | file (place : List String) (bytes : List UInt8)
  | vacant (place : List String)
  deriving DecidableEq, Repr

namespace Disk

def file? (disk : Disk) (place : List String) : Option (List UInt8) :=
  (disk.files.find? (·.1 = place)).map (·.2)

def follow (disk : Disk) : Option (List String) → List String → Except DiskFault Spot
  | _, [] => .ok .folder
  | none, part :: rest => if part = ".." then disk.follow none rest else .error .missing
  | some folder, part :: rest =>
      if part = ".." then
        disk.follow (if folder = [] then none else some folder.dropLast) rest
      else
        let place := folder ++ [part]
        if disk.folders.contains place then disk.follow (some place) rest
        else
          match disk.file? place, rest with
          | some bytes, [] => .ok (.file place bytes)
          | some _, _ => .error .notFolder
          | none, [] => .ok (.vacant place)
          | none, _ => .error .missing

def locate (disk : Disk) (path : Path) : Except DiskFault Spot :=
  disk.follow (if path.root = "" then some [] else none) path.parts

def read (disk : Disk) (path : Path) : Except DiskFault (List UInt8) := do
  match ← disk.locate path with
  | .folder => .error .isFolder
  | .vacant _ => .error .missing
  | .file _ bytes => .ok bytes

def put (disk : Disk) (place : List String) (bytes : List UInt8) : Disk :=
  { disk with files := (place, bytes) :: disk.files.filter (·.1 ≠ place) }

def write (disk : Disk) (path : Path) (bytes : List UInt8) : Except DiskFault Disk := do
  match ← disk.locate path with
  | .folder => .error .isFolder
  | .vacant place | .file place _ => .ok (disk.put place bytes)

def makeFolder (disk : Disk) (place : List String) : Disk :=
  let around := (List.range place.length).map fun n => place.take (n + 1)
  { disk with folders := disk.folders ++ around }

def makeFile (disk : Disk) (place : List String) (bytes : List UInt8) : Disk :=
  (disk.makeFolder place.dropLast).put place bytes

def changesSince (disk before : Disk) : List (List String × List UInt8) :=
  disk.files.filter fun (place, bytes) => before.file? place ≠ some bytes

end Disk

end TapeCompiler
