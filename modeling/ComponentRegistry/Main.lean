import ComponentRegistry.CommandLine.Run
import ComponentRegistry.Store.Document

/-! # The program

The command line over the files of the machine. A database is a file with the store as a document.
-/

open ComponentRegistry ComponentRegistry.CommandLine

/-- Look what there is at a path of the machine. -/
def lookOnDisk (path : String) : IO Holding := do
  try
    pure (.text (← IO.FS.readFile path))
  catch
    | .noFileOrDirectory .. => pure .nothing
    | .userError _ => pure .noText
    | _ => pure .directory

/-- Make the directory for a file. -/
def makeDirectoryFor (path : String) : IO Unit :=
  IO.FS.createDirAll (Location.ofText path).parent.text

/-- Open a database on the machine, which is made if it is missing. -/
def openOnDisk (path : String) : IO (Except DatabaseFault TableStore) := do
  if path == unwrittenDatabase then return .ok RegistryStore.empty
  if path.isEmpty then return .error .noTables
  try makeDirectoryFor path
  catch _ => return .error .directoryTaken
  match ← lookOnDisk path with
  | .nothing =>
    IO.FS.writeFile path ""
    return .ok RegistryStore.empty
  | .text contents =>
    match TableStore.ofText? contents with
    | some store => return .ok store
    | none => return .error .noDatabase
  | .directory => return .error .cannotOpen
  | .noText => return .error .noDatabase

instance : Workspace IO where
  look := lookOnDisk
  openStore := openOnDisk
  saveStore path store := do
    unless path == unwrittenDatabase do IO.FS.writeFile path store.text

/-- Run the program. -/
def main (arguments : List String) : IO UInt32 := do
  match ← run (← IO.getEnv "REGISTRAR_DB_PATH") arguments with
  | .finished code output console =>
    IO.print output
    IO.eprint console
    return UInt32.ofNat code
  | .helped =>
    IO.println "Usage: registrar [--config FILE] [--log-level LEVEL] [--version] COMMAND ..."
    return 0
  | .misused =>
    IO.eprintln "Usage: registrar [--config FILE] analyze | publish | resolve ..."
    return 2
  | .brokenOff cause =>
    IO.eprintln (reprStr cause)
    return 1
