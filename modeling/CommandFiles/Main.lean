import CommandFiles.Program

/-!
# The command line

Takes in the files that a run can look at, runs the program on them, and writes back the files that
the run has changed. It starts no other programs itself: where a command would be run it says that
the interpreter cannot be started.
-/

namespace CommandFiles.Shell

/-- The content of a file. -/
def contentOf (bytes : ByteArray) : Content :=
  match String.fromUTF8? bytes with
  | some s => .text s
  | none => .binary bytes.toList

/-- Reads the entry at a path, with all that lies below it. Packages are left out. -/
partial def readEntry (path : String) : IO (Option Entry) := do
  let place := (← IO.currentDir) / path
  if ← place.isDir then
    let mut entries := []
    for found in ← place.readDir do
      if found.fileName ≠ "node_modules" then
        if let some e ← readEntry (Path.under path found.fileName) then
          entries := (found.fileName, e) :: entries
    return some (.directory entries.reverse)
  else if ← place.pathExists then
    return some (.file (contentOf (← IO.FS.readBinFile place)))
  else return none

/-- Takes an entry of the disk into a file system. -/
def takeIn (fs : FileSystem) (path : String) : IO FileSystem := do
  match ← readEntry path with
  | none => return fs
  | some e =>
    let above := ((Path.parent? path).map Path.ancestors).getD []
    let (_, fs) := FileSystem.makeDirectories above fs
    match fs.place path with
    | .ok ⟨trail, some name, _⟩ => return fs.put (name :: trail).reverse e
    | _ => return fs

/-- Takes several entries in. -/
def takeAll (fs : FileSystem) (paths : List String) : IO FileSystem := paths.foldlM takeIn fs

/-- The files whose content is not what it was, with what they hold. -/
def changed (before after : FileSystem) : List (String × String) :=
  (after.root.files []).filterMap fun names =>
    match before.root.at? names, after.root.at? names with
    | some (.file (.text old)), some (.file (.text new)) =>
      if old = new then none else some ("/" ++ "/".intercalate names, new)
    | _, some (.file (.text new)) => some ("/" ++ "/".intercalate names, new)
    | _, _ => none

/-- Writes a file to the disk. -/
def writeBack (file : String × String) : IO Unit := do
  if let some directory := Path.parent? file.1 then IO.FS.createDirAll directory
  IO.FS.writeFile file.1 file.2

/-- The terminal, which starts no programs. -/
def terminal (fs : FileSystem) : Surroundings IO where
  absolute path := return fs.absolute path
  capture _ := return .error .permissionDenied
  start _ := return .error .permissionDenied
  print s := IO.print s
  warn w := IO.eprintln s!"WARN {w.message}"
  complain s := IO.eprint s

/-- The paths that a run in a context can look at. -/
def pathsOf (c : Context) (flags : CommandLine.Reserved) : List String :=
  [c.rootDir, c.commandsRoot, c.cachePath] ++ (flags.printOpts.map (Path.under c.cwd)).toList

/-- Takes in all files that a run can look at. -/
def gather (s : Program.Setting) (arguments : List String) : IO FileSystem := do
  let start : FileSystem := { cwd := (Path.segmentsBelow "/" s.cwd) }
  let configs := (Path.ancestors s.cwd).map fun d => Path.under d Config.fileName
  let explicit := (s.configFile.map (Path.under s.cwd)).toList
  let fs ← takeAll start (configs ++ explicit)
  let config := (Config.load fs s.configFile s.cwd).toOption.getD (Config.anchored s.cwd)
  let flags := match CommandLine.Reserved.split arguments with
    | .ok (flags, _) => flags
    | .error _ => {}
  let asked := match flags.configure with
    | some r => Scaffold.configFor s.cwd r
    | none => config
  takeAll fs (pathsOf ⟨asked, s.cwd, s.home⟩ flags)

/-- The failure of a run, as it is told. -/
def failureText (e : ProgramError) : String :=
  let painter : Report.Painter := ⟨false⟩
  match e with
  | .action (.validation messages) => painter.error (ActionFailure.validation messages).message
  | .discovery d =>
    let generated := (d.generated?.map fun g => "\n" ++ painter.dim g).getD ""
    painter.failureLine e.message ++ generated
  | e => painter.failureLine e.message

end CommandFiles.Shell

open CommandFiles in
/-- Runs the program with its arguments. -/
def main (arguments : List String) : IO UInt32 := do
  let setting : Program.Setting :=
    { binaryName := "zli", configFile := ← IO.getEnv "ZLI_CONFIG"
      cwd := (← IO.currentDir).toString, home := (← IO.getEnv "HOME").getD "" }
  let before ← Shell.gather setting arguments
  let (result, after) ← (Program.run (Shell.terminal before) setting arguments).run.run before
  (Shell.changed before after).forM Shell.writeBack
  match result with
  | .ok status => return UInt32.ofNat (status % 256).toNat
  | .error e => do
    IO.eprintln (Shell.failureText e)
    return 1
