import SceneCompiler.CommandLine

/-!
The command line program: reads the inputs from disk, runs, prints, and writes what is new.
-/

namespace SceneCompiler.Program

def readText (path : String) : IO String := do
  let bytes ← IO.FS.readBinFile path
  return (String.fromUTF8? bytes).getD "�"

/-- The entry at a path on disk. Of the files below a directory only those that may be scenes have
their text. -/
partial def readEntry (path : String) : IO (Option Entry) := do
  let place := (← IO.currentDir) / path
  if ← place.isDir then
    let mut entries := []
    for entry in ← place.readDir do
      if ← entry.path.isDir then
        if let some e ← readEntry entry.path.toString then
          entries := entries ++ [(entry.fileName, e)]
      else
        let text ←
          if Discovery.isSceneName entry.fileName then readText entry.path.toString else pure ""
        entries := entries ++ [(entry.fileName, .file text)]
    return some (.directory entries)
  else if ← place.pathExists then return some (.file (← readText path))
  else return none

def markWay (t : FileTree) (path : String) : IO FileTree := do
  let mut t := t
  let mut way := []
  for part in Path.parts path do
    way := way ++ [part]
    if (t.top.get? way).isNone then
      let place := (← IO.currentDir) / ("/" ++ "/".intercalate way)
      if ← place.isDir then t := { t with top := t.top.put way (.directory []) }
      else if ← place.pathExists then t := { t with top := t.top.put way (.file "") }
  return t

def readDisk (current : String) (command : CommandLine.Command) : IO FileTree := do
  let start : FileTree := { current := Path.parts current }
  match command with
  | .help => return start
  | .generate a =>
    let mut t ← markWay start current
    for input in a.inputs do
      let path := Path.resolve current input
      t ← markWay t path
      if let some e ← readEntry path then t := { t with top := t.top.put (Path.parts path) e }
    markWay t (Path.resolve current a.output)

def printMessage : Level × String → IO Unit
  | (.log, text) => IO.println text
  | (_, text) => IO.eprintln text

end SceneCompiler.Program

open SceneCompiler in
def main (arguments : List String) : IO UInt32 := do
  let current := (← IO.currentDir).toString
  let before ←
    match CommandLine.parse {} arguments with
    | .ok command => Program.readDisk current command
    | .error _ => pure { current := Path.parts current }
  let (status, session) := CommandLine.run arguments { files := before }
  session.messages.forM Program.printMessage
  for (names, text) in session.files.changes before do
    let path := "/" ++ "/".intercalate names
    IO.FS.createDirAll (Path.directory path)
    IO.FS.writeFile path text
  return UInt32.ofNat status
