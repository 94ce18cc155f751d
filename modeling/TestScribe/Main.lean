import TestScribe.CommandLine

/-!
# The program
-/

namespace TestScribe

/-- Write a text into a file that has been opened for it. -/
def writeOpened (file : IO.FS.Handle) (text : String) : IO WriteResult := do
  try
    file.putStr text
    file.flush
    return .written
  catch _ => return .notWritten

instance : Storage IO where
  readText p := do
    try
      return some (← IO.FS.readFile p)
    catch _ => return none
  makeDirectories p := do
    if !p.isValid then return false
    try
      if p != "" then IO.FS.createDirAll p
      return true
    catch _ => return false
  writeFile p text := do
    let file ←
      try
        pure (some (← IO.FS.Handle.mk p .write))
      catch _ => pure none
    match file with
    | none => return .notCreated
    | some file => writeOpened file text
  remove p := do
    try
      IO.FS.removeFile p
    catch _ => return ()

end TestScribe

open TestScribe in
def main (args : List String) : IO UInt32 := do
  let ending : Ending ← commandLine args
  IO.print ending.output
  if ending.exitCode = 2 then IO.eprint ending.message
  else if ending.message != "" then IO.eprintln ending.message
  return ending.exitCode.toUInt32
