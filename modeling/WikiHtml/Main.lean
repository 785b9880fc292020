-- The program on real files, with the arguments and the clock of the system.
import Std.Time.Zoned
import WikiHtml.CommandLine.Program

namespace WikiHtml.CommandLine

/-- The fault of a failure to read. -/
def FileFault.ofError : IO.Error → FileFault
  | .noFileOrDirectory _ _ _ => .missing
  | .permissionDenied _ _ _ => .denied
  | .inappropriateType _ code _ => if code = 21 then .isFolder else .notFolder
  | .userError _ => .notText
  | error => .other (toString error)

/-- Runs a reading action, and turns its failure into a value. -/
def caught {α : Type} (action : IO α) : IO (Except FileFault α) := do
  match ← action.toBaseIO with
  | .ok value => return .ok value
  | .error error => return .error (FileFault.ofError error)

/-- The files of the system. -/
def Disk.ofSystem : Disk IO where
  read path := caught (IO.FS.readFile path)
  list path := caught do
    let entries ← (System.mkFilePath [path]).readDir
    return entries.toList.map (·.fileName)
  hasFolder path := (System.mkFilePath [path]).isDir

/-- The current moment. -/
def currentMoment : IO Calendar.Moment := do
  let now ← Std.Time.PlainDateTime.now
  let date := Calendar.Date.of? now.date.year.toInt now.date.month.val.toNat now.date.day.val.toNat
  match date with
  | some date =>
    return ⟨date, now.time.hour.val.toNat, now.time.minute.val.toNat, now.time.second.val.toNat,
      now.time.nanosecond.val.toNat⟩
  | none => throw (IO.userError "the clock shows no date")

end WikiHtml.CommandLine

/-- Runs the program. -/
def main (args : List String) : IO UInt32 := do
  let config ← IO.getEnv "WIKI_RENDER_CONFIG"
  let now ← WikiHtml.CommandLine.currentMoment
  let outcome ← WikiHtml.CommandLine.run .ofSystem now config args
  IO.print outcome.output
  IO.eprint outcome.errors
  return outcome.exitCode.toUInt32
