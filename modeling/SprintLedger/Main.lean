import SprintLedger.Program
import Std.Time.DateTime.Timestamp

set_option autoImplicit false

namespace SprintLedger

def located (path : Path) := System.mkFilePath [path]

-- A path that leads nowhere is missing; one that leads to no readable text is not.
def lookAt (path : Path) : IO Content := do
  if ← (located path).pathExists then
    match ← (IO.FS.readBinFile (located path)).toBaseIO with
    | .error _ => return .unreadable
    | .ok bytes => return .ofBytes bytes
  else
    return .missing

def saveAt (path : Path) (text : String) : IO Bool := do
  match ← (IO.FS.writeBinFile (located path) text.toUTF8).toBaseIO with
  | .error _ => return false
  | .ok _ => return true

def entriesOf? (path : Path) : IO (Option (List DirectoryEntry)) := do
  match ← (located path).readDir.toBaseIO with
  | .error _ => return none
  | .ok entries =>
    some <$> entries.toList.mapM fun e =>
      return ⟨e.fileName.toUTF8, ← (located (path.join e.fileName)).isDir⟩

instance : Storage IO := ⟨lookAt, saveAt, entriesOf?⟩

def runHere (args : List String) : IO UInt32 := do
  let env : Environment := ⟨← IO.getEnv "HOME", none, ← IO.getEnv "XDG_CONFIG_HOME"⟩
  let now ← Std.Time.Timestamp.now
  let colors ← (← IO.getStdout).isTty
  let ending ← Program.run env ⟨now.toSecondsSinceUnixEpoch.val, 0⟩ colors args
  IO.print (ending.output "")
  IO.eprint (ending.complaint fun _ => "")
  return UInt32.ofNat ending.exitCode

end SprintLedger

def main (args : List String) : IO UInt32 := SprintLedger.runHere args
