import Blockwork.Session

/-!
The command line: plays the project in a file.
-/

namespace Blockwork

/-- Seconds since the session began. -/
def elapsed (start : Nat) : IO Float := do
  return Float.ofNat ((← IO.monoNanosNow) - start) / 1e9

/-- Some random fractions. -/
def randomDraws (n : Nat) : IO (List Float) :=
  (List.range n).mapM fun _ => do
    return Float.ofNat (← IO.rand 0 (Nat.pow 2 31 - 1)) / Float.ofNat (Nat.pow 2 31)

/-- Plays until no thread is left or a machine faults. -/
partial def playOn (start : Nat) (e : Engine) : IO Session.Ending := do
  let out ← IO.getStdout
  let (shown, e) := Session.takeLines e
  for line in shown do
    out.putStrLn line
  if Session.goesOn e then
    let e := Session.setReadings e (← elapsed start) (← randomDraws 1000)
    let e := e.step Session.fuel
    let e ←
      if Session.wantsLine e then do
        let (shown, e) := Session.takeLines e
        for line in shown do
          out.putStrLn line
        out.flush
        let line ← (← IO.getStdin).getLine
        pure (Session.respond e
          (if line.isEmpty then none else some (String.ofList (Session.dropLineEnd line.toList))))
      else pure e
    IO.sleep (UInt32.ofNat (1000 / e.world.config.frameRate))
    playOn start e
  else return Session.ending e

/-- Loads and plays a project; a project that cannot be loaded is reported. -/
def playFile (path : String) : IO UInt32 := do
  let err ← IO.getStderr
  let text? ← try pure (some (← IO.FS.readFile path)) catch _ => pure none
  let start ← IO.monoNanosNow
  let loaded :=
    match text? with
    | some text => Session.begin text {}
    | none => .error .unreadable
  match loaded with
  | .ok e => return (← playOn start e).exitCode
  | .error e =>
    err.putStrLn (path ++ ": " ++ e.message)
    return Session.Ending.notLoaded.exitCode

end Blockwork

def main (args : List String) : IO UInt32 :=
  Blockwork.playFile (args.head?.getD "project.json")
