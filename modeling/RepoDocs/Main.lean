import RepoDocs.CommandLine.Run
import RepoDocs.Store.Identifier
import Std.Time.DateTime.Timestamp

/-! The program: it reads what a command needs, has the command carried out, and prints and writes
what comes of it.  It has no connection to any server, so every request remains without a response. -/

namespace RepoDocs.Main

open CommandLine

/-- What went wrong with a file. -/
def faultOf : IO.Error → Files.Fault
  | .noFileOrDirectory .. => .missing
  | .inappropriateType _ code _ => if code = 21 then .directory else .notDirectory
  | .permissionDenied _ code _ => .other s!"Permission denied (os error {code})"
  | e => .other (toString e)

/-- The text of a file. -/
def readText (path : String) : IO (Except Files.Fault String) := do
  try
    match String.fromUTF8? (← IO.FS.readBinFile path) with
    | some text => return .ok text
    | none => return .error .undecodable
  catch e => return .error (faultOf e)

/-- The variables of the environment that a command may ask for. -/
def variableNames : List String := ["GITHUB_TOKEN", "GITHUB_API_KEY", "OPENAI_API_KEY"]

/-- The surroundings of a command, as they are when it starts. -/
def surroundings (i : Invocation) : IO (Surroundings Unit) := do
  let texts ← i.inputs.mapM fun path => return (path, ← readText path)
  let values ← variableNames.mapM fun name => return (name, ← IO.getEnv name)
  let seed ← IO.rand 0 (Nat.pow 2 128 - 1)
  let nanos := (← Std.Time.Timestamp.now).toNanosecondsSinceUnixEpoch.toInt
  return {
    readText := fun path => (texts.lookup path).getD (.error .missing)
    env? := fun name => (values.lookup name).join
    names := { repository := fun n => identifier (seed + 3 * n)
               documentation := fun n => identifier (seed + 3 * n + 1)
               job := fun n => identifier (seed + 3 * n + 2) }
    now := fun _ => { seconds := nanos / 1000000000, nanos := (nanos % 1000000000).toNat }
    exchange := fun _ s => (.after 0 none, s) }

/-- Write the file that an outcome leaves to be written. -/
def write (o : Outcome) : IO Outcome := do
  match o.write? with
  | none => return o
  | some (path, content) =>
    try
      IO.FS.writeFile path content
      return o
    catch e => return o.unwritten path (faultOf e)

/-- The time in milliseconds after which a command is given up. -/
def limit : Nat := Nat.pow 2 40

/-- Carry out a command; the number is the exit status. -/
def carryOut (i : Invocation) : IO UInt32 := do
  match (i.run (← surroundings i) limit ()).1 with
  | none => return 1
  | some o =>
    let o ← write o
    IO.print o.stdout
    IO.eprint o.report
    return if o.errors.isEmpty then 0 else 1

end RepoDocs.Main

def main (args : List String) : IO UInt32 := do
  match RepoDocs.CommandLine.Invocation.parse args with
  | .ok i => RepoDocs.Main.carryOut i
  | .error f =>
    if f.isWish then
      IO.println f.message
      return 0
    else
      IO.eprintln f.message
      return 2
