import WasmCore.Cli.Command
import WasmCore.Power

/-!
# The program

Opens the file, hands its contents to the command, and writes what the command says.
-/

namespace WasmCore.Cli

/-- The steps that a call of the program may make. -/
def fuel : Nat := 10 ^ 18

/-- An event as a line of the log. -/
def eventLine (e : Event) : String :=
  let shown : Event.Field → String
    | .text value => Text.quoted value
    | .number value => toString value
  let fields := e.fields.map fun (name, value) => name ++ "=" ++ shown value
  String.intercalate "\t" (e.level.name :: e.message :: fields)

/-- What a path leads to. -/
def entryOf (path : String) : IO Entry := do
  if let some entry := FileTree.refused? path then return entry
  try
    return .file (← IO.FS.readBinFile path).toList
  catch
    | .resourceVanished .. | .noFileOrDirectory .. => return .missing
    | .inappropriateType none .. => return .directory
    | .inappropriateType (some _) .. => return .notDirectory
    | .invalidArgument .. => return .nameTooLong
    | e => throw e

/-- Writes what the command says. -/
def Output.write (o : Output) (verbose : Bool) : IO UInt32 := do
  if verbose then o.events.forM fun e => IO.eprintln (eventLine e)
  IO.print o.stdout
  IO.eprint o.stderr
  return .ofNat o.exitCode

end WasmCore.Cli

open WasmCore.Cli in
/-- Runs the command. -/
def main (arguments : List String) : IO UInt32 := do
  match plan arguments with
  | .stop output => output.write false
  | .load options path => (load fuel options path (← entryOf path)).write options.verbose
