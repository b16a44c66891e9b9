import WasmCore.Cli.FileTree
import WasmCore.Cli.ModuleName
import WasmCore.Cli.Options
import WasmCore.Engine
import WasmCore.Report

/-!
# The command

Loads a module from a file, links it against the environment of guests, reports what was created,
and calls an exported function if asked to. Everything but the opening of the file is a function of
the arguments and the contents of the file.
-/

namespace WasmCore.Cli

open Machine

/-- What the command has written and how it ended. -/
structure Output where
  stdout : String := ""
  stderr : String := ""
  exitCode : Nat := 0
  /-- What was reported on the way, for the log. -/
  events : List Event := []

/-- What remains to be done after the arguments are read. -/
inductive Plan where
  /-- Nothing. -/
  | stop (output : Output)
  /-- Load a file. -/
  | load (options : Options) (path : String)

/-- Reads the arguments. -/
def plan (arguments : List String) : Plan :=
  match Options.parse {} arguments with
  | .error .help => .stop { stderr := "Usage of wasminit:\n" ++ optionsText }
  | .error e =>
    .stop { stderr := e.message ++ "\nUsage of wasminit:\n" ++ optionsText, exitCode := 2 }
  | .ok (options, rest) =>
    if options.help then .stop { stderr := usage }
    else
      match rest with
      | [] => .stop { stderr := "missing path to wasm file\n" ++ usage, exitCode := 1 }
      | path :: _ => .load options path

/-- The stream of an open file; reading a directory fails. -/
def openStream (path : String) : Entry → Except String Binary.Stream
  | .file bytes => .ok { bytes }
  | .directory => .ok { bytes := [], ending := .failing ("read " ++ path ++ ": is a directory") }
  | .missing => .error ("open " ++ path ++ ": no such file or directory")
  | .notDirectory => .error ("open " ++ path ++ ": not a directory")
  | .nameTooLong => .error ("open " ++ path ++ ": file name too long")
  | .invalid => .error ("open " ++ path ++ ": invalid argument")

/-- A failed command: what it says and what it had written before. -/
def failed (e : Engine) (stdout text : String) : Output :=
  { stdout, stderr := text ++ "\n", exitCode := 1, events := e.world.events.toList }

/-- A value with its type. -/
def typedText (v : Value) : String := v.type.text ++ ":" ++ v.text

/-- Calls the function that was asked for, after the report. -/
def callExport (fuel : Nat) (e : Engine) (a : ModuleAddr) (name report : String) : Output :=
  match e.exportedFunction? a name with
  | none => failed e report ("function " ++ Text.quoted name ++ " is not exported")
  | some f =>
    let (e, result) := e.call fuel a f []
    let stdout := report ++ e.world.console.text
    let problem (text : String) : Output :=
      failed e stdout ("error calling " ++ name ++ ": " ++ text)
    match result with
    | .arity expected given => problem (arityMessage expected given)
    | .ran (.trap t) => problem t.text
    | .ran (.broken d) => problem d.message
    | .ran .outOfFuel => problem "out of fuel"
    | .ran (.values results) =>
      let shown := String.intercalate ", " (results.map typedText)
      { stdout := stdout ++ name ++ "() = [" ++ shown ++ "]\n", events := e.world.events.toList }

/-- Loads a module and does what the options ask for. -/
def load (fuel : Nat) (options : Options) (path : String) (file : Entry) : Output :=
  match openStream path file with
  | .error reason => failed .default "" ("error reading wasm binary: " ++ reason)
  | .ok stream =>
    let (e, decoded) := Engine.default.decode (some stream)
    match decoded with
    | .error err => failed e "" ("error decoding wasm binary: " ++ err.message)
    | .ok loaded =>
      let (e, env) := e.env .console
      match env with
      | .error err => failed e "" ("error instantiating env: " ++ err.message)
      | .ok _ =>
        let (e, _, linked) := e.instantiate (moduleName path) (some loaded)
        match linked with
        | .error err => failed e "" ("error instantiating wasm binary: " ++ err.message)
        | .ok a =>
          let report := Report.text e.store a false
          if options.call.isEmpty then { stdout := report, events := e.world.events.toList }
          else callExport fuel e a options.call report

/-- The command on a tree of files. -/
def command (fuel : Nat) (files : FileTree) (arguments : List String) : Output :=
  match plan arguments with
  | .stop output => output
  | .load options path => load fuel options path (files.look path)

end WasmCore.Cli
