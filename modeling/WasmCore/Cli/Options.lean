import WasmCore.Text.Quoted

/-!
# Command-line options

Options start with one or two dashes and come before the arguments; `--` ends them. A switch may
have a value after an equals sign, an option with text may also have it as the next argument.
-/

namespace WasmCore.Cli

/-- The options of the command. -/
structure Options where
  help : Bool := false
  /-- The function to call; none if it is empty. -/
  call : String := ""
  verbose : Bool := false
  noColor : Bool := false
  deriving DecidableEq, Repr

/-- Why options cannot be read. -/
inductive OptionError where
  /-- Dashes without a name. -/
  | malformed (argument : String)
  | undefined (name : String)
  | missingValue (name : String)
  | invalidSwitch (name value : String)
  /-- Help was asked for by a name that is no option. -/
  | help
  deriving DecidableEq, Repr

/-- The error in words; asking for help is no error. -/
def OptionError.message : OptionError → String
  | .malformed argument => "bad flag syntax: " ++ argument
  | .undefined name => "flag provided but not defined: -" ++ name
  | .missingValue name => "flag needs an argument: -" ++ name
  | .invalidSwitch name value =>
    "invalid boolean value " ++ Text.quoted value ++ " for -" ++ name ++ ": parse error"
  | .help => ""

/-- The values of a switch. -/
def switchValue? (value : String) : Option Bool :=
  if ["1", "t", "T", "true", "TRUE", "True"].contains value then some true
  else if ["0", "f", "F", "false", "FALSE", "False"].contains value then some false
  else none

/-- Sets the switch of a name, if there is one. -/
def Options.switch? (o : Options) (name : String) (on : Bool) : Option Options :=
  match name with
  | "h" => some { o with help := on }
  | "v" => some { o with verbose := on }
  | "no-color" => some { o with noColor := on }
  | _ => none

/-- Why a name is refused that is no option; help is always available. -/
def OptionError.unknown (name : String) : OptionError :=
  if name = "help" then .help else .undefined name

/-- An argument that is an option: its name, and its value after an equals sign. -/
structure OptionText where
  name : String
  value : Option String

/-- An argument as an option. Without a dash, or with nothing but one, it is none. -/
def OptionText.ofArgument (argument : String) : Except OptionError (Option OptionText) :=
  match argument.toList with
  | '-' :: '-' :: rest => named rest
  | '-' :: c :: rest => named (c :: rest)
  | _ => .ok none
where
  /-- The characters after the dashes. -/
  named (cs : List Char) : Except OptionError (Option OptionText) :=
    match cs with
    | [] => .error (.malformed argument)
    | c :: rest =>
      if c = '-' || c = '=' then .error (.malformed argument)
      else
        let name := c :: rest.takeWhile (· ≠ '=')
        let value :=
          match rest.dropWhile (· ≠ '=') with
          | [] => none
          | _ :: v => some (String.ofList v)
        .ok (some ⟨String.ofList name, value⟩)

/-- Sets a switch, which is on unless it has a value that says otherwise. -/
def Options.setSwitch (o : Options) (t : OptionText) : Except OptionError Options :=
  match (t.value.map switchValue?).getD (some true) with
  | some on =>
    match o.switch? t.name on with
    | some o => .ok o
    | none => .error (.unknown t.name)
  | none =>
    if (o.switch? t.name true).isSome then .error (.invalidSwitch t.name (t.value.getD ""))
    else .error (.unknown t.name)

/-- The options at the front of the arguments, added to `o`, and the arguments after them. -/
def Options.parse (o : Options) (arguments : List String) :
    Except OptionError (Options × List String) :=
  match arguments with
  | [] => .ok (o, [])
  | argument :: rest =>
    if argument = "--" then .ok (o, rest)
    else
      match OptionText.ofArgument argument with
      | .error e => .error e
      | .ok none => .ok (o, argument :: rest)
      | .ok (some ⟨"call", some v⟩) => Options.parse { o with call := v } rest
      | .ok (some ⟨"call", none⟩) =>
        match rest with
        | [] => .error (.missingValue "call")
        | v :: rest => Options.parse { o with call := v } rest
      | .ok (some t) =>
        match o.setSwitch t with
        | .error e => .error e
        | .ok o => Options.parse o rest
termination_by arguments.length

/-- The description of the options, in alphabetical order. -/
def optionsText : String :=
  "  -call string\n" ++
  "    \tname of an exported function without parameters to call after instantiation\n" ++
  "  -h\tprint usage\n" ++
  "  -no-color\n" ++
  "    \tnever style the report, even when stdout is a terminal\n" ++
  "  -v\tlog decoding, instantiation and traps to stderr\n"

/-- The description of the command. -/
def usage : String :=
  "wasminit: loads a wasm binary and reports the instances it creates\n\n" ++
  "Usage:\n  wasminit <options> <path to wasm file>\n\n" ++
  "Options:\n" ++ optionsText

end WasmCore.Cli
