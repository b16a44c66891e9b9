/-!
# Names of modules

The module in a file is named after the last part of the path, without its extension.
-/

namespace WasmCore.Cli

/-- The part of a path after its last slash, slashes at the end apart. An empty path has the name
`.` and one of slashes only has the name `/`. -/
def baseName (path : String) : String :=
  if path.isEmpty then "."
  else
    let reversed := path.toList.reverse.dropWhile (· = '/')
    if reversed.isEmpty then "/" else String.ofList (reversed.takeWhile (· ≠ '/')).reverse

/-- A name without its extension, which starts at its last dot. -/
def withoutExtension (name : String) : String :=
  let reversed := name.toList.reverse
  match reversed.dropWhile (· ≠ '.') with
  | [] => name
  | _ :: stem => String.ofList stem.reverse

/-- The name under which the module in a file is instantiated. -/
def moduleName (path : String) : String :=
  let name := withoutExtension (baseName path)
  if name.isEmpty || name = "." || name = "/" then "unnamed" else name

end WasmCore.Cli
