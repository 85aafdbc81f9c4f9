import NodeSchema.FileTree
import NodeSchema.Toml.Value

/-!
# Crate manifests

The manifest of a crate tells its version: the string `version` of its table `package`.
-/

set_option autoImplicit false

namespace NodeSchema
namespace Manifest

variable [Toml.DocumentReader]

/-- The version that the text of a manifest tells; `path` is shown in messages. -/
def versionOf (path : String) (text : List Char) : Except Failure String :=
  match Toml.DocumentReader.load text with
  | .error .malformed => .error (.manifestMalformed path)
  | .error (.fault f) => .error (.unreported f)
  | .ok entries =>
    match Toml.find? entries "package" with
    | some (.table package) =>
      match Toml.find? package "version" with
      | some (.string version) => .ok version
      | _ => .error (.versionMissing path)
    | _ => .error (.versionMissing path)

/-- The version that a manifest tells. -/
def version (tree : FileTree) (path : Path) : Except Failure String :=
  match tree.readText path with
  | .error (.unreported (.file .missing)) => .error (.manifestMissing path.toString)
  | .error e => .error e
  | .ok text => versionOf path.toString text

end Manifest
end NodeSchema
