import NodeSchema.Failure
import NodeSchema.Path

/-!
# What a run meets outside the files

The home directories of users, the current directory, and what is printed, are told and taken by the
system (`Host`), and each of these may fail with a fault.
-/

set_option autoImplicit false

namespace NodeSchema

/-- The system that a run asks. -/
class Host where
  /-- The home directory of a user; the empty name stands for the user of the run. -/
  home : String → Except Fault Path
  /-- Whether the current directory can be told. -/
  directory : Except Fault Unit
  /-- Prints a text. -/
  print : String → Except Fault Unit

/-- A system without home directories that prints everything. -/
instance Host.plain : Host := ⟨fun _ => .error .badValue, .ok (), fun _ => .ok ()⟩

namespace Path

variable [Host]

/-- A relative path whose first name begins with a tilde begins in a home directory. -/
def expanded (p : Path) : Except Fault Path :=
  match p.isAbsolute, p.parts with
  | false, name :: rest =>
    match name.toList with
    | '~' :: user =>
      (Host.home (String.ofList user)).map fun home => { home with parts := home.parts ++ rest }
    | _ => .ok p
  | _, _ => .ok p

/-- The path from the root; a relative one needs the current directory. -/
def absolute (cwd p : Path) : Except Fault Path :=
  if p.isAbsolute then .ok p else Host.directory.map fun _ => cwd.join p

end Path
end NodeSchema
