import CommandFiles.Config
import CommandFiles.Text.Sorted
import CommandFiles.Toml.Printer
import CommandFiles.Toml.Reader

/-!
# Configuration files

Settings as a TOML document. Settings that a document does not give keep their defaults, and keys
that are no settings are passed over.
-/

namespace CommandFiles

namespace Toml

/-- The text that a value is. -/
def text? : Toml → Option String
  | string s => some s
  | _ => none

/-- The texts that a value lists. -/
def texts? : Toml → Option (List String)
  | array items => items.mapM text?
  | _ => none

/-- The texts under keys that a value holds. -/
def entries? : Toml → Option (List (String × String))
  | table _ entries => entries.mapM fun (key, v) => v.text?.map fun s => (key, s)
  | _ => none

end Toml

namespace Config

/-- Takes up a setting. -/
def set (c : Config) (key : String) (v : Toml) : Option Config :=
  match key with
  | "root" => v.text?.map fun s => { c with root := s }
  | "commands_dir" => v.text?.map fun s => { c with commandsDir := s }
  | "executable" => v.text?.map fun s => { c with executable := s }
  | "interpreter" => v.text?.map fun s => { c with interpreter := s }
  | "extensions" => v.texts?.map fun ss => { c with extensions := ss }
  | "exclude" => v.texts?.map fun ss => { c with exclude := ss }
  | "cache_file" => v.text?.map fun s => { c with cacheFile := s }
  | "globals" => v.entries?.map fun es => { c with globals := Text.sortOn Prod.fst es }
  | _ => some c

/-- The settings that a document gives. -/
def ofText (text : String) : Option Config := do
  let table ← Toml.ofText text
  table.foldlM (fun c (key, v) => c.set key v) {}

/-- Writes the settings as a document. -/
def toText (c : Config) : String :=
  String.join
    [Toml.writePair "root" (Toml.writeText c.root),
     Toml.writePair "commands_dir" (Toml.writeText c.commandsDir),
     Toml.writePair "executable" (Toml.writeText c.executable),
     Toml.writePair "interpreter" (Toml.writeText c.interpreter),
     Toml.writePair "extensions" (Toml.writeTexts c.extensions),
     Toml.writePair "exclude" (Toml.writeTexts c.exclude),
     Toml.writePair "cache_file" (Toml.writeText c.cacheFile),
     "\n[globals]\n"] ++
  String.join (c.globals.map fun (key, s) => Toml.writePair key (Toml.writeText s))

end Config

end CommandFiles
