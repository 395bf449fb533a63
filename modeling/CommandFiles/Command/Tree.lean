import CommandFiles.Command

/-!
# Trees of commands

Every command file puts its command at the place that its path below the command root names. A
directory is a placeholder until its index file fills it in. Main statements: how many commands a
change of the first fitting one leaves, and what the overlay of a command keeps.
-/

namespace CommandFiles.Command

/-- Whether a segment of a path is the file that describes its directory. -/
def isIndexFile (segment : String) : Bool :=
  Path.stem? segment = some indexName && (Path.extension? segment).isSome

/-- Whether a command stands for a directory of the given name. -/
def standsFor (segment : String) (c : Command) : Bool :=
  c.name = segment || c.indexDirectory? = some segment

/-- Lays what is declared over what was declared before: what is absent shows through. -/
def overlayDeclared (below above : Declaration) : Declaration where
  name := above.name
  description := above.description <|> below.description
  secondName := above.secondName <|> below.secondName
  filePath := above.filePath <|> below.filePath
  options := above.options <|> below.options
  runtimeDemand := above.runtimeDemand <|> below.runtimeDemand
  beforeRun := above.beforeRun <|> below.beforeRun
  validate := above.validate <|> below.validate
  showsHelp := above.showsHelp <|> below.showsHelp
  dependencies := above.dependencies <|> below.dependencies

/-- Lays a command over another one; the commands below both are kept. -/
def overlay (below above : Command) : Command :=
  mk (overlayDeclared below.declared above.declared) (below.subcommands ++ above.subcommands)

/-- A command with other commands below it. -/
def withSubcommands (c : Command) (subs : List Command) : Command := mk c.declared subs

/-- Changes the first command that fits, if one does. -/
def changeFirst? (fits : Command → Bool) (change : Command → Command) :
    List Command → Option (List Command)
  | [] => none
  | c :: rest =>
    if fits c then some (change c :: rest)
    else (changeFirst? fits change rest).map (c :: ·)

/-- Puts a command among others: over the first of its name if that is a placeholder, else at the
end. A second command of one name starts from what the first declares. -/
def place (command : Command) (siblings : List Command) : List Command :=
  match siblings.find? fun c => c.name = command.name with
  | none => siblings ++ [(placeholder command.name).overlay command]
  | some twin =>
    if twin.isPlaceholder then
      (changeFirst? (fun c => c.name = command.name) (·.overlay command) siblings).getD siblings
    else siblings ++ [twin.overlay command]

/-- Puts a command at its place in a tree. All segments but the last name directories, the last one
the file: an index file describes the directory it lies in, any other file a command there. -/
def merge (command : Command) : List String → Command → Command
  | [], node => node.overlay command
  | [file], node =>
    if isIndexFile file then node.overlay command
    else node.withSubcommands (place command node.subcommands)
  | directory :: rest@(_ :: _), node =>
    node.withSubcommands <|
      match changeFirst? (standsFor directory) (merge command rest) node.subcommands with
      | some subs => subs
      | none => node.subcommands ++ [merge command rest (placeholder directory)]

theorem length_changeFirst? {fits : Command → Bool} {change : Command → Command} :
    ∀ {cs subs : List Command}, changeFirst? fits change cs = some subs →
      subs.length = cs.length
  | [], _, h => by simp [changeFirst?] at h
  | c :: rest, subs, h => by
    by_cases hc : fits c = true
    · simp only [changeFirst?, if_pos hc, Option.some.injEq] at h
      subst h; rfl
    · simp only [changeFirst?, if_neg hc] at h
      obtain ⟨more, hm, rfl⟩ := Option.map_eq_some_iff.1 h
      simp [length_changeFirst? hm]

@[simp] theorem subcommands_overlay (below above : Command) :
    (below.overlay above).subcommands = below.subcommands ++ above.subcommands := rfl

@[simp] theorem name_overlay (below above : Command) :
    (below.overlay above).name = above.name := rfl

end CommandFiles.Command
