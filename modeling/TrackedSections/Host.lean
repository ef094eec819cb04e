import TrackedSections.Failure

/-!
# Where the user's files are

A `Host` is what a run knows of its surroundings besides the disk: the variables that say where home
and the configuration are, the accounts, and the files that may not be opened. `Host.expand` reads a
path in which `~` stands for home, and `Host.configPath` is where the configuration is kept.
-/

namespace TrackedSections

/-- The surroundings of a run. The paths of the files that may not be opened are absolute. -/
structure Host where
  /-- The home directory, if a variable names one. -/
  home : Option Text
  /-- The directory of configurations, if a variable names one. -/
  configDirectory : Option Text
  /-- The configuration, if a variable names one. -/
  configFile : Option Text
  /-- The home directory of the account that runs. -/
  ownHome : Option Text
  /-- The home directories of accounts by name. -/
  accounts : List (Text × Text)
  /-- The files that may be read but not opened for writing. -/
  unwritable : List Path
  /-- The files that may not be opened at all. -/
  unreadable : List Path

namespace Host

/-- A home directory as it is written somewhere, without slashes at its end. -/
def trimHome (t : Text) : Text :=
  let body := Text.dropTrailing (· = '/') t
  if body = [] then ['/'] else body

/-- The path of a home directory. It must not itself be relative to a home. -/
def homeOf : Option Text → Except Failure Path
  | none => .error .noHome
  | some t =>
    match trimHome t with
    | '~' :: _ => .error .noHome
    | body => .ok (Path.ofText body)

/-- The home directory of the user: what the variable says, or else the account. -/
def homeDirectory (host : Host) : Except Failure Path := homeOf (host.home.or host.ownHome)

/-- `host.expand t` is the path written `t`, where a single `~` at the start stands for the home
directory of the user. -/
def expand (host : Host) (t : Text) : Except Failure Path :=
  match t with
  | ['~'] => host.homeDirectory
  | '~' :: '/' :: rest => host.homeDirectory.map (·.join (Path.ofText rest))
  | _ => .ok (Path.ofText t)

/-- `host.expandAccount p` is `p` with its first name replaced by the home directory that it stands
for: `~` for that of the user and `~name` for that of an account. -/
def expandAccount (host : Host) (p : Path) : Except Failure Path :=
  match p.anchor, p.names with
  | .none, ('~' :: account) :: rest =>
    let home :=
      if account = [] then host.homeDirectory else homeOf (host.accounts.lookup account)
    home.map fun directory => directory.join ⟨.none, rest⟩
  | _, _ => .ok p

/-- The directory of configurations. -/
def configHome (host : Host) : Except Failure Path :=
  match host.configDirectory with
  | none | some [] => host.homeDirectory.map (·.join (Path.ofText ".config".toList))
  | some t => .ok (Path.ofText t)

/-- The place of the configuration among configurations. -/
def configName : Path := Path.ofText "imosid/config.yaml".toList

/-- The path of the configuration. -/
def configPath (host : Host) : Except Failure Path :=
  match host.configFile with
  | none | some [] => host.configHome.map (·.join configName)
  | some t => host.expandAccount (Path.ofText t)

end Host

end TrackedSections
