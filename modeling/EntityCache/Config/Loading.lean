import EntityCache.Config.Decoding
import EntityCache.Config.Validation
import EntityCache.Setting.Environment
import EntityCache.Setting.Yaml

/-!
# Loading the configuration

A configuration has three sources: the settings of the node, those of its place, and the environment
variables.  Later sources count more, setting by setting; what no source sets has its default on the
machine at hand.  A configuration that has been put together still has to be valid.
-/

namespace EntityCache

/-- Why a configuration was not loaded. -/
inductive LoadError where
  /-- A source cannot be read, or does not hold what the settings need. -/
  | unreadable
  | invalid (cause : ConfigError)
deriving DecidableEq, Repr

namespace Config

/-- The settings that an optional text holds; a text that is not there holds none. -/
def source? : Option String → Option Setting
  | none => some (.map [])
  | some text => Setting.ofYaml? text

/-- The configuration that sources hold, each over those before it. -/
def ofSources (processors : Processors) (sources : List (Option Setting)) :
    Except LoadError Config :=
  match sources.mapM id with
  | none => .error .unreadable
  | some sources =>
    match ofSetting? processors .lenient (Setting.overlayAll sources) with
    | none => .error .unreadable
    | some c =>
      match c.validate with
      | .ok _ => .ok c
      | .error e => .error (.invalid e)

/-- Loads the configuration of a file that may be missing. -/
def loadFile (processors : Processors) (file : Option String) : Except LoadError Config :=
  ofSources processors [source? file]

/-- Loads the configuration of the two files and of the environment variables. -/
def load (processors : Processors) (node place : Option String)
    (environment : List (String × String)) : Except LoadError Config :=
  ofSources processors [source? node, source? place, some (Setting.ofEnvironment environment)]

end Config

end EntityCache
