import ShellConfig.Text.Basic

/-!
# Kinds of entries

The constructs that a shell configuration file is read for.
-/

namespace ShellConfig

/-- A kind of construct. -/
inductive Kind
  | aliased
  | exported
  | function
  | source
  | plugin
  | setopt
  | eval
  | autoload
  | fpath
  | path
  | theme
  | completion
  | history
  | keybinding
  deriving DecidableEq, Repr

namespace Kind

/-- All kinds, in the order in which entries of one line are listed. -/
def all : List Kind :=
  [aliased, exported, function, source, plugin, setopt, eval, autoload, fpath, path, theme,
    completion, history, keybinding]

theorem mem_all (k : Kind) : k ∈ all := by cases k <;> decide

def name : Kind → Text
  | aliased => "alias".toList
  | exported => "export".toList
  | function => "function".toList
  | source => "source".toList
  | plugin => "plugin".toList
  | setopt => "setopt".toList
  | eval => "eval".toList
  | autoload => "autoload".toList
  | fpath => "fpath".toList
  | path => "path".toList
  | theme => "theme".toList
  | completion => "completion".toList
  | history => "history".toList
  | keybinding => "keybinding".toList

def ofName? (t : Text) : Option Kind := all.find? fun k => k.name == t

theorem ofName?_name (k : Kind) : ofName? k.name = some k := by cases k <;> decide

def title (k : Kind) : Text :=
  match k.name with
  | [] => []
  | c :: t => c.toUpper :: t

end Kind
end ShellConfig
