import ShellConfig.Entry.Basic

/-!
# Duplicates

Entries that agree in one field. Groups come in the order in which their keys are first seen, and
entries without the field belong to no group.
-/

namespace ShellConfig

/-- The entries that share one key. -/
structure DuplicateGroup where
  key : Text
  occurrences : List Entry
  deriving DecidableEq, Repr

/-- The label under which an entry is reported: an entry without one counts as unlabeled. -/
def Entry.shownLabel (e : Entry) : Text :=
  match e.label with
  | some (c :: t) => c :: t
  | _ => unlabeled

namespace DuplicateGroup

def count (g : DuplicateGroup) : Nat := g.occurrences.length

/-- The labels of the entries of a group, each once, in the order in which they are first seen. -/
def labels (g : DuplicateGroup) : List Text := (g.occurrences.map Entry.shownLabel).eraseDups

end DuplicateGroup

/-- The keys that occur more than once, with the number of entries beyond the first of each. -/
structure DuplicateReport where
  groups : List DuplicateGroup := []
  total : Nat := 0
  deriving DecidableEq, Repr

namespace DuplicateReport

def withKey (f : Field) (k : Text) (es : List Entry) : List Entry :=
  es.filter fun e => e.get? f == some k

/-- The groups of a list that share a field, those of one entry included. -/
def groupsBy (f : Field) (es : List Entry) : List DuplicateGroup :=
  (es.filterMap (·.get? f)).eraseDups.map fun k => ⟨k, withKey f k es⟩

/-- The duplicates of a list in one field. -/
def ofField (f : Field) (es : List Entry) : DuplicateReport :=
  let groups := (groupsBy f es).filter fun g => 1 < g.count
  ⟨groups, groups.foldr (fun g n => g.count - 1 + n) 0⟩

/-- The duplicates of a list in the field with a given name; a name of no field has none. -/
def ofKey (name : Text) (es : List Entry) : DuplicateReport :=
  match Field.ofKey? name with
  | none => {}
  | some f => ofField f es

end DuplicateReport
end ShellConfig
