import ShellConfig.Service.Answer
import ShellConfig.Proofs.Text.Blank
import ShellConfig.Proofs.Text.Hexadecimal
import ShellConfig.Proofs.Text.Lines
import ShellConfig.Proofs.Files.Walk
import ShellConfig.Proofs.Files.Operation
import ShellConfig.Proofs.Files.Update
import ShellConfig.Proofs.Files.Temporary
import ShellConfig.Proofs.Files.Replace
import ShellConfig.Proofs.Files.Save
import ShellConfig.Proofs.Files.Restore
import ShellConfig.Proofs.Files.EditOutcome
import ShellConfig.Proofs.Service.EditAnswer
import ShellConfig.Proofs.Entry.Comment
import ShellConfig.Proofs.Entry.Reading
import ShellConfig.Proofs.Entry.Declaration
import ShellConfig.Proofs.Section.Marker
import ShellConfig.Proofs.Section.Label
import ShellConfig.Proofs.Section.Find
import ShellConfig.Proofs.Entry.Toggle
import ShellConfig.Proofs.Entry.AliasLine
import ShellConfig.Proofs.Section.Insertion
import ShellConfig.Proofs.Diff.Script
import ShellConfig.Proofs.Section.Partition
import ShellConfig.Proofs.Section.LabelWalk
import ShellConfig.Proofs.Entry.Listed
import ShellConfig.Proofs.Shell.Reading
import ShellConfig.Proofs.Files.SharedCache
import ShellConfig.Proofs.Section.AddedLines
import ShellConfig.Proofs.Section.Splice
import ShellConfig.Proofs.Files.Resolve
import ShellConfig.Proofs.Files.FailedWrite
import ShellConfig.Proofs.Files.WriteRead
import ShellConfig.Proofs.Files.Failing
import ShellConfig.Proofs.Service.Told
import ShellConfig.Proofs.Files.Faithful
import ShellConfig.Proofs.Service.History
import ShellConfig.Proofs.Service.ChangeAnswer
import ShellConfig.Proofs.Entry.Sorted
import ShellConfig.Proofs.Section.Name
import ShellConfig.Proofs.Section.Heading
import ShellConfig.Proofs.Section.Repeated
import ShellConfig.Proofs.Settings.Loading
import ShellConfig.Proofs.Entry.SwitchedBack
import ShellConfig.Proofs.Diff.Context
import ShellConfig.Proofs.Section.ReadBack
import ShellConfig.Proofs.Json.WriteRead
import ShellConfig.Proofs.Json.ReadRange
import ShellConfig.Proofs.Settings.Replaced
import ShellConfig.Proofs.Settings.Stored
import ShellConfig.Proofs.Service.SettingsAnswer
import ShellConfig.Proofs.Section.BestMatch
import ShellConfig.Proofs.Entry.PluginList
import ShellConfig.Proofs.Entry.Argument
import ShellConfig.Proofs.Entry.QuotedLine
import ShellConfig.Proofs.Section.Counts
import ShellConfig.Proofs.Section.Closed
import ShellConfig.Proofs.Diff.Mirror
import ShellConfig.Proofs.Diff.Block
import ShellConfig.Proofs.Diff.Fence
import ShellConfig.Proofs.Entry.State
import ShellConfig.Proofs.Entry.Removal
import ShellConfig.Proofs.Entry.PairedReturns
import ShellConfig.Proofs.Service.FailedSave
import ShellConfig.Proofs.Entry.Grouping
import ShellConfig.Proofs.Entry.Grammar
import ShellConfig.Proofs.Entry.Theme
