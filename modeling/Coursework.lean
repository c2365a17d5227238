import Coursework.Main
import Coursework.Proofs.Scene.Value
import Coursework.Proofs.Keyed
import Coursework.Proofs.Scene.Section
import Coursework.Proofs.Scene.Attributes
import Coursework.Proofs.Scene.Codec
import Coursework.Proofs.Scene.NodeHeader
import Coursework.Proofs.Scene.Tree
import Coursework.Proofs.Scene.PathText
import Coursework.Proofs.Scene.Copy
import Coursework.Proofs.Scene.Rereading
import Coursework.Proofs.Scene.Lookup
import Coursework.Proofs.Scene.Nested
import Coursework.Proofs.Scene.Reading
import Coursework.Proofs.FileTree.WellFormed
import Coursework.Proofs.FileTree.Writing
import Coursework.Proofs.Build.Content
import Coursework.Proofs.Build.Scan
import Coursework.Proofs.Build.Kept
import Coursework.Proofs.Build.Current
import Coursework.Proofs.Build.Exercises
import Coursework.Proofs.Build.Incremental
import Coursework.Proofs.Text.Utf8
import Coursework.Proofs.Build.Failure
import Coursework.Proofs.Directive.Splitting
import Coursework.Proofs.Directive.Hidden
import Coursework.Proofs.FileTree.Places
import Coursework.Proofs.FileTree.Alteration
import Coursework.Proofs.FileTree.Rooted
import Coursework.Proofs.FileTree.Copying
import Coursework.Proofs.Build.Frame
import Coursework.Proofs.Build.Pattern
import Coursework.Proofs.Export.Copying
import Coursework.Proofs.Export.Release
import Coursework.Proofs.Export.LeftOut
import Coursework.Proofs.Export.Sources
import Coursework.Proofs.Build.Changes
import Coursework.Proofs.Build.Lockstep
import Coursework.Proofs.Build.Independence
import Coursework.Proofs.Build.Withheld
import Coursework.Proofs.Watch.Exercises
import Coursework.Proofs.Watch.Interleaving
import Coursework.Proofs.Watch.Sessions
import Coursework.Proofs.Scene.Placing
import Coursework.Proofs.Scene.Linking
import Coursework.Proofs.Scene.Editing
import Coursework.Proofs.Build.Rebuilding
import Coursework.Proofs.Text.Replacing
import Coursework.Proofs.Scene.Rewriting
import Coursework.Proofs.Scene.Mapping
import Coursework.Proofs.Build.PracticeScene
import Coursework.Proofs.Build.Publishing
import Coursework.Proofs.Scene.Groups
import Coursework.Proofs.Scene.Declared
import Coursework.Proofs.Scene.Pruning
import Coursework.Proofs.Directive.Grammar
import Coursework.Proofs.Directive.Practice
import Coursework.Proofs.Build.Refusal
import Coursework.Proofs.Build.Made
import Coursework.Proofs.Build.ScriptRemoval
import Coursework.Proofs.Roots
import Coursework.Proofs.ProjectFile.Edits
import Coursework.Proofs.ProjectFile.Removals
import Coursework.Proofs.Export.Refusals
import Coursework.Proofs.Build.Units
import Coursework.Proofs.Build.Accounts
import Coursework.Proofs.Watch.Spacing
import Coursework.Proofs.Json.Reading
import Coursework.Proofs.Json.Names
import Coursework.Proofs.Settings.Loading
import Coursework.Proofs.Settings.Damaged
import Coursework.Proofs.Export.Outcome
import Coursework.Proofs.Watch.Saves
