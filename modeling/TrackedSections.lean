import TrackedSections.CommandLine.Commands
import TrackedSections.CommandLine.Execution
import TrackedSections.CommandLine.Footprint
import TrackedSections.CommandLine.Grammar
import TrackedSections.CommandLine.Invocation
import TrackedSections.CommandLine.Reply
import TrackedSections.CommentPrefix
import TrackedSections.ConfigFile
import TrackedSections.Digest
import TrackedSections.Disk.Basic
import TrackedSections.Disk.Node
import TrackedSections.Document.Apply
import TrackedSections.Document.Assembly
import TrackedSections.Document.Basic
import TrackedSections.Document.Compile
import TrackedSections.Document.Load
import TrackedSections.Document.Save
import TrackedSections.Failure
import TrackedSections.Host
import TrackedSections.Inspection
import TrackedSections.Main
import TrackedSections.Marker.Basic
import TrackedSections.Marker.Index
import TrackedSections.Marker.Reader
import TrackedSections.Merge
import TrackedSections.Notice
import TrackedSections.Operation
import TrackedSections.Path
import TrackedSections.Permissions
import TrackedSections.Proofs.Disk.Creating
import TrackedSections.Proofs.Disk.Frame
import TrackedSections.Proofs.Disk.Growing
import TrackedSections.Proofs.Disk.Locating
import TrackedSections.Proofs.Disk.Overwriting
import TrackedSections.Proofs.Disk.Proper
import TrackedSections.Proofs.Document.Canonical
import TrackedSections.Proofs.Document.Creation
import TrackedSections.Proofs.Document.Legible
import TrackedSections.Proofs.Document.Loading
import TrackedSections.Proofs.Document.NormalForm
import TrackedSections.Proofs.Document.Numbering
import TrackedSections.Proofs.Document.Partition
import TrackedSections.Proofs.Document.Parts
import TrackedSections.Proofs.Document.Planning
import TrackedSections.Proofs.Document.Reread
import TrackedSections.Proofs.Document.Rewriting
import TrackedSections.Proofs.Document.Saving
import TrackedSections.Proofs.Document.SidecarReread
import TrackedSections.Proofs.Document.Stepwise
import TrackedSections.Proofs.Document.Tiling
import TrackedSections.Proofs.Document.Tracks
import TrackedSections.Proofs.Effect
import TrackedSections.Proofs.Failing
import TrackedSections.Proofs.Marker.Index
import TrackedSections.Proofs.Marker.Reader
import TrackedSections.Proofs.Merge.Overlay
import TrackedSections.Proofs.Merge.Again
import TrackedSections.Proofs.Merge.Footprint
import TrackedSections.Proofs.Merge.Foreign
import TrackedSections.Proofs.Merge.Legible
import TrackedSections.Proofs.Merge.LocalEdits
import TrackedSections.Proofs.Merge.OnDisk
import TrackedSections.Proofs.Merge.Reachable
import TrackedSections.Proofs.Merge.Replacement
import TrackedSections.Proofs.Merge.Settled
import TrackedSections.Proofs.Merge.Sound
import TrackedSections.Proofs.Merge.Twice
import TrackedSections.Proofs.Merge.Uncompiled
import TrackedSections.Proofs.Path
import TrackedSections.Proofs.Sidecar
import TrackedSections.Proofs.Text.Lines
import TrackedSections.Proofs.Text.Utf8
import TrackedSections.Proofs.Text.Words
import TrackedSections.Proofs.Toml.RoundTrip
import TrackedSections.Proofs.Tree.DryRun
import TrackedSections.Proofs.Tree.Following
import TrackedSections.Proofs.Tree.Places
import TrackedSections.Proofs.Tree.Summary
import TrackedSections.Proofs.Walk.Files
import TrackedSections.Proofs.Walk.Tour
import TrackedSections.Section
import TrackedSections.Sidecar
import TrackedSections.SourceCache
import TrackedSections.Text.Basic
import TrackedSections.Text.Blank
import TrackedSections.Text.Case
import TrackedSections.Text.Digit
import TrackedSections.Text.Double
import TrackedSections.Text.Numeral
import TrackedSections.Text.Printable
import TrackedSections.Text.Quoted
import TrackedSections.Text.Stream
import TrackedSections.Text.Utf8
import TrackedSections.Toml.Reader
import TrackedSections.Toml.Scalar
import TrackedSections.Toml.Value
import TrackedSections.Toml.Writer
import TrackedSections.Tree
import TrackedSections.Update
import TrackedSections.Walk
import TrackedSections.Yaml.Contents
import TrackedSections.Yaml.Cursor
import TrackedSections.Yaml.Fault
import TrackedSections.Yaml.Grammar
import TrackedSections.Yaml.Graph
import TrackedSections.Yaml.Lexer
import TrackedSections.Yaml.MergeKey
import TrackedSections.Yaml.Reader
import TrackedSections.Yaml.Scalar
import TrackedSections.Yaml.ScalarValue
import TrackedSections.Yaml.Shape
import TrackedSections.Yaml.SlotOrder
import TrackedSections.Yaml.Source
import TrackedSections.Yaml.Token
import TrackedSections.Yaml.Value
import TrackedSections.Proofs.Escaping
import TrackedSections.Proofs.CommandLine.Looking
import TrackedSections.Proofs.Disk.Absolute
import TrackedSections.Proofs.Document.Accepting
import TrackedSections.Proofs.Merge.Created
import TrackedSections.Proofs.Merge.ByName
import TrackedSections.Proofs.Merge.PullEach
import TrackedSections.Proofs.Disk.Standing
import TrackedSections.Proofs.Document.Guarded
import TrackedSections.Proofs.Walk.Visits
import TrackedSections.Proofs.CommandLine.Protected
import TrackedSections.Proofs.Merge.AtOnce
import TrackedSections.Proofs.Merge.SameText
import TrackedSections.Proofs.Merge.Reported
import TrackedSections.Proofs.Document.InPlace
import TrackedSections.Proofs.Merge.Ranges
import TrackedSections.Proofs.Document.Untracking
import TrackedSections.Proofs.Merge.Acceptance
import TrackedSections.Proofs.Document.AcceptedSidecar
import TrackedSections.Proofs.Document.Notices
import TrackedSections.Proofs.Marker.Grammar
import TrackedSections.Proofs.CommentPrefix
import TrackedSections.Proofs.Marker.Canonical
import TrackedSections.Proofs.Document.Overlaps
import TrackedSections.Proofs.Walk.Order
import TrackedSections.Proofs.Tree.Checked
import TrackedSections.Proofs.Marker.Trackable
import TrackedSections.Proofs.Permissions
import TrackedSections.Proofs.BelowHome
import TrackedSections.Proofs.Merge.Snapshot
