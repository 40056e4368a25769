import Blockwork.Archive.Layout
import Blockwork.Archive.Member
import Blockwork.Archive.Name
import Blockwork.Archive.Reader
import Blockwork.Archive.Writer
import Blockwork.Bundle
import Blockwork.Bytes.LittleEndian
import Blockwork.Catalog.Builtin
import Blockwork.Catalog.Definition
import Blockwork.Catalog.Formatter
import Blockwork.Catalog.Kind
import Blockwork.CommandLine.Arguments
import Blockwork.CommandLine.Failure
import Blockwork.CommandLine.Progress
import Blockwork.CommandLine.Run
import Blockwork.Deflate.Bits
import Blockwork.Deflate.Inflate
import Blockwork.Deflate.PrefixCode
import Blockwork.Deflate.Stored
import Blockwork.Digest.Crc32
import Blockwork.Digest.Md5
import Blockwork.Edit.Command
import Blockwork.Edit.Operations
import Blockwork.Edit.Splice
import Blockwork.Files.Disk
import Blockwork.Files.Path
import Blockwork.Forest.Basic
import Blockwork.Forest.Block
import Blockwork.Forest.Serial
import Blockwork.Forest.Tree
import Blockwork.Forest.Valid
import Blockwork.Json.Basic
import Blockwork.Json.Number
import Blockwork.Json.Reader
import Blockwork.Json.Writer
import Blockwork.Log
import Blockwork.Main
import Blockwork.Number.Binary64
import Blockwork.Number.Layout
import Blockwork.Number.Reader
import Blockwork.Number.Shortest
import Blockwork.Project
import Blockwork.Proofs.Archive.RoundTrip
import Blockwork.Proofs.Archive.Stored
import Blockwork.Proofs.CommandLine.Effects
import Blockwork.Proofs.CommandLine.Outputs
import Blockwork.Proofs.Edit.Acceptance
import Blockwork.Proofs.Edit.Accepted
import Blockwork.Proofs.Edit.Computed
import Blockwork.Proofs.Edit.Conserved
import Blockwork.Proofs.Edit.Moves
import Blockwork.Proofs.Edit.Numbering
import Blockwork.Proofs.Edit.Outline
import Blockwork.Proofs.Edit.Sound
import Blockwork.Proofs.Edit.Updates
import Blockwork.Proofs.Files.Disk
import Blockwork.Proofs.Forest.Allocation
import Blockwork.Proofs.Forest.Filled
import Blockwork.Proofs.Forest.FirstViolation
import Blockwork.Proofs.Forest.Search
import Blockwork.Proofs.Forest.Serial
import Blockwork.Proofs.Forest.Traversal
import Blockwork.Proofs.Forest.Valid
import Blockwork.Proofs.Forest.Walk
import Blockwork.Proofs.Json.Number
import Blockwork.Proofs.Json.Pretty
import Blockwork.Proofs.Json.Text
import Blockwork.Proofs.Number.Exact
import Blockwork.Proofs.Number.Monotone
import Blockwork.Proofs.Number.Shortest
import Blockwork.Proofs.Project.Bundle
import Blockwork.Proofs.Project.Opened
import Blockwork.Proofs.Project.SaveAndLoad
import Blockwork.Proofs.Saved.Forest
import Blockwork.Proofs.Saved.Loaded
import Blockwork.Proofs.Saved.Size
import Blockwork.Proofs.Settings
import Blockwork.Proofs.Source.Assembly
import Blockwork.Proofs.Source.Assignments
import Blockwork.Proofs.Source.CanvasOrder
import Blockwork.Proofs.Source.Clauses
import Blockwork.Proofs.Source.Conversion
import Blockwork.Proofs.Source.Counts
import Blockwork.Proofs.Source.Defaults
import Blockwork.Proofs.Source.Emission
import Blockwork.Proofs.Source.Enclosing
import Blockwork.Proofs.Source.Fixpoint
import Blockwork.Proofs.Source.Folding
import Blockwork.Proofs.Source.Headers
import Blockwork.Proofs.Source.Keywords
import Blockwork.Proofs.Source.Layout
import Blockwork.Proofs.Source.Matching
import Blockwork.Proofs.Source.Messages
import Blockwork.Proofs.Source.Nesting
import Blockwork.Proofs.Source.Order
import Blockwork.Proofs.Source.ReadBack
import Blockwork.Proofs.Source.Rearranged
import Blockwork.Proofs.Source.SpecialValues
import Blockwork.Proofs.Source.Stability
import Blockwork.Proofs.Source.Tokens
import Blockwork.Proofs.Source.Warnings
import Blockwork.Proofs.Source.Written
import Blockwork.Proofs.Text.Digits
import Blockwork.Proofs.Text.Line
import Blockwork.Proofs.Text.Trim
import Blockwork.Proofs.Time.RoundTrip
import Blockwork.Proofs.Tree.Mapped
import Blockwork.Proofs.Tree.Replaced
import Blockwork.Proofs.Tree.Splice
import Blockwork.Proofs.Tree.Subtrees
import Blockwork.Proofs.Workspace.Changes
import Blockwork.Proofs.Workspace.FreshIds
import Blockwork.Proofs.Workspace.Reachable
import Blockwork.Proofs.Workspace.Reloading
import Blockwork.Saved.Command
import Blockwork.Saved.Error
import Blockwork.Saved.Forest
import Blockwork.Saved.Scalar
import Blockwork.Settings
import Blockwork.Source.BlockLine
import Blockwork.Source.Convert
import Blockwork.Source.Generate
import Blockwork.Source.Indent
import Blockwork.Source.Label
import Blockwork.Source.Order
import Blockwork.Source.Pattern
import Blockwork.Source.Recognition
import Blockwork.Source.Stats
import Blockwork.Source.Template
import Blockwork.Text.Blank
import Blockwork.Text.Digits
import Blockwork.Text.Hidden
import Blockwork.Text.Line
import Blockwork.Text.Quoted
import Blockwork.Text.Utf8
import Blockwork.Text.Word
import Blockwork.Time.Reader
import Blockwork.Time.Timestamp
import Blockwork.Value
import Blockwork.Workspace
