import Verbatim.Diff.Alignment
import Verbatim.Diff.Changeset
import Verbatim.Diff.Hunk
import Verbatim.Diff.Unified
import Verbatim.Edits.AddImport
import Verbatim.Edits.BlankLines
import Verbatim.Edits.ChangeText
import Verbatim.Edits.FindIdentifier
import Verbatim.Edits.RemoveAnnotations
import Verbatim.Edits.RenameIdentifier
import Verbatim.Edits.Standard
import Verbatim.Entries
import Verbatim.Failure
import Verbatim.Java.Elements
import Verbatim.Java.Grammar
import Verbatim.Java.Lexeme
import Verbatim.Java.Made
import Verbatim.Java.Parser
import Verbatim.Java.Pattern
import Verbatim.Java.Rules
import Verbatim.Java.Word
import Verbatim.Json.Double
import Verbatim.Json.Reader
import Verbatim.Json.Value
import Verbatim.Json.Writer
import Verbatim.Language
import Verbatim.Main
import Verbatim.ParseError
import Verbatim.Path
import Verbatim.Printing.Layout
import Verbatim.Printing.Printer
import Verbatim.Proofs.Diff.Applying
import Verbatim.Proofs.Diff.Framing
import Verbatim.Proofs.Diff.Written
import Verbatim.Proofs.Edits.Adding
import Verbatim.Proofs.Edits.Annotations
import Verbatim.Proofs.Edits.Blanks
import Verbatim.Proofs.Edits.Building
import Verbatim.Proofs.Edits.Clamping
import Verbatim.Proofs.Edits.Clearing
import Verbatim.Proofs.Edits.Cutting
import Verbatim.Proofs.Edits.Finding
import Verbatim.Proofs.Edits.Heads
import Verbatim.Proofs.Edits.Imports
import Verbatim.Proofs.Edits.InPlace
import Verbatim.Proofs.Edits.MadeImports
import Verbatim.Proofs.Edits.Members
import Verbatim.Proofs.Edits.Overlooking
import Verbatim.Proofs.Edits.Placing
import Verbatim.Proofs.Edits.Remaining
import Verbatim.Proofs.Edits.Removing
import Verbatim.Proofs.Edits.Renaming
import Verbatim.Proofs.Edits.Respecting
import Verbatim.Proofs.Edits.Searching
import Verbatim.Proofs.Edits.Settling
import Verbatim.Proofs.Edits.Spacing
import Verbatim.Proofs.Edits.Spellings
import Verbatim.Proofs.Java.Balancing
import Verbatim.Proofs.Java.Blindness
import Verbatim.Proofs.Java.Blocks
import Verbatim.Proofs.Java.Bodies
import Verbatim.Proofs.Java.Carrying
import Verbatim.Proofs.Java.Characters
import Verbatim.Proofs.Java.Continuing
import Verbatim.Proofs.Java.Counting
import Verbatim.Proofs.Java.Covering
import Verbatim.Proofs.Java.Declarations
import Verbatim.Proofs.Java.Decorations
import Verbatim.Proofs.Java.Elements
import Verbatim.Proofs.Java.Enlarging
import Verbatim.Proofs.Java.Exchanging
import Verbatim.Proofs.Java.Extending
import Verbatim.Proofs.Java.Fields
import Verbatim.Proofs.Java.Firsts
import Verbatim.Proofs.Java.Importing
import Verbatim.Proofs.Java.Inserting
import Verbatim.Proofs.Java.Lossless
import Verbatim.Proofs.Java.Nesting
import Verbatim.Proofs.Java.NormalForm
import Verbatim.Proofs.Java.Noting
import Verbatim.Proofs.Java.Openers
import Verbatim.Proofs.Java.Reading
import Verbatim.Proofs.Java.Recutting
import Verbatim.Proofs.Java.Regions
import Verbatim.Proofs.Java.Respelling
import Verbatim.Proofs.Java.Running
import Verbatim.Proofs.Java.Shapes
import Verbatim.Proofs.Java.Spelling
import Verbatim.Proofs.Java.Telling
import Verbatim.Proofs.Java.Terminating
import Verbatim.Proofs.Java.Thinning
import Verbatim.Proofs.Java.TokenPatterns
import Verbatim.Proofs.Java.Tokens
import Verbatim.Proofs.Java.TriviaPieces
import Verbatim.Proofs.Java.Values
import Verbatim.Proofs.Java.Words
import Verbatim.Proofs.Java.Yielding
import Verbatim.Proofs.Languages
import Verbatim.Proofs.Printing.Contents
import Verbatim.Proofs.Printing.Explicit
import Verbatim.Proofs.Printing.Failing
import Verbatim.Proofs.Printing.LaidOut
import Verbatim.Proofs.Printing.Laying
import Verbatim.Proofs.Printing.Marking
import Verbatim.Proofs.Printing.Numbered
import Verbatim.Proofs.Printing.Raising
import Verbatim.Proofs.Printing.Renumbered
import Verbatim.Proofs.Printing.Replacements
import Verbatim.Proofs.Printing.Resolving
import Verbatim.Proofs.Printing.Splices
import Verbatim.Proofs.Reachable
import Verbatim.Proofs.Recipe.Cycles
import Verbatim.Proofs.Recipe.Reaching
import Verbatim.Proofs.Recipe.Renumbered
import Verbatim.Proofs.Recipe.Settling
import Verbatim.Proofs.Recipe.Strictness
import Verbatim.Proofs.Text.Offsets
import Verbatim.Proofs.Text.Pieces
import Verbatim.Proofs.Text.Positions
import Verbatim.Proofs.Text.Slices
import Verbatim.Proofs.Text.Trimming
import Verbatim.Proofs.Traversal.Changes
import Verbatim.Proofs.Traversal.Courses
import Verbatim.Proofs.Traversal.Deciding
import Verbatim.Proofs.Traversal.Erasing
import Verbatim.Proofs.Traversal.Following
import Verbatim.Proofs.Traversal.Plain
import Verbatim.Proofs.Traversal.Relating
import Verbatim.Proofs.Traversal.Renumbered
import Verbatim.Proofs.Traversal.Resuming
import Verbatim.Proofs.Traversal.Sharing
import Verbatim.Proofs.Traversal.Siblings
import Verbatim.Proofs.Traversal.Standing
import Verbatim.Proofs.Traversal.Steps
import Verbatim.Proofs.Traversal.Stopping
import Verbatim.Proofs.Traversal.Walking
import Verbatim.Proofs.Tree.Contents
import Verbatim.Proofs.Tree.Frames
import Verbatim.Proofs.Tree.Hoisting
import Verbatim.Proofs.Tree.Lifting
import Verbatim.Proofs.Tree.Numbering
import Verbatim.Proofs.Tree.Paths
import Verbatim.Proofs.Tree.Provenance
import Verbatim.Proofs.Tree.Pruning
import Verbatim.Proofs.Tree.Renumbering
import Verbatim.Proofs.Tree.Respacing
import Verbatim.Proofs.Tree.Scanning
import Verbatim.Proofs.Tree.Sealing
import Verbatim.Proofs.Tree.Spots
import Verbatim.Proofs.Tree.Touring
import Verbatim.Proofs.Tree.Views
import Verbatim.Proofs.Workbench.Batches
import Verbatim.Proofs.Workbench.Finding
import Verbatim.Proofs.Workbench.Gathering
import Verbatim.Proofs.Workbench.Paths
import Verbatim.Proofs.Workbench.Places
import Verbatim.Proofs.Workbench.Running
import Verbatim.Recipe.Catalog
import Verbatim.Recipe.Document
import Verbatim.Recipe.DocumentText
import Verbatim.Recipe.Fault
import Verbatim.Recipe.Run
import Verbatim.Recipe.Settings
import Verbatim.Report
import Verbatim.Text.Blank
import Verbatim.Text.CharRange
import Verbatim.Text.Invisible
import Verbatim.Text.Letter
import Verbatim.Text.Lines
import Verbatim.Text.Position
import Verbatim.Text.Quoted
import Verbatim.Text.Reader
import Verbatim.Text.Span
import Verbatim.Text.StoredPosition
import Verbatim.Toml.Draft
import Verbatim.Toml.Reader
import Verbatim.Toml.Scalar
import Verbatim.Toml.Value
import Verbatim.Traversal.Script
import Verbatim.Traversal.Trail
import Verbatim.Traversal.Visitor
import Verbatim.Traversal.Walk
import Verbatim.Tree.Hoist
import Verbatim.Tree.Kind
import Verbatim.Tree.Marker
import Verbatim.Tree.Node
import Verbatim.Tree.Queries
import Verbatim.Tree.Seal
import Verbatim.Tree.Trivia
import Verbatim.Workbench.Command
import Verbatim.Workbench.CommandLine
import Verbatim.Workbench.Disk
import Verbatim.Workbench.FileTree
import Verbatim.Workbench.Help
import Verbatim.Workbench.Inputs
import Verbatim.Workbench.Run
