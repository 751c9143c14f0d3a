import MemberHarvest.Command.Arguments
import MemberHarvest.Command.Run
import MemberHarvest.Command.Session
import MemberHarvest.Command.Usage
import MemberHarvest.Failure
import MemberHarvest.FileTree.Basic
import MemberHarvest.FileTree.Changes
import MemberHarvest.FileTree.Refusal
import MemberHarvest.FileTree.Walk
import MemberHarvest.Harvest.Files
import MemberHarvest.Harvest.Projects
import MemberHarvest.Harvest.Run
import MemberHarvest.Host
import MemberHarvest.Interface.Catalogue
import MemberHarvest.Interface.Declaration
import MemberHarvest.Journal
import MemberHarvest.Journal.Level
import MemberHarvest.Json.Document
import MemberHarvest.Json.Reading
import MemberHarvest.Json.Value
import MemberHarvest.Main
import MemberHarvest.Member.Body
import MemberHarvest.Member.Document
import MemberHarvest.Member.Extraction
import MemberHarvest.Member.Reading
import MemberHarvest.Member.Record
import MemberHarvest.Number.Binary64
import MemberHarvest.Number.Reading
import MemberHarvest.Number.Shortest
import MemberHarvest.Path.Basic
import MemberHarvest.Path.Ignore
import MemberHarvest.Path.Pattern
import MemberHarvest.Path.Resolve
import MemberHarvest.Path.Wildcard
import MemberHarvest.Project.Basic
import MemberHarvest.Project.Compile
import MemberHarvest.Project.Items
import MemberHarvest.Project.Loading
import MemberHarvest.Project.SolutionLine
import MemberHarvest.Proofs.Command.Asking
import MemberHarvest.Proofs.Command.Configured
import MemberHarvest.Proofs.Command.Resolving
import MemberHarvest.Proofs.Command.WritesLast
import MemberHarvest.Proofs.Distinct
import MemberHarvest.Proofs.FileTree.Below
import MemberHarvest.Proofs.FileTree.Kept
import MemberHarvest.Proofs.FileTree.Replaced
import MemberHarvest.Proofs.Harvest.Beginnings
import MemberHarvest.Proofs.Harvest.Blocks
import MemberHarvest.Proofs.Harvest.Catalogues
import MemberHarvest.Proofs.Harvest.Destination
import MemberHarvest.Proofs.Harvest.Growing
import MemberHarvest.Proofs.Harvest.OpenEnds
import MemberHarvest.Proofs.Harvest.OwnMembers
import MemberHarvest.Proofs.Harvest.Projects
import MemberHarvest.Proofs.Harvest.Reordering
import MemberHarvest.Proofs.Harvest.Repeating
import MemberHarvest.Proofs.Harvest.Requests
import MemberHarvest.Proofs.Harvest.Running
import MemberHarvest.Proofs.Harvest.WellFormed
import MemberHarvest.Proofs.Harvest.Writing
import MemberHarvest.Proofs.Interface.FirstDeclaration
import MemberHarvest.Proofs.Interface.FirstWins
import MemberHarvest.Proofs.Interface.MemberLines
import MemberHarvest.Proofs.Interface.Visits
import MemberHarvest.Proofs.Json.RoundTrip
import MemberHarvest.Proofs.Member.BodyEnd
import MemberHarvest.Proofs.Member.BodyRange
import MemberHarvest.Proofs.Member.BodySearch
import MemberHarvest.Proofs.Member.FirstLines
import MemberHarvest.Proofs.Member.Location
import MemberHarvest.Proofs.Member.RoundTrip
import MemberHarvest.Proofs.Member.Settled
import MemberHarvest.Proofs.NamedValues
import MemberHarvest.Proofs.Outcome
import MemberHarvest.Proofs.Path.Components
import MemberHarvest.Proofs.Path.Ending
import MemberHarvest.Proofs.Path.Joined
import MemberHarvest.Proofs.Path.Normal
import MemberHarvest.Proofs.Path.Order
import MemberHarvest.Proofs.Path.Trail
import MemberHarvest.Proofs.Path.Variants
import MemberHarvest.Proofs.Path.Wildcard
import MemberHarvest.Proofs.Path.Worklist
import MemberHarvest.Proofs.Path.Written
import MemberHarvest.Proofs.Project.Compile
import MemberHarvest.Proofs.Project.Discovery
import MemberHarvest.Proofs.Project.Ignoring
import MemberHarvest.Proofs.Project.Listing
import MemberHarvest.Proofs.Project.Loading
import MemberHarvest.Proofs.Project.Locating
import MemberHarvest.Proofs.Project.Reloading
import MemberHarvest.Proofs.Project.Roundabout
import MemberHarvest.Proofs.Project.Selecting
import MemberHarvest.Proofs.Project.Solution
import MemberHarvest.Proofs.Project.SolutionLine
import MemberHarvest.Proofs.Project.Spelling
import MemberHarvest.Proofs.Project.Undoing
import MemberHarvest.Proofs.Settings.Configuration
import MemberHarvest.Proofs.Settings.Fields
import MemberHarvest.Proofs.Settings.Layering
import MemberHarvest.Proofs.Settings.Mapping
import MemberHarvest.Proofs.Settings.Names
import MemberHarvest.Proofs.Source.LineEnds
import MemberHarvest.Proofs.Source.Pool
import MemberHarvest.Proofs.Source.Reading
import MemberHarvest.Proofs.Text.Decimal
import MemberHarvest.Proofs.Text.DisplayLines
import MemberHarvest.Proofs.Text.LineEnds
import MemberHarvest.Proofs.Text.Trimmed
import MemberHarvest.Proofs.Text.Utf8
import MemberHarvest.Proofs.Text.Words
import MemberHarvest.Proofs.Workspace.Descent
import MemberHarvest.Proofs.Workspace.Directories
import MemberHarvest.Proofs.Workspace.Draft
import MemberHarvest.Proofs.Workspace.Finding
import MemberHarvest.Proofs.Workspace.Looking
import MemberHarvest.Proofs.Workspace.Making
import MemberHarvest.Proofs.Workspace.Range
import MemberHarvest.Proofs.Workspace.Receiving
import MemberHarvest.Proofs.Workspace.Resaving
import MemberHarvest.Proofs.Workspace.Revisiting
import MemberHarvest.Proofs.Workspace.Room
import MemberHarvest.Proofs.Workspace.Roundabout
import MemberHarvest.Proofs.Workspace.Saving
import MemberHarvest.Proofs.Workspace.Searching
import MemberHarvest.Proofs.Xml.Characters
import MemberHarvest.Proofs.Xml.Encoding
import MemberHarvest.Proofs.Yaml.Document
import MemberHarvest.Settings.Basic
import MemberHarvest.Settings.Candidates
import MemberHarvest.Settings.Configuration
import MemberHarvest.Settings.FieldError
import MemberHarvest.Settings.Layers
import MemberHarvest.Settings.Reading
import MemberHarvest.Settings.Time
import MemberHarvest.Settings.Value
import MemberHarvest.Source.Pool
import MemberHarvest.Source.Reading
import MemberHarvest.SourceFile
import MemberHarvest.Text.Base64
import MemberHarvest.Text.Blank
import MemberHarvest.Text.Chunks
import MemberHarvest.Text.Codecs
import MemberHarvest.Text.Decimal
import MemberHarvest.Text.Digit
import MemberHarvest.Text.Encoding
import MemberHarvest.Text.Hex
import MemberHarvest.Text.Lines
import MemberHarvest.Text.Printable
import MemberHarvest.Text.Quoted
import MemberHarvest.Text.SingleByte
import MemberHarvest.Text.Split
import MemberHarvest.Text.Upcase
import MemberHarvest.Text.Utf16
import MemberHarvest.Text.Utf8
import MemberHarvest.Workspace
import MemberHarvest.Workspace.Directories
import MemberHarvest.Workspace.Glob
import MemberHarvest.Workspace.Saving
import MemberHarvest.Xml.Declared
import MemberHarvest.Xml.DoctypeMark
import MemberHarvest.Xml.Document
import MemberHarvest.Xml.Element
import MemberHarvest.Xml.Name
import MemberHarvest.Xml.NameChar
import MemberHarvest.Xml.Reference
import MemberHarvest.Xml.Token
import MemberHarvest.Yaml.Build
import MemberHarvest.Yaml.Cursor
import MemberHarvest.Yaml.Document
import MemberHarvest.Yaml.Fault
import MemberHarvest.Yaml.Node
import MemberHarvest.Yaml.Numeral
import MemberHarvest.Yaml.Scalar
import MemberHarvest.Yaml.Tag
import MemberHarvest.Yaml.Timestamp
import MemberHarvest.Yaml.Token
import MemberHarvest.Yaml.Token.Lexer
