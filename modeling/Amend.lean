import Amend.Command.Arguments
import Amend.Command.LogFilter
import Amend.Command.Perform
import Amend.CrashReport
import Amend.Digest.Sha256
import Amend.Discovery.Exclusion
import Amend.Discovery.Finder
import Amend.Discovery.RootPattern
import Amend.Discovery.Signature
import Amend.Disk.Basic
import Amend.Disk.Files
import Amend.Disk.OsError
import Amend.Disk.Path
import Amend.Disk.Resolve
import Amend.Failure
import Amend.Glob.Match
import Amend.Glob.Pattern
import Amend.Index.Declaration
import Amend.Index.Lookup
import Amend.Index.Project
import Amend.Log
import Amend.Main
import Amend.Monitor
import Amend.Pass.Dispatch
import Amend.Pass.Registry
import Amend.Pass.Walk
import Amend.Php.Declarations
import Amend.Php.Kinds
import Amend.Php.ParseTree
import Amend.Php.Reading
import Amend.Php.Resolution
import Amend.Php.Scope
import Amend.Php.TreeListing
import Amend.Report.Basic
import Amend.Report.Json
import Amend.Report.Moment
import Amend.Report.Terminal
import Amend.Rule.Basic
import Amend.Rule.Catalog
import Amend.Rule.Name
import Amend.Rule.StaticCall
import Amend.Run
import Amend.Settings.Basic
import Amend.Settings.File
import Amend.Settings.Overrides
import Amend.Settings.Search
import Amend.Text.Blank
import Amend.Text.Caseless
import Amend.Text.Cut
import Amend.Text.Offset
import Amend.Text.Quoted
import Amend.Text.Unprintable
import Amend.Toml.Document
import Amend.Toml.Quotation
import Amend.Toml.Scalar
import Amend.Toml.Value
import Amend.Tree.Attributes
import Amend.Tree.Node
import Amend.Tree.Preorder
import Amend.Word
import Amend.Proofs.Slices
import Amend.Proofs.Annotation
import Amend.Proofs.RoundTrip
import Amend.Proofs.Journal
import Amend.Proofs.Walk
import Amend.Proofs.Rewriting
import Amend.Proofs.Untouched
import Amend.Proofs.Passes
import Amend.Proofs.Converge
import Amend.Proofs.InHand
import Amend.Proofs.Lookup
import Amend.Proofs.Tours
import Amend.Proofs.Scoping
import Amend.Proofs.Project
import Amend.Proofs.StaticCall.Decision
import Amend.Proofs.StaticCall.Simultaneous
import Amend.Proofs.StaticCall.Verdicts
import Amend.Proofs.StaticCall.Stable
import Amend.Proofs.StaticCall.Edits
import Amend.Proofs.StaticCall.Meaning
import Amend.Proofs.NearestSettings
import Amend.Proofs.Overwriting
import Amend.Proofs.Stages
import Amend.Proofs.DryRun
import Amend.Proofs.Endings
import Amend.Proofs.Reach
import Amend.Proofs.Answers
import Amend.Proofs.StaticCall.Unrelated
import Amend.Proofs.Places
import Amend.Proofs.Discovery.Sessions
import Amend.Proofs.Discovery.Signatures
import Amend.Proofs.Discovery.Findings
import Amend.Proofs.FileOrder
import Amend.Proofs.RecordedNames
import Amend.Proofs.StaticCall.KeptDeclarations
import Amend.Proofs.Namespaces
import Amend.Proofs.Ancestry
import Amend.Proofs.Cuts
import Amend.Proofs.Glob.Matching
import Amend.Proofs.Glob.Reading
import Amend.Proofs.Discovery.Exclusions
import Amend.Proofs.References
import Amend.Proofs.UseStatements
import Amend.Proofs.EffectiveSettings
import Amend.Proofs.Registration
import Amend.Proofs.Workload
import Amend.Proofs.Spellings
import Amend.Proofs.Glob.Caseless
import Amend.Proofs.Respelled
import Amend.Proofs.StaticCall.Respelled
import Amend.Proofs.FirstFault
import Amend.Proofs.Guards
import Amend.Proofs.Descent
