import ModularGrammar.ActionHelper
import ModularGrammar.Command.Arguments
import ModularGrammar.Command.Basic
import ModularGrammar.Command.Link
import ModularGrammar.Command.Summarize
import ModularGrammar.Composite.Basic
import ModularGrammar.Composite.Document
import ModularGrammar.Composition
import ModularGrammar.Decimal
import ModularGrammar.Directive.Basic
import ModularGrammar.Directive.Reader
import ModularGrammar.Directive.Scan
import ModularGrammar.Error
import ModularGrammar.ExportIndex
import ModularGrammar.FileLayout
import ModularGrammar.FileTree
import ModularGrammar.Grammar.Basic
import ModularGrammar.Grammar.Document
import ModularGrammar.ImportGraph
import ModularGrammar.ImportGraph.Dot
import ModularGrammar.Json.Basic
import ModularGrammar.Json.Bytes
import ModularGrammar.Json.Numeral
import ModularGrammar.Json.Reader
import ModularGrammar.Json.Record
import ModularGrammar.Json.Token
import ModularGrammar.Json.Writer
import ModularGrammar.Library
import ModularGrammar.Link.Basic
import ModularGrammar.Link.Load
import ModularGrammar.Link.Options
import ModularGrammar.Link.Report
import ModularGrammar.MacroReference
import ModularGrammar.Main
import ModularGrammar.Module.Basic
import ModularGrammar.Module.Edit
import ModularGrammar.Module.Extraction
import ModularGrammar.Naming
import ModularGrammar.Path
import ModularGrammar.Precedence
import ModularGrammar.Proofs.Naming
import ModularGrammar.Proofs.Resolution
import ModularGrammar.Proofs.Segment
import ModularGrammar.Proofs.Table
import ModularGrammar.Renaming
import ModularGrammar.Summary
import ModularGrammar.Survey
import ModularGrammar.Table
import ModularGrammar.Text.Blank
import ModularGrammar.Text.Printable
import ModularGrammar.Text.Quoted
import ModularGrammar.Text.Segment
import ModularGrammar.Proofs.Referent
import ModularGrammar.Proofs.Merging
import ModularGrammar.Proofs.PriorityOrder
import ModularGrammar.Proofs.Renaming
import ModularGrammar.Proofs.Linking
import ModularGrammar.Proofs.GlobalGrammar
import ModularGrammar.Proofs.Hygiene
import ModularGrammar.Proofs.Derivation
import ModularGrammar.Proofs.StartRule
import ModularGrammar.Proofs.OfferedRules
import ModularGrammar.Proofs.RepeatedImports
import ModularGrammar.Proofs.Reexports
import ModularGrammar.Proofs.MacroReference
import ModularGrammar.Proofs.LinkedLexicon
import ModularGrammar.Proofs.MacroScope
import ModularGrammar.Proofs.CompositeLexicon
import ModularGrammar.Proofs.Collision
import ModularGrammar.Proofs.LinkOutcome
import ModularGrammar.Proofs.RenamingOrder
import ModularGrammar.Proofs.SurveyRun
import ModularGrammar.Proofs.NoDefect
import ModularGrammar.Proofs.RelativeOrder
import ModularGrammar.Proofs.Requests
import ModularGrammar.Proofs.Reachability
import ModularGrammar.Proofs.Worklist
import ModularGrammar.Proofs.NamingRun
import ModularGrammar.Proofs.UniqueDecoding
import ModularGrammar.Proofs.DocumentLines
import ModularGrammar.Proofs.Construction
import ModularGrammar.Proofs.JsonTokens
import ModularGrammar.Proofs.JsonRoundTrip
import ModularGrammar.Proofs.DocumentRoundTrip
import ModularGrammar.Proofs.BindingForms
import ModularGrammar.Proofs.DistinctForms
import ModularGrammar.Proofs.DefaultBindings
import ModularGrammar.Proofs.WrittenLexemes
import ModularGrammar.Proofs.WrittenDirectives
import ModularGrammar.Proofs.Validation
import ModularGrammar.Proofs.HiddenExports
import ModularGrammar.Proofs.Contributions
import ModularGrammar.Proofs.KeywordAgreement
import ModularGrammar.Proofs.PrecedenceTable
import ModularGrammar.Proofs.NormalPath
import ModularGrammar.Proofs.RelativeImports
import ModularGrammar.Proofs.CanonicalNames
import ModularGrammar.Proofs.ImportRelation
import ModularGrammar.Proofs.DrawnGraph
import ModularGrammar.Proofs.RegularExpression
import ModularGrammar.Proofs.MacroPattern
import ModularGrammar.Proofs.RenamingInPlace
import ModularGrammar.Proofs.DocumentShapes
import ModularGrammar.Proofs.Edits
import ModularGrammar.Proofs.FileTree
import ModularGrammar.Proofs.OpenStrings
import ModularGrammar.Proofs.ShownOptions
import ModularGrammar.Proofs.ReportedPriority
