import SheetLint.Color.Basic
import SheetLint.Color.Finite
import SheetLint.Color.Named
import SheetLint.Color.Parse
import SheetLint.Color.Token
import SheetLint.Combinator.Rule
import SheetLint.Config.Basic
import SheetLint.Config.Error
import SheetLint.Config.Options
import SheetLint.Config.Shape
import SheetLint.Decimal.Read
import SheetLint.Decimal.Shortest
import SheetLint.Edit
import SheetLint.Forest
import SheetLint.Json.Basic
import SheetLint.Json.Print
import SheetLint.Json.Read
import SheetLint.Lint
import SheetLint.Magic.ColorHint
import SheetLint.Magic.Engine
import SheetLint.Magic.Imports
import SheetLint.Magic.Matcher
import SheetLint.Magic.Rule
import SheetLint.Magic.Word
import SheetLint.Pattern.Basic
import SheetLint.Pattern.Class
import SheetLint.Pattern.Read
import SheetLint.Position
import SheetLint.Proofs.AcceptedEdits
import SheetLint.Proofs.AcceptedSheets
import SheetLint.Proofs.ArenaEdits
import SheetLint.Proofs.ArenaMoves
import SheetLint.Proofs.ArenaRefinement
import SheetLint.Proofs.ArenaRemovals
import SheetLint.Proofs.ArenaTrees
import SheetLint.Proofs.BuiltSheets
import SheetLint.Proofs.ColorHints
import SheetLint.Proofs.ConfiguredRules
import SheetLint.Proofs.Convergence
import SheetLint.Proofs.CountedPlaces
import SheetLint.Proofs.CutShort
import SheetLint.Proofs.DirectivePlacement
import SheetLint.Proofs.EditOrder
import SheetLint.Proofs.EngineContract
import SheetLint.Proofs.EnsuredImports
import SheetLint.Proofs.FamilyLists
import SheetLint.Proofs.FixedSheets
import SheetLint.Proofs.FixedValues
import SheetLint.Proofs.FlatValues
import SheetLint.Proofs.ForestIds
import SheetLint.Proofs.Headings
import SheetLint.Proofs.HexNotation
import SheetLint.Proofs.HiddenMatches
import SheetLint.Proofs.JoinedTexts
import SheetLint.Proofs.KeptReplacements
import SheetLint.Proofs.LastSemicolon
import SheetLint.Proofs.Legible
import SheetLint.Proofs.Lossless
import SheetLint.Proofs.Marks
import SheetLint.Proofs.MatchedRanges
import SheetLint.Proofs.MovedNodes
import SheetLint.Proofs.Nesting
import SheetLint.Proofs.NodeSpans
import SheetLint.Proofs.Outline
import SheetLint.Proofs.Outside
import SheetLint.Proofs.ParseFaults
import SheetLint.Proofs.Places
import SheetLint.Proofs.PrefixedBranches
import SheetLint.Proofs.QuotedScans
import SheetLint.Proofs.ReadAhead
import SheetLint.Proofs.ReboundAliases
import SheetLint.Proofs.Relocation
import SheetLint.Proofs.RepeatedFix
import SheetLint.Proofs.ReportMode
import SheetLint.Proofs.RereadConfigs
import SheetLint.Proofs.Rereading
import SheetLint.Proofs.Rescan
import SheetLint.Proofs.ResolvedSelectors
import SheetLint.Proofs.ScanState
import SheetLint.Proofs.Scanned
import SheetLint.Proofs.SelectorTerms
import SheetLint.Proofs.SeparatedLayout
import SheetLint.Proofs.Siblings
import SheetLint.Proofs.SoundSheets
import SheetLint.Proofs.Splicing
import SheetLint.Proofs.Surgery
import SheetLint.Proofs.TakenOut
import SheetLint.Proofs.TopDownFix
import SheetLint.Proofs.TreeEdits
import SheetLint.Proofs.Trimming
import SheetLint.Proofs.ValueLayout
import SheetLint.Proofs.ValueRanges
import SheetLint.Proofs.ValueReading
import SheetLint.Proofs.WordOccurrences
import SheetLint.Registry
import SheetLint.Rule
import SheetLint.RuleId
import SheetLint.Severity
import SheetLint.Sheet.Arena
import SheetLint.Sheet.Basic
import SheetLint.Sheet.Fault
import SheetLint.Sheet.Node
import SheetLint.Sheet.Parse
import SheetLint.Sheet.Piece
import SheetLint.Sheet.Prelude
import SheetLint.Sheet.Print
import SheetLint.Text.Alphanumeric
import SheetLint.Text.Basic
import SheetLint.Text.Blank
import SheetLint.Text.CaseFold
import SheetLint.Text.Digit
import SheetLint.Text.Letter
import SheetLint.Text.Mark
import SheetLint.Text.Number
import SheetLint.Text.Printable
import SheetLint.Text.Quoted
import SheetLint.Text.Ranges
import SheetLint.Toml.Read
import SheetLint.Toml.Scalar
import SheetLint.Toml.Value
import SheetLint.Value.Lexeme
import SheetLint.Value.Node
import SheetLint.Value.Parse
