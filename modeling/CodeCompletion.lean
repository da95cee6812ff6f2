import CodeCompletion.Text.Alphanumeric
import CodeCompletion.Text.LetterCase
import CodeCompletion.Text.Blank
import CodeCompletion.Text.Affix
import CodeCompletion.Span.Codec
import CodeCompletion.Syntax.Draft
import CodeCompletion.Document
import CodeCompletion.Types.Display
import CodeCompletion.Types.Widen
import CodeCompletion.Types.Accepts
import CodeCompletion.Types.Codec
import CodeCompletion.Types.Program
import CodeCompletion.Entry.Basic
import CodeCompletion.Deferred
import CodeCompletion.Pattern.Name
import CodeCompletion.Pattern.Glob.Parser
import CodeCompletion.Settings.Flat
import CodeCompletion.Event
import CodeCompletion.SortKey
import CodeCompletion.Snippet
import CodeCompletion.Cursor
import CodeCompletion.Stage.Basic
import CodeCompletion.Stage.Visibility
import CodeCompletion.Stage.CoveredCases
import CodeCompletion.Stage.Markup
import CodeCompletion.Stage.Table
import CodeCompletion.Rule.Codec
import CodeCompletion.Rule.Scan
import CodeCompletion.Session
import CodeCompletion.Proofs.SortKey.Order
import CodeCompletion.Proofs.Enrichment.Run
import CodeCompletion.Proofs.Rule.Scan
import CodeCompletion.Proofs.Rule.KeyOrder
import CodeCompletion.Proofs.Rule.Turns
import CodeCompletion.Proofs.Deferred.Carry
import CodeCompletion.Proofs.Enrichment.FinalKeys
import CodeCompletion.Proofs.Enrichment.DisplayedOrder
import CodeCompletion.Proofs.Enrichment.Recall
import CodeCompletion.Proofs.Session.Conversation
import CodeCompletion.Proofs.Session.Details
import CodeCompletion.Proofs.Session.Transparency
import CodeCompletion.Proofs.Syntax.Build
import CodeCompletion.Proofs.Syntax.Links
import CodeCompletion.Proofs.Deferred.Merge
import CodeCompletion.Proofs.Enrichment.Course
import CodeCompletion.Proofs.Enrichment.KeptAside
import CodeCompletion.Proofs.Enrichment.RankedOrder
import CodeCompletion.Proofs.Rule.Touched
import CodeCompletion.Proofs.Enrichment.Rounding
import CodeCompletion.Proofs.Enrichment.Insertions
import CodeCompletion.Proofs.Enrichment.Marking
import CodeCompletion.Proofs.Rule.Carries
import CodeCompletion.Proofs.Enrichment.Renaming
import CodeCompletion.Proofs.Enrichment.Unlogged
import CodeCompletion.Proofs.Pattern.Wildcards
import CodeCompletion.Proofs.Enrichment.UnreadableItems
import CodeCompletion.Proofs.Syntax.Lookup
import CodeCompletion.Proofs.Snippet.Reading
import CodeCompletion.Proofs.Snippet.Calls
import CodeCompletion.Proofs.Stage.Stubs
import CodeCompletion.Proofs.Enrichment.NamespaceImports
import CodeCompletion.Proofs.Types.Assignability
import CodeCompletion.Proofs.Types.Properties
import CodeCompletion.Proofs.Types.Widening
import CodeCompletion.Proofs.Cursor.Word
import CodeCompletion.Proofs.Stage.CoveredCases
import CodeCompletion.Proofs.Settings.Paths
import CodeCompletion.Proofs.Text.Pieces
import CodeCompletion.Proofs.Settings.Keys
import CodeCompletion.Proofs.Settings.Expansion
import CodeCompletion.Proofs.Settings.Conflicts
import CodeCompletion.Proofs.Stage.ImportDeclarations
import CodeCompletion.Proofs.Stage.AttributeRules
import CodeCompletion.Proofs.Enrichment.EmptyLists
import CodeCompletion.Proofs.Entry.RoundTrip
import CodeCompletion.Proofs.Types.Ambiguity
import CodeCompletion.Proofs.SortKey.Ranks
import CodeCompletion.Proofs.Rule.Indexed
import CodeCompletion.Proofs.Pattern.Search
import CodeCompletion.Proofs.Stage.TypedStart
