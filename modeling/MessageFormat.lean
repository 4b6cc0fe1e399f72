import MessageFormat.Formatter.Session
import MessageFormat.Proofs.Derivation
import MessageFormat.Proofs.Quotation
import MessageFormat.Proofs.Grammar
import MessageFormat.Proofs.Soundness
import MessageFormat.Proofs.Completeness
import MessageFormat.Proofs.Cases
import MessageFormat.Proofs.Locale
import MessageFormat.Proofs.SortedMap
import MessageFormat.Proofs.Levels
import MessageFormat.Proofs.WellFormed
import MessageFormat.Proofs.RoundTrip.Text
import MessageFormat.Proofs.RoundTrip.Cases
import MessageFormat.Proofs.RoundTrip.Message
import MessageFormat.Proofs.Collapse.Message
import MessageFormat.Proofs.Collapse.Reading
import MessageFormat.Proofs.Collapse.Grammar
import MessageFormat.Proofs.Collapse.PrintedText
import MessageFormat.Proofs.Collapse.Printing
import MessageFormat.Proofs.Collapse.Reprint
import MessageFormat.Proofs.Identifier.Normalized
import MessageFormat.Proofs.Tokens
import MessageFormat.Proofs.TagMode
import MessageFormat.Proofs.Rendering.Parts
import MessageFormat.Proofs.Rendering.Direct
import MessageFormat.Proofs.Rendering.Bindings
import MessageFormat.Proofs.Rendering.Marks
import MessageFormat.Proofs.Rendering.Arguments
import MessageFormat.Proofs.Formatter.Placeholders
import MessageFormat.Proofs.Formatter.Requests
import MessageFormat.Proofs.Formatter.Session
import MessageFormat.Proofs.Catalogs.Edits
import MessageFormat.Catalogs.Document
import MessageFormat.Proofs.Catalogs.Documents
import MessageFormat.Proofs.Suggestion.EditDistance
import MessageFormat.Proofs.Suggestion.Ranking
import MessageFormat.Proofs.Formatter.Missing
import MessageFormat.Proofs.Formatter.EntryPoints
import MessageFormat.Proofs.Locale.Search
import MessageFormat.Proofs.Locale.Subtags
import MessageFormat.Proofs.Catalogs.Fallback
import MessageFormat.Proofs.Catalogs.History
import MessageFormat.Proofs.Plural.Integers
import MessageFormat.Proofs.Number.Integers
import MessageFormat.Proofs.Number.Pattern
import MessageFormat.Proofs.Number.CurrencyCode
import MessageFormat.Proofs.Number.Fraction
import MessageFormat.Proofs.Binary64.Quotient
import MessageFormat.Proofs.Decimal.Significant
import MessageFormat.Proofs.Binary64.Exponent
import MessageFormat.Proofs.Number.Significant
import MessageFormat.Proofs.Duration
import MessageFormat.Proofs.DateTime.Skeleton
import MessageFormat.Proofs.Juxtaposition
import MessageFormat.Proofs.FaultPlaces
import MessageFormat.Proofs.Identifier.Checksum
import MessageFormat.Proofs.Identifier.Slug
import MessageFormat.Proofs.Position
import MessageFormat.Proofs.Number.Trimmed
