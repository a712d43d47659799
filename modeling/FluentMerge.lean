import FluentMerge.Catalog.Data
import FluentMerge.Conversion.Data
import FluentMerge.Document.Data
import FluentMerge.Main
import FluentMerge.Session
import FluentMerge.Proofs.Catalog.FoundRecords
import FluentMerge.Proofs.Catalog.Writing
import FluentMerge.Proofs.Catalog.QuotedStrings
import FluentMerge.Proofs.Catalog.Reading
import FluentMerge.Proofs.Catalog.Consistency
import FluentMerge.Proofs.Catalog.BlankLines
import FluentMerge.Proofs.Catalog.FirstFault
import FluentMerge.Proofs.Catalog.ObsoleteEntries
import FluentMerge.Proofs.Charset.Declared
import FluentMerge.Proofs.Charset.FirstDeclaration
import FluentMerge.Proofs.Charset.HeaderCharset
import FluentMerge.Proofs.Charset.Utf8Catalogs
import FluentMerge.Proofs.Document.Layout
import FluentMerge.Proofs.Document.Outcome
import FluentMerge.Proofs.Document.Tail
import FluentMerge.Proofs.Document.Locality
import FluentMerge.Proofs.Document.Composition
import FluentMerge.Proofs.Document.Concatenation
import FluentMerge.Proofs.Document.CommentLines
import FluentMerge.Proofs.Document.CommentBlocks
import FluentMerge.Proofs.Document.Attachment
import FluentMerge.Proofs.Document.Outline
import FluentMerge.Proofs.Document.Names
import FluentMerge.Proofs.Document.TextLines
import FluentMerge.Proofs.Document.MultilineValues
import FluentMerge.Proofs.Document.Entries
import FluentMerge.Proofs.Document.Progress
import FluentMerge.Proofs.Document.Recursion
import FluentMerge.Proofs.Document.Cursor
import FluentMerge.Proofs.Document.NormalForm
import FluentMerge.Proofs.Expression.Tree
import FluentMerge.Proofs.Expression.Leaves
import FluentMerge.Proofs.Expression.Written
import FluentMerge.Proofs.Expression.Rules
import FluentMerge.Proofs.Expression.Reading
import FluentMerge.Proofs.Expression.Placeable
import FluentMerge.Proofs.Merge.Assembly
import FluentMerge.Proofs.Merge.Spread
import FluentMerge.Proofs.Merge.MessageText
import FluentMerge.Proofs.Merge.MessageReading
import FluentMerge.Proofs.Merge.Reread
import FluentMerge.Proofs.Merge.EndToEnd
import FluentMerge.Proofs.Merge.Isolation
import FluentMerge.Proofs.Merge.BlankLines
import FluentMerge.Proofs.Merge.AuditAgreement
import FluentMerge.Proofs.Merge.LostContent
import FluentMerge.Proofs.Merge.FirstForms
import FluentMerge.Proofs.Merge.LineEnds
import FluentMerge.Proofs.Conversion.AllOrNothing
import FluentMerge.Proofs.Json.Rewriting
import FluentMerge.Proofs.Json.RoundTrip
