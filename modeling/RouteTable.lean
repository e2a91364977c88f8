import RouteTable.Regex.Matcher
import RouteTable.Pattern.Match
import RouteTable.Router.Cursor
import RouteTable.Proofs.Utf8.Key
import RouteTable.Proofs.Index.Answer
import RouteTable.Proofs.Index.Walk
import RouteTable.Proofs.Index.Insertion
import RouteTable.Proofs.Index.Turns
import RouteTable.Proofs.Index.PositionHistory
import RouteTable.Proofs.Index.Room
import RouteTable.Proofs.Index.Collection
import RouteTable.Proofs.Pattern.Accepted
import RouteTable.Proofs.Index.Agreement
import RouteTable.Proofs.Pattern.Normal
import RouteTable.Proofs.Router.Draft
import RouteTable.Proofs.Router.Queries
import RouteTable.Proofs.Router.Answers
import RouteTable.Proofs.Regex.Semantics
import RouteTable.Proofs.Regex.Search
import RouteTable.Proofs.Regex.Renumber
import RouteTable.Proofs.Regex.Lexing
import RouteTable.Proofs.Utf8.Decoding
import RouteTable.Proofs.Regex.Quoting
import RouteTable.Proofs.Regex.Reading
import RouteTable.Proofs.Pattern.Expression
import RouteTable.Proofs.Regex.Captures
import RouteTable.Proofs.Pattern.Matching
import RouteTable.Proofs.Router.Registration
import RouteTable.Proofs.Pattern.Spelling
import RouteTable.Proofs.Pattern.Braces
import RouteTable.Proofs.Pattern.Prefix
import RouteTable.Proofs.Pattern.Shape
import RouteTable.Proofs.Pattern.Grammar
import RouteTable.Proofs.Router.Completeness
import RouteTable.Proofs.Router.Extension
import RouteTable.Proofs.Router.Traversal
import RouteTable.Proofs.Router.Equality
import RouteTable.Proofs.Router.Building
import RouteTable.Proofs.Pattern.Compilation
import RouteTable.Proofs.Router.Reordering
import RouteTable.Proofs.Pattern.Simplification
import RouteTable.Proofs.Utf8.Shared
import RouteTable.Proofs.Index.Branching
import RouteTable.Proofs.Index.Depth
import RouteTable.Proofs.Utf8.Checking
import RouteTable.Proofs.Pattern.Encoding
import RouteTable.Proofs.Pattern.Validity
