import SearchFilter.Filter.Decode
import SearchFilter.Filter.Encode
import SearchFilter.Filter.Parse
import SearchFilter.Filter.Render
import SearchFilter.Filter.Rewrite
import SearchFilter.Evaluate
import SearchFilter.Filter.Projection
import SearchFilter.Record.Json
import SearchFilter.Record.Yaml
import SearchFilter.Config
import SearchFilter.Command.Run
import SearchFilter.Main
import SearchFilter.Proofs.Ber.Length
import SearchFilter.Proofs.Ber.Reader
import SearchFilter.Proofs.Octets.Utf8
import SearchFilter.Proofs.Filter.Encoding
import SearchFilter.Proofs.Filter.Decoding
import SearchFilter.Proofs.Filter.BinaryForm
import SearchFilter.Proofs.Except
import SearchFilter.Proofs.Text.Value
import SearchFilter.Proofs.Filter.Fragments
import SearchFilter.Proofs.Filter.Item
import SearchFilter.Proofs.Filter.Grammar
import SearchFilter.Proofs.Filter.TextForm
import SearchFilter.Proofs.Filter.Skeleton
import SearchFilter.Proofs.Filter.Limit
import SearchFilter.Proofs.Ber.Minimal
import SearchFilter.Proofs.Ber.Occurrence
import SearchFilter.Proofs.Filter.Canonical
import SearchFilter.Proofs.Filter.Locality
import SearchFilter.Proofs.Evaluate.Junction
import SearchFilter.Proofs.Evaluate.Reordering
import SearchFilter.Proofs.Evaluate.Matchers
import SearchFilter.Proofs.Evaluate.BooleanLaws
import SearchFilter.Proofs.Filter.Rewriting
import SearchFilter.Proofs.Filter.Session
import SearchFilter.Proofs.Text.Escaping
import SearchFilter.Proofs.Evaluate.Inquiry
import SearchFilter.Proofs.Evaluate.LocalRewriting
import SearchFilter.Proofs.Failure
import SearchFilter.Proofs.Ber.Failure
import SearchFilter.Proofs.Filter.Failure
import SearchFilter.Proofs.Octets.Hex
import SearchFilter.Proofs.Command.Formats
import SearchFilter.Proofs.Filter.WriterCalls
import SearchFilter.Proofs.Ber.Closed
import SearchFilter.Proofs.Ber.Moves
import SearchFilter.Proofs.Filter.Closed
import SearchFilter.Proofs.Filter.ReaderCalls
import SearchFilter.Proofs.Filter.Clauses
import SearchFilter.Proofs.Filter.Descent
import SearchFilter.Proofs.Recursion
import SearchFilter.Proofs.Filter.Termination
import SearchFilter.Proofs.Filter.Amplification
import SearchFilter.Proofs.Record.Lookup
import SearchFilter.Proofs.Text.Decimal
import SearchFilter.Proofs.Evaluate.Leaf
import SearchFilter.Proofs.Evaluate.LeafCoherence
import SearchFilter.Proofs.Evaluate.CaseRelaxation
import SearchFilter.Proofs.Pattern.Fragments
import SearchFilter.Proofs.Pattern.Expression
import SearchFilter.Proofs.Evaluate.SubstringSearch
import SearchFilter.Proofs.Filter.Pruning
import SearchFilter.Proofs.Filter.Visiting
import SearchFilter.Proofs.Filter.ExpectedKind
import SearchFilter.Proofs.Filter.Equality
import SearchFilter.Proofs.Filter.SubstringView
import SearchFilter.Proofs.Filter.Projection
import SearchFilter.Proofs.Evaluate.IntegerOrder
import SearchFilter.Proofs.Ber.LengthReading
import SearchFilter.Proofs.Octets.Alignment
import SearchFilter.Proofs.Pattern.Octets
import SearchFilter.Proofs.Evaluate.OctetSearch
import SearchFilter.Proofs.Filter.WrittenForm
import SearchFilter.Proofs.Pattern.EmptyEnds
import SearchFilter.Proofs.Evaluate.ThroughText
