import Qualification.Acceptance.Codec
import Qualification.Acceptance.Evaluation
import Qualification.Command.Arguments
import Qualification.Command.Execution
import Qualification.Command.Output
import Qualification.Command.Report
import Qualification.Command.Request
import Qualification.Configuration
import Qualification.Decimal.Basic
import Qualification.Decimal.Layout
import Qualification.Decimal.Shortest
import Qualification.Degradation.Analysis
import Qualification.Degradation.Codec
import Qualification.Degradation.Point
import Qualification.Diagnostic
import Qualification.Dictionary
import Qualification.Digest.Sha256
import Qualification.Document.Decoder
import Qualification.Document.Failure
import Qualification.Document.Fault
import Qualification.Document.Node
import Qualification.Document.Record
import Qualification.Document.Scalar
import Qualification.Document.Tagged
import Qualification.Document.Word
import Qualification.Files.Directory
import Qualification.Files.View
import Qualification.Instant.Basic
import Qualification.Instant.Codec
import Qualification.Instant.Reading
import Qualification.Json.Basic
import Qualification.Json.Printer
import Qualification.Json.Reader
import Qualification.Ledger
import Qualification.Main
import Qualification.Measurement.Basic
import Qualification.Measurement.Codec
import Qualification.Measurement.Value
import Qualification.Numeric.Binary64
import Qualification.Numeric.Pattern
import Qualification.Numeric.Scalar
import Qualification.Numeric.Word
import Qualification.Path
import Qualification.Protocol.Basic
import Qualification.Protocol.Cache
import Qualification.Protocol.Codec
import Qualification.Protocol.Error
import Qualification.Protocol.Lint
import Qualification.Protocol.Loading
import Qualification.Protocol.Reading
import Qualification.Protocol.Service
import Qualification.Protocol.Validation
import Qualification.QualityControl.Assessment
import Qualification.QualityControl.Check
import Qualification.QualityControl.Finding
import Qualification.QualityControl.Settings
import Qualification.Run.Basic
import Qualification.Run.Codec
import Qualification.Run.Creation
import Qualification.Run.Error
import Qualification.Run.Execution
import Qualification.Run.Handler
import Qualification.Run.Operation
import Qualification.Run.Recording
import Qualification.Run.Registry
import Qualification.Run.Transition
import Qualification.Session.Basic
import Qualification.Session.Execution
import Qualification.Severity
import Qualification.Statistics.Codec
import Qualification.Statistics.Outlier
import Qualification.Statistics.Regression
import Qualification.Statistics.Summary
import Qualification.Store.Amendment
import Qualification.Store.Basic
import Qualification.Store.Column
import Qualification.Store.File
import Qualification.Store.Row
import Qualification.Store.Summary
import Qualification.Text.Character
import Qualification.Text.Parts
import Qualification.Text.Quoted
import Qualification.Text.Unprintable
import Qualification.Yaml.Tree
import Qualification.Yaml.Cursor
import Qualification.Yaml.Scalar.Block
import Qualification.Yaml.Scalar.Flow
import Qualification.Yaml.Token
import Qualification.Yaml.Token.Lexer
import Qualification.Yaml.Token.Mark
import Qualification.Run.History
import Qualification.Proofs.Refusal
import Qualification.Proofs.Fresh
import Qualification.Proofs.Dictionary
import Qualification.Proofs.Keyed
import Qualification.Proofs.Sorting
import Qualification.Proofs.Reading
import Qualification.Proofs.Store.Saving
import Qualification.Proofs.Decimal.Digits
import Qualification.Proofs.Instant.Calendar
import Qualification.Proofs.Instant.Column
import Qualification.Proofs.Instant.Document
import Qualification.Proofs.Protocol.Cache
import Qualification.Proofs.Protocol.Change
import Qualification.Proofs.Protocol.Layout
import Qualification.Proofs.Protocol.Loading
import Qualification.Proofs.Protocol.Provenance
import Qualification.Proofs.Protocol.Reload
import Qualification.Proofs.Run.Accepted
import Qualification.Proofs.Run.Change
import Qualification.Proofs.Run.Advance
import Qualification.Proofs.Run.Order
import Qualification.Proofs.Run.Stamps
import Qualification.Proofs.Run.Coherence
import Qualification.Proofs.Run.Orderly
import Qualification.Proofs.Run.Atomic
import Qualification.Proofs.Run.Schedule
import Qualification.Proofs.Run.Pace
import Qualification.Proofs.Run.Effect
import Qualification.Proofs.Run.Entries
import Qualification.Proofs.Run.Review
import Qualification.Proofs.Run.Registry
import Qualification.Proofs.Run.Safety
import Qualification.Proofs.Acceptance.Verdict
import Qualification.Proofs.Run.Result
import Qualification.Proofs.Run.Execution
import Qualification.Proofs.Run.Times
import Qualification.Proofs.Protocol.Validity
import Qualification.Proofs.Store.Frame
import Qualification.Proofs.Numeric.Word
import Qualification.Proofs.Numeric.Bits
import Qualification.Proofs.Numeric.Nearest
import Qualification.Proofs.Numeric.Order
import Qualification.Proofs.Decimal.Shortest
import Qualification.Proofs.Decimal.Numeral
import Qualification.Proofs.Json.Number
import Qualification.Proofs.Json.Text
import Qualification.Proofs.Document.Decoding
import Qualification.Proofs.Json.Tree
import Qualification.Proofs.Json.Printed
import Qualification.Proofs.Json.Storable
import Qualification.Proofs.Json.Record
import Qualification.Proofs.Json.Arrangement
import Qualification.Proofs.Document.Word
import Qualification.Proofs.Acceptance.Document
import Qualification.Proofs.Json.Decoded
import Qualification.Proofs.Store.Row
import Qualification.Proofs.Store.Equality
import Qualification.Proofs.Store.Loading
import Qualification.Proofs.Run.Document
import Qualification.Proofs.Store.RoundTrip
import Qualification.Proofs.Instant.Reading
import Qualification.Proofs.Store.Timestamps
import Qualification.Proofs.Text.Order
import Qualification.Proofs.Instant.Order
import Qualification.Proofs.Store.Listing
import Qualification.Proofs.Store.Written
import Qualification.Proofs.Trust
import Qualification.Proofs.QualityControl.Findings
import Qualification.Proofs.QualityControl.Document
import Qualification.Proofs.QualityControl.Trust
import Qualification.Proofs.Protocol.Document
import Qualification.Proofs.Run.Creation
import Qualification.Proofs.Session.Execution
import Qualification.Proofs.Session.Reading
import Qualification.Proofs.Command.Report
import Qualification.Proofs.Command.Run
import Qualification.Proofs.Command.Review
import Qualification.Proofs.Acceptance.Comparison
import Qualification.Proofs.Acceptance.Aggregate
import Qualification.Proofs.Run.Reflagging
import Qualification.Proofs.Numeric.Largest
import Qualification.Proofs.Numeric.Rounding
import Qualification.Proofs.Degradation.Stabilization
import Qualification.Proofs.QualityControl.Assessment
import Qualification.Proofs.Numeric.Quotient
import Qualification.Proofs.Degradation.Series
import Qualification.Proofs.Numeric.Operation
import Qualification.Proofs.Numeric.Multiple
import Qualification.Proofs.Numeric.Vanishing
import Qualification.Proofs.Statistics.Sorted
import Qualification.Proofs.Statistics.Units
import Qualification.Proofs.Statistics.Constant
import Qualification.Proofs.QualityControl.Completeness
import Qualification.Proofs.Statistics.LeastSquares
import Qualification.Proofs.Protocol.Version
import Qualification.Proofs.Numeric.Exact
import Qualification.Proofs.Protocol.Bounds
import Qualification.Proofs.Document.Sound
import Qualification.Proofs.Yaml.Value
import Qualification.Proofs.Document.Misshapen
import Qualification.Proofs.Protocol.Misshapen
import Qualification.Proofs.Statistics.Percentile
import Qualification.Proofs.Run.Resolution
import Qualification.Proofs.Run.Exposure
import Qualification.Proofs.Numeric.Scaling
import Qualification.Proofs.Degradation.Report
