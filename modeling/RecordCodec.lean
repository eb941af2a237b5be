import RecordCodec.StructCode
import RecordCodec.Compile
import RecordCodec.Settings.Load
import RecordCodec.Schema.FieldJson
import RecordCodec.Proofs.Compile.Steps
import RecordCodec.Proofs.Compile.Generated
import RecordCodec.Proofs.Codec.WireKeys
import RecordCodec.Proofs.Record.Shape
import RecordCodec.Proofs.Decimal.Normal
import RecordCodec.Proofs.Decimal.Text
import RecordCodec.Proofs.Decimal.Value
import RecordCodec.Proofs.Codec.Writing
import RecordCodec.Proofs.Decimal.Order
import RecordCodec.Proofs.Record.Comparison
import RecordCodec.Proofs.Record.Order
import RecordCodec.Proofs.Json.Spelling
import RecordCodec.Proofs.Codec.Reading
import RecordCodec.Proofs.Codec.Roundtrip
import RecordCodec.Proofs.Codec.Awaiting
import RecordCodec.Proofs.Codec.Overflow
import RecordCodec.Proofs.Compile.Overflow
import RecordCodec.Proofs.Record.Decoded
import RecordCodec.Proofs.Record.Operations
import RecordCodec.Proofs.Codec.Points
import RecordCodec.Proofs.EndOfRun
import RecordCodec.Proofs.Record.Agreement
import RecordCodec.Proofs.Alignment
import RecordCodec.Proofs.Json.Text
import RecordCodec.Proofs.Codec.WireEquality
import RecordCodec.Proofs.Compile.Course
import RecordCodec.Proofs.Naming.Fresh
import RecordCodec.Proofs.Naming.Order
import RecordCodec.Proofs.Compile.Advance
import RecordCodec.Proofs.Codec.References
import RecordCodec.Proofs.Compile.Errors
import RecordCodec.Proofs.Compile.Closed
import RecordCodec.Proofs.Schema.Preorder
import RecordCodec.Proofs.Compile.Jumps
import RecordCodec.Proofs.Compile.Sharing
import RecordCodec.Proofs.References.Reach
import RecordCodec.Proofs.References.Components
import RecordCodec.Proofs.Compile.Cycles
import RecordCodec.Proofs.Compile.Order
import RecordCodec.Proofs.Codec.Soundness
import RecordCodec.Proofs.Json.Stream
import RecordCodec.Proofs.Codec.Fitting
import RecordCodec.Proofs.Json.Literals
import RecordCodec.Proofs.Codec.Documents
import RecordCodec.Proofs.Codec.Undeclared
import RecordCodec.Proofs.Codec.AsRead
import RecordCodec.Proofs.Codec.Canonical
import RecordCodec.Proofs.Compile.Success
import RecordCodec.Proofs.Compile.Fingerprints
import RecordCodec.Proofs.Compile.ArtifactNames
import RecordCodec.Proofs.Compile.Parallel
import RecordCodec.Proofs.Compile.Documentation
import RecordCodec.Proofs.Compile.Appending
import RecordCodec.Proofs.Naming.Resolution
import RecordCodec.Proofs.Decimal.Literals
import RecordCodec.Proofs.Decimal.Printing
import RecordCodec.Proofs.Schema.TypeText
import RecordCodec.Proofs.Codec.AbsentKeys
import RecordCodec.Proofs.Codec.Culprits
import RecordCodec.Proofs.Token.Skipping
import RecordCodec.Proofs.Json.Lossless
import RecordCodec.Proofs.Naming.SnakeCase
import RecordCodec.Proofs.Compile.Spellings
import RecordCodec.Proofs.Record.Copies
import RecordCodec.Proofs.StructCode.Descriptions
import RecordCodec.Proofs.Naming.Words
import RecordCodec.Proofs.Schema.Validity
import RecordCodec.Proofs.Record.Building
import RecordCodec.Proofs.Schema.FieldDocuments
