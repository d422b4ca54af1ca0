import PrimitiveAbi.Main
import PrimitiveAbi.Proofs.Binding
import PrimitiveAbi.Proofs.Document.RoundTrip
import PrimitiveAbi.Proofs.Document.Strict
import PrimitiveAbi.Proofs.Linking
import PrimitiveAbi.Proofs.Header.Comment
import PrimitiveAbi.Proofs.Trace
import PrimitiveAbi.Proofs.Abort
import PrimitiveAbi.Proofs.Collisions
import PrimitiveAbi.Proofs.Effects
import PrimitiveAbi.Proofs.Header.Layout
import PrimitiveAbi.Proofs.Header.Reading
import PrimitiveAbi.Proofs.Delivery
import PrimitiveAbi.Proofs.Publication
import PrimitiveAbi.Proofs.Json.Raw
import PrimitiveAbi.Proofs.Json.Skip
import PrimitiveAbi.Proofs.Json.Cut
import PrimitiveAbi.Proofs.Json.Front
import PrimitiveAbi.Proofs.Json.FrontNumber
import PrimitiveAbi.Proofs.Document.Extent
import PrimitiveAbi.Proofs.Document.Front
import PrimitiveAbi.Proofs.Document.FrontShape
import PrimitiveAbi.Proofs.Truncation
import PrimitiveAbi.Proofs.Document.Insertion
import PrimitiveAbi.Proofs.Openness
import PrimitiveAbi.Proofs.Command.Arguments
import PrimitiveAbi.Proofs.Requests
import PrimitiveAbi.Proofs.Signedness
import PrimitiveAbi.Proofs.Command.Environment
import PrimitiveAbi.Proofs.Command.Exits
import PrimitiveAbi.Proofs.Bytes
import PrimitiveAbi.Proofs.Division
import PrimitiveAbi.Proofs.Symbols
import PrimitiveAbi.Proofs.SurfaceReaders
import PrimitiveAbi.Proofs.Comparisons
import PrimitiveAbi.Proofs.Rejections
import PrimitiveAbi.Proofs.Command.SymbolLines
import PrimitiveAbi.Proofs.Command.EnvironmentBytes
