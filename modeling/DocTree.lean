import DocTree.Docs.Run
import DocTree.Proofs.Binary64.Decimal
import DocTree.Proofs.Binary64.ReadBack
import DocTree.Proofs.Binary64.Shortest
import DocTree.Proofs.Docs.BottomUp
import DocTree.Proofs.Docs.CalloutRule
import DocTree.Proofs.Docs.Closure
import DocTree.Proofs.Docs.Config
import DocTree.Proofs.Docs.ConfigAccepted
import DocTree.Proofs.Docs.ConfigOrder
import DocTree.Proofs.Docs.ConfiguredTexts
import DocTree.Proofs.Docs.EmptyTags
import DocTree.Proofs.Docs.Equality
import DocTree.Proofs.Docs.Frame
import DocTree.Proofs.Docs.Growth
import DocTree.Proofs.Docs.HostTexts
import DocTree.Proofs.Docs.Markers
import DocTree.Proofs.Docs.PermalinkTarget
import DocTree.Proofs.Docs.Repeated
import DocTree.Proofs.Docs.Reports
import DocTree.Proofs.Docs.Restyled
import DocTree.Proofs.Docs.Sites
import DocTree.Proofs.Docs.Stopped
import DocTree.Proofs.Docs.Totals
import DocTree.Proofs.Docs.Visited
import DocTree.Proofs.Json.Content
import DocTree.Proofs.Json.DistinctKeys
import DocTree.Proofs.Json.Embedded
import DocTree.Proofs.Json.Extended
import DocTree.Proofs.Json.Limit
import DocTree.Proofs.Json.Numeral
import DocTree.Proofs.Json.Refused
import DocTree.Proofs.Json.Relaxed.Gap
import DocTree.Proofs.Json.Relaxed.Literal
import DocTree.Proofs.Json.RepeatedKeys
import DocTree.Proofs.Json.RoundTrip
import DocTree.Proofs.Node.Accepted
import DocTree.Proofs.Node.Decode
import DocTree.Proofs.Node.Decoded
import DocTree.Proofs.Node.Equality
import DocTree.Proofs.Node.Extended
import DocTree.Proofs.Node.Grammar
import DocTree.Proofs.Node.Made
import DocTree.Proofs.Node.Nesting
import DocTree.Proofs.Node.NormalForm
import DocTree.Proofs.Node.Offences
import DocTree.Proofs.Node.OtherNodes
import DocTree.Proofs.Node.Refused
import DocTree.Proofs.Node.RoundTrip
import DocTree.Proofs.Node.Written
import DocTree.Proofs.Property.Grammar
import DocTree.Proofs.Property.HostText
import DocTree.Proofs.Property.RoundTrip
import DocTree.Proofs.Property.WrittenNumbers
import DocTree.Proofs.Reading
import DocTree.Proofs.Reading.Extended
import DocTree.Proofs.Text.ByteOrder
import DocTree.Proofs.Walk.Calls
import DocTree.Proofs.Walk.PreOrder
import DocTree.Proofs.Walk.Visits
import DocTree.Walk.Visit
