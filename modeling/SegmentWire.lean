import SegmentWire.Json.Envelopes
import SegmentWire.Json.Limits
import SegmentWire.Proofs.EnvelopeCodec
import SegmentWire.Proofs.MapCodec
import SegmentWire.Scan.Offsets
import SegmentWire.Stream
import SegmentWire.Proofs.Comparison
import SegmentWire.Proofs.DocumentCodec
import SegmentWire.Proofs.ListCodec
import SegmentWire.Proofs.MessageCodec
import SegmentWire.Proofs.Delivery
import SegmentWire.Proofs.Truncation
import SegmentWire.Proofs.LimitFilter
import SegmentWire.Proofs.Failing
import SegmentWire.Proofs.IntegrityCount
import SegmentWire.Proofs.DictionaryRuns
import SegmentWire.Proofs.ScanOffsets
import SegmentWire.Proofs.ScanWalk
import SegmentWire.Proofs.MessageDocument
import SegmentWire.Proofs.ScanCounts
import SegmentWire.Proofs.Reachable
import SegmentWire.Proofs.Sizes
import SegmentWire.Proofs.FailingSink
import SegmentWire.Proofs.MixedStreams
import SegmentWire.Proofs.TypedAccess
import SegmentWire.Proofs.EnvelopeTrip
import SegmentWire.Proofs.LooseParts
import SegmentWire.Proofs.FirstOffence
import SegmentWire.Proofs.HostileCount
import SegmentWire.Proofs.TextPreview
