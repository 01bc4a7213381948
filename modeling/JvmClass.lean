import JvmClass.Main
import JvmClass.Proofs.Attribute.RoundTrip
import JvmClass.Proofs.Body.Disassembled
import JvmClass.Proofs.Body.Narrowed
import JvmClass.Proofs.Body.Relocated
import JvmClass.Proofs.Body.WellPlaced
import JvmClass.Proofs.ClassModel.Delimited
import JvmClass.Proofs.ClassModel.Moved
import JvmClass.Proofs.ClassModel.Ordinary
import JvmClass.Proofs.ClassModel.Resolved
import JvmClass.Proofs.ClassModel.RoundTrip
import JvmClass.Proofs.Descriptor
import JvmClass.Proofs.Frame.Absorbing
import JvmClass.Proofs.Frame.Least
import JvmClass.Proofs.Frame.Maxima
import JvmClass.Proofs.Frame.Roundtrip
import JvmClass.Proofs.Frame.Shape
import JvmClass.Proofs.Frame.Smallest
import JvmClass.Proofs.Hierarchy.Absorbing
import JvmClass.Proofs.Hierarchy.Climbs
import JvmClass.Proofs.Hierarchy.Closest
import JvmClass.Proofs.Instrument.Cleared
import JvmClass.Proofs.Instrument.Lenient
import JvmClass.Proofs.Instrument.Reported
import JvmClass.Proofs.Pool.Codec
import JvmClass.Proofs.Pool.Written
import JvmClass.Proofs.Trace
import JvmClass.Proofs.Verify.Bounded
import JvmClass.Proofs.Verify.Certified
import JvmClass.Proofs.Verify.Computed
import JvmClass.Proofs.Verify.Operands
import JvmClass.Proofs.Verify.Visited
import JvmClass.Proofs.Weave.Inserted
import JvmClass.Proofs.Weave.Ordered
import JvmClass.Proofs.Weave.Renamed
import JvmClass.Proofs.Weave.Steered
