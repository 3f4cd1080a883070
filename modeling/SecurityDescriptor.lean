import SecurityDescriptor.AccessList.Basic
import SecurityDescriptor.AccessList.Binary
import SecurityDescriptor.AccessList.InPlace
import SecurityDescriptor.AccessList.Text
import SecurityDescriptor.Bits
import SecurityDescriptor.Buffer
import SecurityDescriptor.Buffer.InPlace
import SecurityDescriptor.Checked
import SecurityDescriptor.Decoder
import SecurityDescriptor.Descriptor.Basic
import SecurityDescriptor.Descriptor.Binary
import SecurityDescriptor.Descriptor.Control
import SecurityDescriptor.Descriptor.Section
import SecurityDescriptor.Descriptor.Text
import SecurityDescriptor.Entry.Basic
import SecurityDescriptor.Entry.Binary
import SecurityDescriptor.Entry.Flags
import SecurityDescriptor.Entry.InPlace
import SecurityDescriptor.Entry.Kind
import SecurityDescriptor.Entry.Mask
import SecurityDescriptor.Entry.Text
import SecurityDescriptor.Error
import SecurityDescriptor.Guid
import SecurityDescriptor.Looping
import SecurityDescriptor.Octets
import SecurityDescriptor.Positional
import SecurityDescriptor.Proofs.AccessList.InPlace
import SecurityDescriptor.Proofs.AccessList.Layout
import SecurityDescriptor.Proofs.AccessList.Overdeclared
import SecurityDescriptor.Proofs.AccessList.Positional
import SecurityDescriptor.Proofs.AccessList.Reachable
import SecurityDescriptor.Proofs.AccessList.Scanning
import SecurityDescriptor.Proofs.AccessList.Splitting
import SecurityDescriptor.Proofs.AccessList.Text
import SecurityDescriptor.Proofs.AccessList.Walk
import SecurityDescriptor.Proofs.Buffer
import SecurityDescriptor.Proofs.Canonical
import SecurityDescriptor.Proofs.Comparison
import SecurityDescriptor.Proofs.Damage
import SecurityDescriptor.Proofs.Descriptor.Arrangement
import SecurityDescriptor.Proofs.Descriptor.Grammar
import SecurityDescriptor.Proofs.Descriptor.Layout
import SecurityDescriptor.Proofs.Descriptor.ListRender
import SecurityDescriptor.Proofs.Descriptor.ListSection
import SecurityDescriptor.Proofs.Descriptor.Marks
import SecurityDescriptor.Proofs.Descriptor.Positional
import SecurityDescriptor.Proofs.Descriptor.Reachable
import SecurityDescriptor.Proofs.Descriptor.Run
import SecurityDescriptor.Proofs.Descriptor.Scanning
import SecurityDescriptor.Proofs.Descriptor.Section
import SecurityDescriptor.Proofs.Descriptor.Synthetic
import SecurityDescriptor.Proofs.Descriptor.Text
import SecurityDescriptor.Proofs.Descriptor.Writing
import SecurityDescriptor.Proofs.Entry.Damage
import SecurityDescriptor.Proofs.Entry.InPlace
import SecurityDescriptor.Proofs.Entry.Layout
import SecurityDescriptor.Proofs.Entry.Mask
import SecurityDescriptor.Proofs.Entry.Positional
import SecurityDescriptor.Proofs.Entry.Reachable
import SecurityDescriptor.Proofs.Entry.Scanning
import SecurityDescriptor.Proofs.Entry.Spelling
import SecurityDescriptor.Proofs.Entry.Text
import SecurityDescriptor.Proofs.Guid.Layout
import SecurityDescriptor.Proofs.Guid.Order
import SecurityDescriptor.Proofs.Guid.Scanning
import SecurityDescriptor.Proofs.Locality
import SecurityDescriptor.Proofs.Outcome
import SecurityDescriptor.Proofs.Refusal
import SecurityDescriptor.Proofs.RoundTrip
import SecurityDescriptor.Proofs.Sid.Binary
import SecurityDescriptor.Proofs.Sid.Grammar
import SecurityDescriptor.Proofs.Sid.Misfit
import SecurityDescriptor.Proofs.Sid.Order
import SecurityDescriptor.Proofs.Sid.Positional
import SecurityDescriptor.Proofs.Sid.Scanning
import SecurityDescriptor.Proofs.Sid.Text
import SecurityDescriptor.Proofs.Sid.WellKnown
import SecurityDescriptor.Proofs.Text.Guid
import SecurityDescriptor.Proofs.Text.HexPairs
import SecurityDescriptor.Proofs.Text.Numeral
import SecurityDescriptor.Proofs.Text.Plain
import SecurityDescriptor.Proofs.Text.Segmentation
import SecurityDescriptor.Proofs.Text.Slice
import SecurityDescriptor.Proofs.Text.Token
import SecurityDescriptor.Proofs.Truncation
import SecurityDescriptor.Proofs.Writable
import SecurityDescriptor.Proofs.Writing
import SecurityDescriptor.Scanning
import SecurityDescriptor.Sid.Abbreviation
import SecurityDescriptor.Sid.Basic
import SecurityDescriptor.Sid.Binary
import SecurityDescriptor.Sid.Text
import SecurityDescriptor.Sid.WellKnown
import SecurityDescriptor.Text.HexPairs
import SecurityDescriptor.Text.Numeral
import SecurityDescriptor.Text.Slice
import SecurityDescriptor.Text.Token
import SecurityDescriptor.Text.Width
import SecurityDescriptor.Writing
