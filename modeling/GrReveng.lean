import GrReveng.Library.Blocks
import GrReveng.Library.BitPacking
import GrReveng.Library.BitStuffing
import GrReveng.Library.Numerals
import GrReveng.Library.Reactive
import GrReveng.Library.Replacement
import GrReveng.Library.Scan
import GrReveng.Library.Segments
import GrReveng.Library.ShiftIn
import GrReveng.Library.ShiftRegister
import GrReveng.Library.Templates
import GrReveng.PacketDeframer.Block
import GrReveng.PacketDeframer.Steps
import GrReveng.PacketDeframer.Capture
import GrReveng.PacketDeframer.Runs
import GrReveng.PacketDeframer.Announced
import GrReveng.PacketDeframer.Sync
import GrReveng.PacketDeframer.RoundTrip
import GrReveng.PacketDeframer.Integrity
import GrReveng.PacketDeframer.LengthByte
import GrReveng.PacketDeframer.Masking
import GrReveng.PacketDeframer.Misconfigured
import GrReveng.PacketDeframer.Packing
import GrReveng.PacketDeframer.WholeBytes
import GrReveng.PacketDeframer.Reset
import GrReveng.PacketDeframer.MaxLen
import GrReveng.PacketDeframer.Timestamps
import GrReveng.PatternDump.Block
import GrReveng.PatternDump.Parts
import GrReveng.PatternDump.Scan
import GrReveng.PatternDump.Format
import GrReveng.PatternDump.LineCodes
import GrReveng.PatternDump.Hdlc
import GrReveng.PatternDump.Substitution
import GrReveng.PatternDump.Elapsed
import GrReveng.Migration
import GrReveng.Migration.Logs
import GrReveng.PacketFormatter.Block
import GrReveng.PacketFormatter.Formatting
import GrReveng.PacketFormatter.Containment
import GrReveng.PacketFormatter.ReadBack
import GrReveng.PacketFormatter.Template
import GrReveng.PacketFormatter.Variables
import GrReveng.PacketFormatter.Addresses
import GrReveng.PacketFormatter.Numerals
import GrReveng.Transport
import GrReveng.Library.Frames
import GrReveng.PacketDeframer.Decoder
import GrReveng.Library.Transmissions
import GrReveng.PacketDeframer.Recovery
import GrReveng.Library.Channels
import GrReveng.Library.Representations
import GrReveng.PacketFormatter.Fields
import GrReveng.Library.Logging
import GrReveng.PacketFormatter.Lifecycle
import GrReveng.Receiver
import GrReveng.Library.Pipelines
import GrReveng.PatternDump.Dumps
import GrReveng.PatternDump.Service
import GrReveng.PatternDump.Session
import GrReveng.Library.Bursts
import GrReveng.PatternDump.Bursts
