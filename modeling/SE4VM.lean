import SE4VM.Foundation.Run
import SE4VM.Foundation.Memory
import SE4VM.Foundation.Ring
import SE4VM.Foundation.Carry
import SE4VM.Foundation.Dict
import SE4VM.Foundation.Shell
import SE4VM.Foundation.Extent
import SE4VM.Foundation.Overlay
import SE4VM.Foundation.Copies
import SE4VM.Foundation.Segment
import SE4VM.Foundation.Stream
import SE4VM.Foundation.Relocate
import SE4VM.Foundation.ZeroByte
import SE4VM.Foundation.Behaviour
import SE4VM.E1000.Registers
import SE4VM.E1000.State
import SE4VM.E1000.Interrupt
import SE4VM.E1000.Descriptor
import SE4VM.E1000.Iov
import SE4VM.E1000.Receive
import SE4VM.E1000.Transmit
import SE4VM.E1000.Disguise
import SE4VM.E1000.Device
import SE4VM.E1000.Eeprom
import SE4VM.E1000.EecdBehaviour
import SE4VM.E1000.Frame
import SE4VM.E1000.Link
import SE4VM.E1000.SegmentCalls
import SE4VM.E1000.WakeUp
import SE4VM.E1000.Reach
import SE4VM.E1000.ReceiveFilter
import SE4VM.E1000.PhyState
import SE4VM.E1000.ResetTwins
import SE4VM.E1000.ResetHistory
import SE4VM.E1000.InterruptState
import SE4VM.E1000.InterruptMonitor
import SE4VM.E1000.TransmitRing
import SE4VM.E1000.RegisterRange
import SE4VM.E1000.Mitigation
import SE4VM.E1000.TransmitOrder
import SE4VM.E1000.Segmentation
import SE4VM.E1000.TsoAssembly
import SE4VM.E1000.TsoPacket
import SE4VM.E1000.TsoHeader
import SE4VM.E1000.Checksum
import SE4VM.E1000.Packet
import SE4VM.E1000.Counters
import SE4VM.E1000.ReceiveInput
import SE4VM.E1000.TxBuffers
import SE4VM.E1000.Beyond
import SE4VM.E1000.IndexSafety
import SE4VM.E1000.PacketIsolation
import SE4VM.E1000.PlainTransmit
import SE4VM.E1000.ReceiveWalk
import SE4VM.E1000.Fragmentation
import SE4VM.E1000.ReceiveRing
import SE4VM.E1000.ReceiveOwnership
import SE4VM.E1000.Capacity
import SE4VM.E1000.ReceiveScatter
import SE4VM.E1000.ReceiveStored
import SE4VM.E1000.VlanLoopback
import SE4VM.E1000.Observation
import SE4VM.E1000.Migration
import SE4VM.E1000.LinkMigration
import SE4VM.Disc.VMState
import SE4VM.Disc.LoadState
import SE4VM.Disc.Idempotent
import SE4VM.Disc.SaveState
import SE4VM.Disc.Handlers
import SE4VM.Disc.PointerFields
import SE4VM.Disc.Registry
import SE4VM.Disc.FlipBounds
import SE4VM.Savevm.PutFile
import SE4VM.Savevm.GetFile
import SE4VM.Savevm.Info
import SE4VM.Savevm.VMState
import SE4VM.Savevm.RoundTrip
import SE4VM.Savevm.Confinement
import SE4VM.Savevm.Registry
import SE4VM.Savevm.Sections
import SE4VM.Savevm.Untrusted
import SE4VM.Savevm.Live
import SE4VM.Savevm.Flip
import SE4VM.Ram.Xbzrle
import SE4VM.Ram.Records
import SE4VM.Ram.Load
import SE4VM.Ram.PageCache
import SE4VM.Ram.DirtyBitmap
import SE4VM.Ram.SaveBlock
import SE4VM.Net.Queue
import SE4VM.Net.QueueOrder
import SE4VM.Net.QueueConservation
import SE4VM.Scripts.SEDiff
import SE4VM.Scripts.PathReport
import SE4VM.Scripts.Replay
