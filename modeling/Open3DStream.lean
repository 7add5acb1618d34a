import Open3DStream.Acceptance
import Open3DStream.Again
import Open3DStream.Angle
import Open3DStream.Async
import Open3DStream.Cached
import Open3DStream.Calc
import Open3DStream.Camera
import Open3DStream.Channel
import Open3DStream.Codec
import Open3DStream.Context
import Open3DStream.Convert
import Open3DStream.Copies
import Open3DStream.Deliver
import Open3DStream.Deltas
import Open3DStream.Described
import Open3DStream.Directory
import Open3DStream.Early
import Open3DStream.Edits
import Open3DStream.Envelope
import Open3DStream.Evaluate
import Open3DStream.Exact
import Open3DStream.Extended
import Open3DStream.Follow
import Open3DStream.Hierarchy
import Open3DStream.Identity
import Open3DStream.Items
import Open3DStream.Keyframe
import Open3DStream.Lib.Address
import Open3DStream.Lib.Buffer
import Open3DStream.Lib.Collector
import Open3DStream.Lib.Heap
import Open3DStream.Lib.Ledger
import Open3DStream.Lib.Lists
import Open3DStream.Lib.Machine
import Open3DStream.Lib.Partial
import Open3DStream.Lib.Path
import Open3DStream.Lib.Presence
import Open3DStream.Lib.Reassembly
import Open3DStream.Lib.Scan
import Open3DStream.Lib.SignedPermutation
import Open3DStream.Lib.Tagged
import Open3DStream.Lib.Words
import Open3DStream.Local
import Open3DStream.Lookup
import Open3DStream.Lossy
import Open3DStream.Math
import Open3DStream.Mirror
import Open3DStream.Mobu.Device
import Open3DStream.Mobu.Items
import Open3DStream.Mobu.Preview
import Open3DStream.Mobu.Traverse
import Open3DStream.Named
import Open3DStream.Narrowed
import Open3DStream.Nng.Contract
import Open3DStream.Nng.Handles
import Open3DStream.Nng.Leaks
import Open3DStream.Nng.Reader
import Open3DStream.Nng.Repeater
import Open3DStream.Outline
import Open3DStream.Overflow
import Open3DStream.Packet
import Open3DStream.Populate
import Open3DStream.Receive
import Open3DStream.Recovery
import Open3DStream.Refresh
import Open3DStream.Repeat
import Open3DStream.Reread
import Open3DStream.Resolve
import Open3DStream.Restate
import Open3DStream.RoundTrip
import Open3DStream.Safety
import Open3DStream.Schema
import Open3DStream.Sections
import Open3DStream.Senders
import Open3DStream.Stopped
import Open3DStream.Stream.Binary
import Open3DStream.Stream.Cursor
import Open3DStream.Stream.ReadBack
import Open3DStream.Stream.Reads
import Open3DStream.Stream.Values
import Open3DStream.Subject
import Open3DStream.SubjectList
import Open3DStream.Tcp.Available
import Open3DStream.Tcp.Delivered
import Open3DStream.Tcp.Framing
import Open3DStream.Tcp.Reads
import Open3DStream.Tcp.Receive
import Open3DStream.Tcp.Resync
import Open3DStream.Tcp.Send
import Open3DStream.Tcp.Server
import Open3DStream.Trace
import Open3DStream.Transform
import Open3DStream.Udp.Bounds
import Open3DStream.Udp.Combiner
import Open3DStream.Udp.Delivery
import Open3DStream.Udp.Fragmenter
import Open3DStream.Udp.Holes
import Open3DStream.Udp.Inert
import Open3DStream.Udp.Link
import Open3DStream.Udp.Mapper
import Open3DStream.Udp.Order
import Open3DStream.Unreal.LiveLink
import Open3DStream.Unreal.Roster
import Open3DStream.Unreal.Server
import Open3DStream.Unreal.Source
import Open3DStream.Unused
import Open3DStream.Validation
import Open3DStream.Withheld
import Open3DStream.World
import Open3DStream.WorldMatrix
