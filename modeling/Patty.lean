import Patty.AckTime
import Patty.Acked
import Patty.Agreement
import Patty.Answers
import Patty.AprsIs
import Patty.AprsIs.Calls
import Patty.AprsIs.Lines
import Patty.AprsIs.Reads
import Patty.AprsIs.RoundTrip
import Patty.AprsIs.Send
import Patty.AprsIs.Stale
import Patty.Atomic
import Patty.Ax25
import Patty.Basic
import Patty.Calls
import Patty.Callsign
import Patty.ClientStream
import Patty.Conf
import Patty.Conf.InPlace
import Patty.Conf.Shell
import Patty.Conf.Words
import Patty.Deeds
import Patty.Deeds.Calls
import Patty.Deeds.Frames
import Patty.Deeds.Socks
import Patty.Delivery
import Patty.Delivery.Arrival
import Patty.Delivery.Ends
import Patty.Delivery.Heard
import Patty.Delivery.Turn
import Patty.Dict.Bucket
import Patty.Dict.Calls
import Patty.Dict.Sound
import Patty.Fits
import Patty.Frame
import Patty.FrameReads
import Patty.Hash
import Patty.Inbox
import Patty.Isolation
import Patty.Kiss.Bounds
import Patty.Kiss.Overlong
import Patty.Kiss.Reader
import Patty.Kiss.Reads
import Patty.Kiss.RoundTrip
import Patty.Kiss.Send
import Patty.Kiss.Stream
import Patty.Lib.Arq
import Patty.Lib.Bits
import Patty.Lib.Bytes
import Patty.Lib.Checked
import Patty.Lib.Chunks
import Patty.Lib.Keyed
import Patty.Lib.Linked
import Patty.Lib.Mix
import Patty.Lib.Pool
import Patty.Lib.Prog
import Patty.Lib.Ring
import Patty.Lib.Run
import Patty.Lib.Walks
import Patty.Link.Frame
import Patty.Link.Side
import Patty.Link.Step
import Patty.Link.Turn
import Patty.Lookup
import Patty.Negotiate
import Patty.Ntop
import Patty.Owners
import Patty.PattyList
import Patty.Place
import Patty.Polled
import Patty.Promisc
import Patty.Queue
import Patty.Receive
import Patty.Registry
import Patty.Registry.Frames
import Patty.Registry.Requests
import Patty.Registry.Run
import Patty.Retransmit
import Patty.Returns
import Patty.Route
import Patty.Route.Config
import Patty.Route.Connect
import Patty.Rules
import Patty.Segment.Effect
import Patty.Segment.Inside
import Patty.Segment.Sound
import Patty.Segment.Write
import Patty.Server.Clients
import Patty.Server.Frames
import Patty.Server.Run
import Patty.Server.Socks
import Patty.Server.Tables
import Patty.Slots
import Patty.Sock
import Patty.SockIO
import Patty.Station
import Patty.Station.Hears
import Patty.Station.Relay
import Patty.Station.Stream
import Patty.Timing
import Patty.Tnc
import Patty.Upkeep.Announce
import Patty.Upkeep.Calls
import Patty.Upkeep.Frames
import Patty.Upkeep.Handle
import Patty.Upkeep.Handshake
import Patty.Upkeep.Outstanding
import Patty.Upkeep.Rules
import Patty.Upkeep.Run
import Patty.Upkeep.Sending
import Patty.Upkeep.Socks
import Patty.Window
import Patty.Wire.Address
import Patty.Wire.Codec
import Patty.Wire.Control
import Patty.Wire.Grammar
import Patty.Wire.Reply
import Patty.Wire.Sequence
import Patty.Wire.Stores
import Patty.Wire.Xid
import Patty.World
import Patty.XidReads
