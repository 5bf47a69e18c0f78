import NetStack.Types
import NetStack.Lib.LongestPrefix
import NetStack.Lookup.Entry
import NetStack.Lookup.Simple
import NetStack.Lookup.LeafPushing
import NetStack.Lookup.Agreement
import NetStack.ByteOrder
import NetStack.Lib.Run
import NetStack.Lookup.LongestMatch
import NetStack.Translation.RoundTrip
import NetStack.Lib.Descent
import NetStack.Lib.Distance
import NetStack.Lib.Reassembly
import NetStack.Lib.Tiling
import NetStack.Mospf.Dijkstra
import NetStack.Mospf.Flooding
import NetStack.Mospf.Forwarding
import NetStack.SpanningTree.Agreement
import NetStack.Tcp.Acking
import NetStack.Tcp.ClientSide
import NetStack.Tcp.Completeness
import NetStack.Tcp.Delivery
import NetStack.Tcp.Position
import NetStack.Tcp.SendBuffer
import NetStack.Lib.LinkedList
import NetStack.Tcp.AckState
import NetStack.Tcp.Bookkeeping
import NetStack.Tcp.Counting
import NetStack.Tcp.Listener
import NetStack.Tcp.ReadWait
import NetStack.Tcp.Transitions
import NetStack.Translation.Pool
import NetStack.Checksum
import NetStack.Ip
import NetStack.Mospf.Daemon
import NetStack.Tcp.Segment
import NetStack.Tcp.Wire
import NetStack.Arp.Conservation
import NetStack.Lib.Ageing
import NetStack.SpanningTree.Selection
import NetStack.Switching.Ageing
import NetStack.Tcp.Duplicates
import NetStack.Tcp.Gate
import NetStack.Tcp.Parents
import NetStack.Tcp.Recovery
import NetStack.Tcp.RecvWindow
import NetStack.Tcp.SendWindow
import NetStack.Tcp.AcceptQueue
import NetStack.Tcp.Ports
import NetStack.Tcp.RetransTimers
import NetStack.Tcp.Timewait
import NetStack.Tcp.InFrame
import NetStack.Tcp.Connecting
import NetStack.Mospf.LsuBounds
import NetStack.Mospf.RouteTable
import NetStack.Lib.Fallible
import NetStack.Mospf.LsuOrder
import NetStack.SpanningTree.Consistency
import NetStack.SpanningTree.Received
import NetStack.Arp.Learning
import NetStack.Translation.Stability
import NetStack.Translation.Finish
import NetStack.Translation.ConfigFile
import NetStack.Arp.Retries
import NetStack.InternetChecksum
import NetStack.Tcp.PseudoHeader
import NetStack.RoutingTable
import NetStack.Icmp.Reply
import NetStack.Icmp.Bounds
import NetStack.Transfer.Write
import NetStack.Transfer.Receive
import NetStack.Tcp.OutOfOrder
import NetStack.ListHead
import NetStack.Switching.Hub
import NetStack.Switching.Storm
import NetStack.SpanningTree.Tree
import NetStack.Arp.Answer
import NetStack.Router.Trace
import NetStack.Mospf.Convergence
import NetStack.Translation.Provenance
import NetStack.Tcp.Synchrony
import NetStack.Tcp.Recoverable
