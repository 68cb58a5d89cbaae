import DsrUu.Heap.Ring
import DsrUu.Heap.Table
import DsrUu.Platform
import DsrUu.Tbl
import DsrUu.Graph.Search
import DsrUu.Srt.Model
import DsrUu.LinkCache.Model
import DsrUu.LinkCache.Invariant
import DsrUu.LinkCache.Dijkstra
import DsrUu.LinkCache.Route
import DsrUu.LinkCache.Run
import DsrUu.LinkCache.Sound
import DsrUu.LinkCache.ShortestPath
import DsrUu.LinkCache.Capacity
import DsrUu.Pkt.Bytes
import DsrUu.Pkt.Model
import DsrUu.Pkt.Lemmas
import DsrUu.Pkt.Parse
import DsrUu.Node.State
import DsrUu.Node.Tables
import DsrUu.Node.Send
import DsrUu.Node.Recv
import DsrUu.Srt.Lemmas
import DsrUu.Effect.Wp
import DsrUu.Node.Lemmas
import DsrUu.Maint.Rewrite
import DsrUu.Maint.Salvage
import DsrUu.Node.Quiet
import DsrUu.Maint.Closed
import DsrUu.Node.Closed
import DsrUu.Node.RecvClosed
import DsrUu.Node.Run
import DsrUu.Pkt.Length
import DsrUu.Effect.Trail
import DsrUu.Pkt.Walk
import DsrUu.Pkt.Slots
import DsrUu.Pkt.Options
import DsrUu.Pkt.Encode
import DsrUu.Node.Length
import DsrUu.Node.Handlers
import DsrUu.Node.Walked
import DsrUu.Node.Grammar
import DsrUu.Node.Bounds
import DsrUu.Node.Indices
import DsrUu.Node.Light
import DsrUu.Node.RreqTbl
import DsrUu.Node.RreqWindow
import DsrUu.Node.Discovery
import DsrUu.Node.Cached
import DsrUu.Node.Traversed
import DsrUu.Node.Handed
import DsrUu.Node.Flood
import DsrUu.Pkt.Wire
import DsrUu.Maint.Calls
import DsrUu.Maint.Run
import DsrUu.Maint.Queue
import DsrUu.Maint.Earliest
import DsrUu.Maint.Broken
import DsrUu.Maint.Purge
import DsrUu.Maint.Once
import DsrUu.Node.Aside
import DsrUu.Node.Arrival
import DsrUu.Node.Journey
import DsrUu.Node.RerrSend
import DsrUu.Node.RreqForward
import DsrUu.LinkCache.Forward
import DsrUu.LinkCache.Delete
import DsrUu.LinkCache.Reach
import DsrUu.Node.HdrLen
import DsrUu.Node.RouteMemory
import DsrUu.Queue.Ledger
import DsrUu.Node.SendBuf
import DsrUu.Node.Capacity
import DsrUu.Node.OptCodec
import DsrUu.Node.HwHeader
import DsrUu.Node.Reject
import DsrUu.Node.GratReply
import DsrUu.Maint.Lineage
import DsrUu.Maint.Succeed
import DsrUu.Sim.Size
import DsrUu.Srt.Shortcut
import DsrUu.Graph.Route
import DsrUu.Srt.Algebra
import DsrUu.Srt.Duplicate
import DsrUu.Node.Rto
import DsrUu.LinkCache.Stable
import DsrUu.Node.Durations
import DsrUu.Node.Shortening
import DsrUu.Maint.Atomic
import DsrUu.Node.AckHop
import DsrUu.LinkCache.Prune
import DsrUu.Maint.NextHop
import DsrUu.Maint.Terminates
import DsrUu.Heap.Store
import DsrUu.Heap.Values
import DsrUu.Node.RrepReply
import DsrUu.Node.NetDiscovery
import DsrUu.Effect.Conduct
import DsrUu.Node.LockOrder
import DsrUu.Node.Reentry
import DsrUu.Node.Waiting
import DsrUu.Node.Stranded
import DsrUu.Node.Delivered
import DsrUu.Node.OwnFrames
import DsrUu.Node.IpOptions
