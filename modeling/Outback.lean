import Outback.Hash
import Outback.Lib.Reach
import Outback.Lib.Scatter
import Outback.Lib.Stride
import Outback.Lib.Partial
import Outback.Lib.Bytes
import Outback.Slot
import Outback.PackedData
import Outback.Trait
import Outback.Ludo.DataPlane
import Outback.Ludo.SeedSearch
import Outback.Ludo.ControlPlane
import Outback.Ludo.BulkLoad
import Outback.Ludo.Locator
import Outback.Ludo.Insert
import Outback.Ludo.InsertAgree
import Outback.Ludo.Placement
import Outback.SlotTable
import Outback.Bench.LoadData
import Outback.Bench.SameIndex
import Outback.Bench.RemoteTable
import Outback.Numa.Store
import Outback.Numa.Registry
import Outback.Numa.Client
import Outback.Numa.Resize
import Outback.Numa.Layout
import Outback.Numa.Shutdown
import Outback.Numa.World
import Outback.Numa.Correctness.StoreInv
import Outback.Numa.Correctness.Steps
import Outback.Numa.Correctness.PutGet
import Outback.Numa.Correctness.PutFrame
import Outback.Numa.Correctness.KeyUnique
import Outback.Numa.Correctness.SearchExact
import Outback.Numa.Correctness.ActsOnFound
import Outback.Numa.Correctness.Attach
import Outback.Numa.Correctness.ResizeSteps
import Outback.Numa.Correctness.ResizePressure
import Outback.Numa.Correctness.ResizeCopy
import Outback.Numa.Correctness.ClientSteps
import Outback.Numa.Correctness.ResizeRace
import Outback.Numa.Correctness.Replay
import Outback.Numa.Correctness.Orchestrator
import Outback.Numa.Correctness.Ownership
import Outback.Numa.Correctness.InsideRegion
import Outback.Numa.Direct
import Outback.Numa.System
import Outback.Numa.Allocators
import Outback.Numa.Correctness.Handlers
import Outback.Numa.Correctness.DirectTable
import Outback.Numa.Correctness.DirectPutGet
import Outback.Numa.Stores
import Outback.Numa.Interleaving
import Outback.Numa.Timed
import Outback.Numa.PutAccess
import Outback.Numa.LaneAccess
import Outback.Numa.Correctness.TickStores
import Outback.Numa.Correctness.Accesses
import Outback.Numa.Correctness.AllocInside
import Outback.Numa.Correctness.LayoutKept
import Outback.Numa.Correctness.Leftovers
import Outback.Numa.Correctness.LanesUnique
import Outback.Numa.Correctness.ZombieGate
import Outback.Numa.Correctness.GraceWindow
import Outback.Numa.Correctness.FailedConnect
import Outback.Numa.Correctness.FailedRemap
import Outback.Numa.Correctness.AttachReadOnly
import Outback.Numa.Correctness.NewBuckets
import Outback.Numa.Correctness.SystemSteps
import Outback.Numa.Correctness.SystemInv
import Outback.Numa.Correctness.TwoAllocators
import Outback.Numa.Correctness.ReplayStore
import Outback.Numa.Correctness.ReplayRemove
import Outback.Numa.Correctness.ReplayExact
import Outback.Numa.Correctness.Signal
import Outback.Numa.Correctness.Acks
import Outback.Numa.Correctness.Liveness
import Outback.Numa.Deferral
import Outback.Numa.Correctness.Deferred
import Outback.Rpc.Message
import Outback.Rpc.Correctness.Framing
import Outback.Rpc.ReplyStation
import Outback.Rpc.Correctness.Delivery
import Outback.Rdma.Server
import Outback.Rdma.Protocol
import Outback.Rdma.Wire
import Outback.Rdma.LoadAccess
import Outback.Rdma.Correctness.LoadsApart
import Outback.Rdma.Correctness.WireAgree
import Outback.Rdma.Correctness.Effects
import Outback.Rdma.Correctness.ServerWf
import Outback.Rdma.Correctness.AckedWrites
import Outback.Rdma.Correctness.GetSound
import Outback.Rdma.Correctness.PlacementInv
import Outback.Rdma.Correctness.PutExit
import Outback.Rdma.Correctness.SeedSync
import Outback.Correctness.Removal
import Outback.Race.Table
import Outback.Race.Correctness.Placement
import Outback.Race.Correctness.RemoteRead
import Outback.Lib.Cells
import Outback.Ludo.KeyMap
import Outback.Ludo.Correctness.Buckets
import Outback.Ludo.Correctness.Members
import Outback.Ludo.Correctness.Search
import Outback.Ludo.Correctness.CuckooPath
import Outback.Ludo.Correctness.Placing
import Outback.Ludo.Correctness.Growth
import Outback.Ludo.Correctness.Calls
import Outback.Ludo.Correctness.Kept
import Outback.Ludo.Correctness.Rebuild
import Outback.Ludo.Correctness.Loading
import Outback.Lib.Forest
import Outback.Lib.TreeSearch
import Outback.Lib.UnionFind
import Outback.Lib.Chains
import Outback.Lib.XorLabels
import Outback.Othello.Common
import Outback.Othello.DisjointSet
import Outback.Othello.ControlPlane
import Outback.Othello.DataPlane
import Outback.Othello.Correctness.Trees
import Outback.Othello.Correctness.Fill
import Outback.Othello.Correctness.Build
import Outback.Othello.Correctness.Update
import Outback.Othello.Correctness.Remove
import Outback.Othello.Correctness.Mirror
import Outback.Othello.Correctness.Calls
import Outback.Othello.Correctness.Exact
import Outback.Ludo.Correctness.Calm
import Outback.Othello.Correctness.LudoTable
import Outback.Correctness.CacheRuns
