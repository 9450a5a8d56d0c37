import DistGame.Lib.GoMap
import DistGame.Lib.Run
import DistGame.Lib.Drops
import DistGame.Lib.QTree
import DistGame.Lib.Clamp
import DistGame.Game.Rectangle
import DistGame.Game.Quarters
import DistGame.Locator.Quadtree
import DistGame.Locator.Placement
import DistGame.Locator.Steps
import DistGame.Locator.Contents
import DistGame.Locator.Growth
import DistGame.Locator.Search
import DistGame.Locator.Lifetime
import DistGame.Locator.Eviction
import DistGame.Locator.Latest
import DistGame.Locator.Pruning
import DistGame.Locator.NormalForm
import DistGame.Locator.Clocks
import DistGame.Lib.Threads
import DistGame.Locator.Mutexes
import DistGame.Locator.Goroutines
import DistGame.Lib.Board
import DistGame.Locator.Invariant
import DistGame.Game.Object
import DistGame.Server.Messages
import DistGame.Server.Colyseus
import DistGame.Server.Handlers
import DistGame.Game.Motion
import DistGame.Game.Commit
import DistGame.Game.Shot
import DistGame.Game.Window
import DistGame.Game.Speed
import DistGame.Locator.Board
import DistGame.Game.Velocity
import DistGame.Server.Interest
import DistGame.Server.Push
import DistGame.Server.Replay
import DistGame.Locator.Service
import DistGame.Server.Publishing
import DistGame.Locator.Rendezvous
import DistGame.Locator.Requests
import DistGame.Locator.Endpoints
import DistGame.Locator.Batch
import DistGame.Lib.Log
import DistGame.Server.Fetch
import DistGame.Server.FetchRuns
import DistGame.Server.Cleanup
import DistGame.Server.Frame
import DistGame.System.Network
import DistGame.System.Reactions
import DistGame.System.Ownership
import DistGame.System.Peers
import DistGame.System.Traffic
import DistGame.System.Kinds
import DistGame.System.Deaths
import DistGame.System.Orphans
import DistGame.System.Arena
import DistGame.System.Fatal
import DistGame.System.Round
import DistGame.Lib.Mutex
import DistGame.Server.Locking
import DistGame.System.Alone
import DistGame.System.Mesh
import DistGame.System.Snapshot
import DistGame.System.Confined
import DistGame.System.Foresight
import DistGame.System.Lag
import DistGame.Locator.Handover
import DistGame.System.Discovery
import DistGame.System.Notified
import DistGame.System.Fetched
import DistGame.System.Holders
import DistGame.System.Once
import DistGame.System.Serialised
