import Tickwright.Engine.FillAccounting
import Tickwright.Engine.Recovery
import Tickwright.Engine.Placement
import Tickwright.Feed.Replay
import Tickwright.Hyperliquid.Ingress
import Tickwright.Hyperliquid.Preflight
import Tickwright.Hyperliquid.FundingIngest
import Tickwright.Hyperliquid.Oids
import Tickwright.Hyperliquid.Wire
import Tickwright.Hyperliquid.Cancels
import Tickwright.Engine.FlattenRun
import Tickwright.Engine.NetCash
import Tickwright.Engine.Leftover
import Tickwright.Engine.FundingOnce
import Tickwright.Engine.SignalIds
import Tickwright.Engine.PositionCap
import Tickwright.Engine.VenueFirst
import Tickwright.Engine.OneClose
import Tickwright.Paper.Funding
import Tickwright.Paper.NetOnce
import Tickwright.Paper.ReduceOnly
import Tickwright.Paper.ReduceOnlyRun
import Tickwright.Paper.Ghosts
import Tickwright.Paper.Uncrossed
import Tickwright.Engine.GhostGate
import Tickwright.Engine.RateCap
import Tickwright.Engine.KillSwitch
import Tickwright.Engine.Teardown
import Tickwright.Engine.BarrierPace
import Tickwright.Domain.OrderCalls
import Tickwright.Domain.Texts
import Tickwright.Domain.PriceGrid
import Tickwright.Engine.FillOrder
import Tickwright.Domain.Valuation
import Tickwright.Engine.BucketPosts
import Tickwright.Engine.WakeSlots
import Tickwright.Engine.StrategyHost
import Tickwright.Engine.HostLives
import Tickwright.Engine.Remembers
import Tickwright.Engine.SnapshotFirst
import Tickwright.Strategies.SingleShot
import Tickwright.Bus.Commits
import Tickwright.Bus.Parity
import Tickwright.Engine.Shares
import Tickwright.Engine.ExitRun
