import MarketSandbox.Library.Transition
import MarketSandbox.Exchange.Entity
import MarketSandbox.Exchange.OrderBook
import MarketSandbox.Library.GreedyFill
import MarketSandbox.Exchange.Invariant
import MarketSandbox.Exchange.Ledger
import MarketSandbox.Exchange.Priority
import MarketSandbox.Exchange.Service
import MarketSandbox.Exchange.Cancellation
import MarketSandbox.Exchange.MarketData
import MarketSandbox.Exchange.Subscriber
import MarketSandbox.Exchange.Mirror
import MarketSandbox.Exchange.Limits
import MarketSandbox.Exchange.Feeds
import MarketSandbox.Exchange.LevelSums
import MarketSandbox.Exchange.Worker
import MarketSandbox.Exchange.Framing
import MarketSandbox.Exchange.TelemetryStream
import MarketSandbox.Gateway.Tracking
import MarketSandbox.Gateway.Direction
import MarketSandbox.Gateway.Gaps
import MarketSandbox.Gateway.Restarts
import MarketSandbox.Queue.Emptiness
import MarketSandbox.Queue.Quiescence
import MarketSandbox.Queue.SingleProducer
import MarketSandbox.Web.Browser
import MarketSandbox.Web.Timeline
import MarketSandbox.Web.CurrentBook
import MarketSandbox.Web.Chart
import MarketSandbox.Web.Playback
import MarketSandbox.Web.Stepping
import MarketSandbox.Web.Stats
import MarketSandbox.Web.Positions
import MarketSandbox.Web.OpenOrders
import MarketSandbox.Queue.Wraparound
import MarketSandbox.Queue.Waiting
import MarketSandbox.Queue.Chain
import MarketSandbox.Queue.Garbage
import MarketSandbox.Queue.Reclamation
import MarketSandbox.Queue.Progress
import MarketSandbox.Queue.Destruction
import MarketSandbox.Nodes.Quoting
import MarketSandbox.Library.Linearization
import MarketSandbox.Exchange.Handlers
import MarketSandbox.Web.OrderEntry
import MarketSandbox.Web.Recording
import MarketSandbox.Exchange.FeedShutdown
import MarketSandbox.Exchange.QueuePosition
import MarketSandbox.Web.Relay
