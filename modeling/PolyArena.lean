import PolyArena.Lib.Rounding
import PolyArena.Lib.SortedDict
import PolyArena.Lib.Table
import PolyArena.Lib.Runs
import PolyArena.Lib.Transactions
import PolyArena.Config
import PolyArena.Models
import PolyArena.Settlement
import PolyArena.Handlers
import PolyArena.Ledger
import PolyArena.Redelivery
import PolyArena.MatchingEngine.Accounting
import PolyArena.MatchingEngine.Liquidity
import PolyArena.MatchingEngine.Feed
import PolyArena.Api.Conservation
import PolyArena.OrderConsumer.Delivery
import PolyArena.OrderConsumer.Remainder
import PolyArena.OrderConsumer.Rejection
import PolyArena.Duplicates
import PolyArena.Confluence
import PolyArena.PartialExits
import PolyArena.MatchingEngine.Protection
import PolyArena.Api.EngineSweep
import PolyArena.MatchingEngine.ClosedPositions
import PolyArena.MatchingEngine.DeadBooks
import PolyArena.OrderConsumer.CandleClose
import PolyArena.OrderConsumer.Settling
import PolyArena.MatchingEngine.Cancellation
import PolyArena.Refunds
import PolyArena.OrderConsumer.Agreement
import PolyArena.Serializability
import PolyArena.BatchIsolation
import PolyArena.WalkPrices
import PolyArena.MatchingEngine.StateChanges
import PolyArena.OrderConsumer.Publication
import PolyArena.OrderConsumer.SessionDispatch
import PolyArena.WsFeedService.OrderbookKeys
import PolyArena.WsFeedService.OneOrder
import PolyArena.Api.Equity
import PolyArena.Api.StreamConsumers
import PolyArena.WsFeedService.Resolution
import PolyArena.WsFeedService.OwnBook
import PolyArena.WsFeedService.TokenIndex
import PolyArena.OrderConsumer.ExitOrder
import PolyArena.WsFeedService.EntryTtl
import PolyArena.WsFeedService.SessionEnd
import PolyArena.Api.Drain
import PolyArena.Replays
import PolyArena.Api.FillOrKill
import PolyArena.Api.FeeBound
import PolyArena.Payout
import PolyArena.OrderConsumer.PriceCaps
import PolyArena.Ceiling
import PolyArena.MatchingEngine.ExitCalls
import PolyArena.MatchingEngine.ExitAccounts
import PolyArena.MatchingEngine.RealExits
import PolyArena.MatchingEngine.Completeness
import PolyArena.OrderbookBroadcaster.SingleFlight
import PolyArena.MatchingEngine.DepthCache
import PolyArena.OrderConsumer.TopOfBook
import PolyArena.OrderbookBroadcaster.FanOut
import PolyArena.OrderbookBroadcaster.Invalidation
import PolyArena.CandleGrid
import PolyArena.WsFeedService.Refresh
import PolyArena.WsFeedService.WholeSessions
import PolyArena.Scripts.SettleStuckOrders
import PolyArena.UserBalance
import PolyArena.WsFeedService.OrderbookDedup
import PolyArena.WsFeedService.Requests
import PolyArena.Continued
import PolyArena.Api.Renames
import PolyArena.Api.BotLifecycle
import PolyArena.Api.StoppedBots
import PolyArena.Api.Isolation
import PolyArena.WsFeedService.MarketFeed
import PolyArena.WsFeedService.Subscriptions
import PolyArena.OrderbookBroadcaster.PolymarketProxy
import PolyArena.Api.Books
import PolyArena.Achievements
import PolyArena.Api.BalanceSnapshots
import PolyArena.Api.Pnl
import PolyArena.Api.Inspect
import PolyArena.Scripts.Maintenance
