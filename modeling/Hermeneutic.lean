import Hermeneutic.ForMathlib.Machine
import Hermeneutic.ForMathlib.ListTraversal
import Hermeneutic.ForMathlib.RoundHalfAway
import Hermeneutic.ForMathlib.DecimalNumeral
import Hermeneutic.ForMathlib.Json
import Hermeneutic.ForMathlib.JsonText
import Hermeneutic.ForMathlib.AveragePrice
import Hermeneutic.Core.Rounding
import Hermeneutic.Core.FixedPoint
import Hermeneutic.Core.Notional
import Hermeneutic.Core.NotionalRoundTrip
import Hermeneutic.Core.WideArithmetic
import Hermeneutic.Core.DecimalString
import Hermeneutic.Core.DecimalRange
import Hermeneutic.Symbol.Symbol
import Hermeneutic.Symbol.BookId
import Hermeneutic.Symbol.NativeSymbol
import Hermeneutic.Book.L2OrderBook
import Hermeneutic.Book.AggregateOrderBook
import Hermeneutic.Book.BookCall
import Hermeneutic.Book.VenueReplay
import Hermeneutic.Book.AggregateSum
import Hermeneutic.Book.AggregateNarrowing
import Hermeneutic.Book.SnapshotRebuild
import Hermeneutic.Book.FailingSink
import Hermeneutic.Book.SymbolSync
import Hermeneutic.Book.ActionStream
import Hermeneutic.Book.ResyncSoundness
import Hermeneutic.Book.LevelTotals
import Hermeneutic.Book.PriceBands
import Hermeneutic.Book.BandBoundary
import Hermeneutic.Book.PriceBandDepth
import Hermeneutic.Book.VolumeBands
import Hermeneutic.Book.VolumeBandWalk
import Hermeneutic.Book.VolumeBandCalls
import Hermeneutic.Book.VolumeBandPrices
import Hermeneutic.Book.VwapBounds
import Hermeneutic.Book.BandNarrowing
import Hermeneutic.Exchange.SequencePolicies
import Hermeneutic.Book.BufferedReplay
import Hermeneutic.Exchange.History
import Hermeneutic.Exchange.RestResync
import Hermeneutic.Exchange.PushedResync
import Hermeneutic.Exchange.GapFree
import Hermeneutic.Exchange.Wiring
import Hermeneutic.Ingestion.Driver
import Hermeneutic.Ingestion.Contribution
import Hermeneutic.Ingestion.VenueSession
import Hermeneutic.Ingestion.SessionMoves
import Hermeneutic.Ingestion.SessionInvariant
import Hermeneutic.Ingestion.Progress
import Hermeneutic.Ingestion.Requests
import Hermeneutic.Ingestion.Shutdown
import Hermeneutic.Ingestion.IngestionRunner
import Hermeneutic.Ingestion.BookSubscription
import Hermeneutic.Ingestion.IdleTimeouts
import Hermeneutic.Ingestion.SymbolRouting
import Hermeneutic.Ingestion.SessionTruth
import Hermeneutic.Ingestion.FeedWire
import Hermeneutic.Ingestion.Feeds
import Hermeneutic.Ingestion.FeedMessages
import Hermeneutic.Ingestion.SubscribeMessages
import Hermeneutic.Ingestion.WiredSession
import Hermeneutic.Ingestion.Backoff
import Hermeneutic.Aggregator.SubscriberQueue
import Hermeneutic.Aggregator.BootstrapBurst
import Hermeneutic.Aggregator.SymbolBook
import Hermeneutic.Aggregator.ClientBook
import Hermeneutic.Aggregator.Publication
import Hermeneutic.Aggregator.ExactDiff
import Hermeneutic.Aggregator.L2Stream
import Hermeneutic.Aggregator.BboStream
import Hermeneutic.Aggregator.BboSequence
import Hermeneutic.Aggregator.Isolation
import Hermeneutic.Aggregator.Pipeline
import Hermeneutic.Aggregator.Publisher
import Hermeneutic.Aggregator.CallStatus
import Hermeneutic.Aggregator.AggregatorService
import Hermeneutic.Aggregator.ServerStartup
import Hermeneutic.Aggregator.StreamCanceller
import Hermeneutic.Aggregator.CancelledCalls
import Hermeneutic.Aggregator.ShutdownWatcher
import Hermeneutic.Aggregator.BandConfig
import Hermeneutic.Aggregator.BandFlags
import Hermeneutic.Aggregator.BandLabels
import Hermeneutic.Aggregator.ClientStartup
