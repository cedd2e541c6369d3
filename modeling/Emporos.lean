import Emporos.Async.Pool
import Emporos.Async.Schedule
import Emporos.Common.Decimal
import Emporos.Common.Amounts
import Emporos.Common.Table
import Emporos.Common.LittleEndian
import Emporos.Common.Numeral
import Emporos.Core.Calendar
import Emporos.Core.FloatTime
import Emporos.Domain.Signal
import Emporos.Domain.Candles
import Emporos.Domain.Fees
import Emporos.Marketdata.Minutes
import Emporos.Marketdata.Timeframes
import Emporos.Marketdata.Emissions
import Emporos.Marketdata.Volumes
import Emporos.Broker.Model
import Emporos.Broker.RateLimit
import Emporos.Broker.Frames
import Emporos.Persistence.Records
import Emporos.Persistence.Journal
import Emporos.Persistence.Candles
import Emporos.Persistence.CandleCache
import Emporos.Portfolio.Replay
import Emporos.Portfolio.Fold
import Emporos.Portfolio.Reconciliation
import Emporos.Portfolio.LostRows
import Emporos.Paper.Account
import Emporos.Paper.Exchange
import Emporos.Paper.Broker
import Emporos.Paper.Matching
import Emporos.Paper.Agreement
import Emporos.Paper.Books
import Emporos.Paper.Ledger
import Emporos.Paper.Chronicle
import Emporos.Paper.Alike
import Emporos.Paper.Shelf
import Emporos.Paper.Restart
import Emporos.Paper.Closing
import Emporos.Paper.Policies
import Emporos.Paper.Conduct
import Emporos.Paper.Register
import Emporos.Execution.Calls
import Emporos.Execution.Engine
import Emporos.Execution.Repricing
import Emporos.Persistence.Writes
import Emporos.Execution.Operations
import Emporos.Execution.Traces
import Emporos.Execution.Contract
import Emporos.Execution.Effects
import Emporos.Execution.Safety
import Emporos.Execution.Runs
import Emporos.Execution.Stamps
import Emporos.Execution.Books
import Emporos.Execution.Scripts
import Emporos.Execution.Audit
import Emporos.Execution.Submission
import Emporos.Execution.Absence
import Emporos.Async.Alone
import Emporos.Execution.Alone
import Emporos.Execution.LateFills
import Emporos.Execution.Verdicts
import Emporos.Execution.Replays
import Emporos.Risk.KillSwitch
import Emporos.Risk.Halts
import Emporos.Risk.Rules
import Emporos.Risk.Facts
import Emporos.Risk.Daily
import Emporos.Risk.Worse
import Emporos.Risk.Exposure
import Emporos.Risk.Exits
import Emporos.Backtest.Portfolio
import Emporos.Backtest.FillModel
import Emporos.Backtest.Orders
import Emporos.Backtest.Broker
import Emporos.Backtest.Turns
import Emporos.Backtest.Vault
import Emporos.Backtest.Feed
import Emporos.Backtest.Book
import Emporos.Backtest.Effects
import Emporos.Backtest.Conservative
import Emporos.Backtest.RiskGate
import Emporos.Session.Tripwire
import Emporos.Session.Unknown
import Emporos.Session.Worker
import Emporos.Session.Lifecycle
import Emporos.Control.Processor
import Emporos.Control.Attempts
import Emporos.Control.Expiry
import Emporos.Control.Hanging
import Emporos.Persistence.Overlap
import Emporos.Persistence.Interrupted
import Emporos.Opportunity.Models
import Emporos.Opportunity.Allocator
import Emporos.Opportunity.Caps
import Emporos.Opportunity.Scanner
import Emporos.Opportunity.Pipeline
import Emporos.Opportunity.Exits
import Emporos.Backtest.RoundTrips
import Emporos.Parity.Outcomes
import Emporos.Parity.Attribution
import Emporos.Common.Eras
import Emporos.Instruments.Master
import Emporos.Instruments.Store
import Emporos.Instruments.History
import Emporos.Graduation.Gates
import Emporos.Common.Spans
import Emporos.Marketdata.Batches
import Emporos.Marketdata.Recovery
import Emporos.History.Checkpoints
import Emporos.History.Absence
import Emporos.Common.HalfUp
import Emporos.Domain.PerOrder
import Emporos.Execution.Requests
import Emporos.Execution.Bands
import Emporos.Session.Replacement
import Emporos.Risk.Flips
import Emporos.Risk.Footer
import Emporos.Marketdata.Persister
import Emporos.Session.SignalPath
import Emporos.Session.SquareOff
import Emporos.Research.Series
import Emporos.Research.Costs
import Emporos.Research.Simulator
import Emporos.Research.Accounts
import Emporos.Research.Foresight
import Emporos.EventTrader.Rules
import Emporos.EventTrader.Fills
import Emporos.EventTrader.Exits
import Emporos.EventTrader.Replay
import Emporos.EventTrader.OpenBook
import Emporos.Strategies.Config
import Emporos.Session.RepriceBounds
import Emporos.Common.Pairing
import Emporos.Common.Pacing
import Emporos.Parity.Matcher
import Emporos.Core.Hashing
import Emporos.Backtest.Drawdown
import Emporos.Common.Draining
import Emporos.Backtest.Flow
import Emporos.Strategies.History
import Emporos.Backtest.Session
import Emporos.Backtest.Overnight
import Emporos.Backtest.Hindsight
import Emporos.Backtest.Curve
import Emporos.Broker.Endpoints
import Emporos.Broker.Classification
import Emporos.Broker.Transport
import Emporos.Broker.AtMostOnce
import Emporos.Broker.SingleFlight
import Emporos.Common.Reserves
import Emporos.EventTrader.Llm
import Emporos.EventTrader.Ceilings
import Emporos.EventTrader.Recordings
import Emporos.Marketdata.Desired
import Emporos.Options.Ledger
import Emporos.Options.NoLookahead
import Emporos.Options.Limits
import Emporos.Common.Since
import Emporos.Marketdata.Staleness
import Emporos.Marketdata.StalenessReports
import Emporos.Session.FeedDropped
