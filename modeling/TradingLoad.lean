import TradingLoad.Cli.Arguments
import TradingLoad.Cli.Log
import TradingLoad.Cli.Run
import TradingLoad.Composite
import TradingLoad.Config.EnvFile
import TradingLoad.Config.File
import TradingLoad.Config.Load
import TradingLoad.Config.Place
import TradingLoad.Config.Setting
import TradingLoad.Config.Settings
import TradingLoad.Config.Variables
import TradingLoad.Config.Wire
import TradingLoad.Exchange.Call
import TradingLoad.Exchange.Credentials
import TradingLoad.Exchange.Scripted
import TradingLoad.Failure
import TradingLoad.Fault
import TradingLoad.Http.Api
import TradingLoad.Http.Cookies
import TradingLoad.Http.Health
import TradingLoad.Http.Message
import TradingLoad.Http.Session
import TradingLoad.Investor.Lifecycle
import TradingLoad.Investor.Polling
import TradingLoad.Investor.State
import TradingLoad.Investor.Task
import TradingLoad.Json.Reader
import TradingLoad.Json.Real
import TradingLoad.Json.Record
import TradingLoad.Json.Token
import TradingLoad.Json.Value
import TradingLoad.Json.Writer
import TradingLoad.Ledger
import TradingLoad.Main
import TradingLoad.Market.Info
import TradingLoad.Market.Order
import TradingLoad.Market.Wire
import TradingLoad.Number.Double
import TradingLoad.Number.Scan
import TradingLoad.Number.Shortest
import TradingLoad.Policy.RandomTrader
import TradingLoad.Policy.Situation
import TradingLoad.Proofs.Concurrent.Accounts
import TradingLoad.Proofs.Concurrent.Cancellations
import TradingLoad.Proofs.Concurrent.Cursor
import TradingLoad.Proofs.Concurrent.Exclusion
import TradingLoad.Proofs.Concurrent.Moves
import TradingLoad.Proofs.Concurrent.Polls
import TradingLoad.Proofs.Concurrent.Serial
import TradingLoad.Proofs.Concurrent.Succession
import TradingLoad.Proofs.Config.Overriding
import TradingLoad.Proofs.Drive.Ending
import TradingLoad.Proofs.Drive.FailStop
import TradingLoad.Proofs.Drive.Pacing
import TradingLoad.Proofs.Drive.Passes
import TradingLoad.Proofs.Drive.Queue
import TradingLoad.Proofs.Drive.Roster
import TradingLoad.Proofs.Drive.Runnable
import TradingLoad.Proofs.Exchange.Desk
import TradingLoad.Proofs.Exchange.Honest
import TradingLoad.Proofs.Exchange.Record
import TradingLoad.Proofs.Http.Endpoints
import TradingLoad.Proofs.Http.LostBodies
import TradingLoad.Proofs.Http.Retirement
import TradingLoad.Proofs.Json.Layout
import TradingLoad.Proofs.Json.Members
import TradingLoad.Proofs.Json.Rereading
import TradingLoad.Proofs.Json.Shape
import TradingLoad.Proofs.Json.Spelling
import TradingLoad.Proofs.Ledger.Counts
import TradingLoad.Proofs.Ledger.Evolution
import TradingLoad.Proofs.Ledger.Exits
import TradingLoad.Proofs.Ledger.History
import TradingLoad.Proofs.Ledger.Merging
import TradingLoad.Proofs.Ledger.Permanence
import TradingLoad.Proofs.Ledger.Relevance
import TradingLoad.Proofs.Ledger.Repetition
import TradingLoad.Proofs.Ledger.Sums
import TradingLoad.Proofs.Ledger.Wealth
import TradingLoad.Proofs.Policy.Cancelling
import TradingLoad.Proofs.Policy.Drift
import TradingLoad.Proofs.Policy.Ladder
import TradingLoad.Proofs.Policy.Prices
import TradingLoad.Proofs.Policy.Quiet
import TradingLoad.Proofs.Policy.Sizing
import TradingLoad.Proofs.Run.Agenda
import TradingLoad.Proofs.Run.Alone
import TradingLoad.Proofs.Run.Course
import TradingLoad.Proofs.Run.Earnings
import TradingLoad.Proofs.Run.Faults
import TradingLoad.Proofs.Run.FirstFailure
import TradingLoad.Proofs.Run.Freshness
import TradingLoad.Proofs.Run.OrderCap
import TradingLoad.Proofs.Run.Pacing
import TradingLoad.Proofs.Run.Refusals
import TradingLoad.Proofs.Run.Reports
import TradingLoad.Proofs.Run.Solvency
import TradingLoad.Proofs.Run.Tasks
import TradingLoad.Proofs.Text.Digits
import TradingLoad.Proofs.Time.Rereading
import TradingLoad.Proofs.Url.Paths
import TradingLoad.Proofs.Url.Relative
import TradingLoad.Proofs.Wire.EmptyLists
import TradingLoad.Proofs.Wire.Layout
import TradingLoad.Proofs.Wire.Rereading
import TradingLoad.Random.ChaCha
import TradingLoad.Random.Uniform
import TradingLoad.Roster
import TradingLoad.Schedule.Concurrent
import TradingLoad.Schedule.Drive
import TradingLoad.Schedule.World
import TradingLoad.Text.Blank
import TradingLoad.Text.Decimal
import TradingLoad.Text.Quoted
import TradingLoad.Text.Unprintable
import TradingLoad.Text.Utf8
import TradingLoad.Time.Rfc3339
import TradingLoad.Time.Timestamp
import TradingLoad.Toml.Document
import TradingLoad.Toml.Scalar
import TradingLoad.Url.Address
import TradingLoad.Url.Basic
import TradingLoad.Url.DomainName
import TradingLoad.Url.Host
import TradingLoad.Url.Percent
import TradingLoad.Url.Punycode
import TradingLoad.Url.Reader
import TradingLoad.Url.Steps
