import CoinPurse.Allocator
import CoinPurse.Bytes.Hex
import CoinPurse.Bytes.Number
import CoinPurse.Bytes.Path
import CoinPurse.Candidate
import CoinPurse.CommandLine.Arguments
import CoinPurse.CommandLine.Session
import CoinPurse.Config
import CoinPurse.Config.File
import CoinPurse.Decimal.FloatText
import CoinPurse.Decimal.Shortest
import CoinPurse.Disk.Basic
import CoinPurse.Disk.Tree
import CoinPurse.Disk.Tree.Lemmas
import CoinPurse.Distribution
import CoinPurse.Draft
import CoinPurse.Draws
import CoinPurse.Entropy
import CoinPurse.FeeModel
import CoinPurse.Funding
import CoinPurse.Generation
import CoinPurse.Generation.Journal
import CoinPurse.Journal
import CoinPurse.Json.Basic
import CoinPurse.Json.Reader
import CoinPurse.Json.Record
import CoinPurse.Json.Writer
import CoinPurse.Main
import CoinPurse.Plan
import CoinPurse.Pool
import CoinPurse.Pool.History
import CoinPurse.Size
import CoinPurse.Store.Address
import CoinPurse.Store.Basic
import CoinPurse.Store.Cell
import CoinPurse.Store.Edit
import CoinPurse.Store.Fault
import CoinPurse.Store.File
import CoinPurse.Store.History
import CoinPurse.Store.Record
import CoinPurse.Store.Snapshot
import CoinPurse.Tally
import CoinPurse.Terms
import CoinPurse.Total
import CoinPurse.Transaction
import CoinPurse.Txid
import CoinPurse.Wallet
import CoinPurse.Wire.Config
import CoinPurse.Wire.Plan
import CoinPurse.Wire.Terms
import CoinPurse.Wire.Wallet
import CoinPurse.Word
import CoinPurse.Proofs.Balance
import CoinPurse.Proofs.Turns
import CoinPurse.Proofs.Conservation
import CoinPurse.Proofs.Discipline
import CoinPurse.Proofs.Selection
import CoinPurse.Proofs.Pool
import CoinPurse.Proofs.Floor
import CoinPurse.Proofs.Margin
import CoinPurse.Proofs.Request
import CoinPurse.Proofs.Split
import CoinPurse.Proofs.Shortage
import CoinPurse.Proofs.Store.Effect
import CoinPurse.Proofs.Store.Regular
import CoinPurse.Proofs.Store.Soundness
import CoinPurse.Proofs.Store.Lasting
import CoinPurse.Proofs.Sufficiency
import CoinPurse.Proofs.NetCount
import CoinPurse.Proofs.Accord
import CoinPurse.Proofs.Store.Written
import CoinPurse.Proofs.Store.Refinement
import CoinPurse.Proofs.Backing
import CoinPurse.Proofs.Consistency
import CoinPurse.Proofs.Rounds
import CoinPurse.Proofs.Cap
import CoinPurse.Proofs.Store.Numbered
import CoinPurse.Proofs.Rollback
import CoinPurse.Proofs.Store.Spendable
import CoinPurse.Proofs.Store.Ledger
import CoinPurse.Proofs.Funded
import CoinPurse.Proofs.Custody
import CoinPurse.Proofs.Settlement
import CoinPurse.Proofs.Repetition
import CoinPurse.Proofs.Marks
import CoinPurse.Proofs.Sessions
import CoinPurse.Proofs.Gains
import CoinPurse.Proofs.Chance
import CoinPurse.Proofs.Replay
import CoinPurse.Proofs.Arrangement
import CoinPurse.Proofs.Ceiling
import CoinPurse.Proofs.Fundable
import CoinPurse.Proofs.Opening
import CoinPurse.Proofs.Rival
import CoinPurse.Proofs.Windfall
import CoinPurse.Proofs.Completion
import CoinPurse.Proofs.Handout
import CoinPurse.Proofs.Fewest
import CoinPurse.Proofs.Covering
import CoinPurse.Proofs.ExactFit
import CoinPurse.Proofs.Separation
import CoinPurse.Proofs.Identity
import CoinPurse.Proofs.Store.Readable
import CoinPurse.Proofs.Policy
import CoinPurse.Proofs.Serialization
import CoinPurse.Proofs.Json.Tokens
import CoinPurse.Proofs.Json.Layout
import CoinPurse.Proofs.Wire
import CoinPurse.Proofs.RoundTrip
import CoinPurse.Proofs.Pressure
import CoinPurse.Proofs.Leftover
