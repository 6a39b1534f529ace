import Roshi.Lib.Checked
import Roshi.Lib.Run
import Roshi.Lib.Table
import Roshi.Lib.Drip
import Roshi.Lib.SharePool
import Roshi.Lib.Ratchet
import Roshi.Lib.PrefixCode
import Roshi.Lib.PairTree
import Roshi.Lib.Rounding
import Roshi.Lib.Canonical
import Roshi.Lib.Bits
import Roshi.Lib.Record
import Roshi.Lib.Cursor
import Roshi.Lib.Codec
import Roshi.Basic
import Roshi.Math
import Roshi.FlashFee
import Roshi.Conversion
import Roshi.Runtime
import Roshi.Access
import Roshi.Oracle.Config
import Roshi.Oracle.Layout
import Roshi.Oracle.Session
import Roshi.Oracle.Scope
import Roshi.Oracle.Pyth
import Roshi.Action
import Roshi.Ops
import Roshi.Preimage
import Roshi.State.Vault
import Roshi.State.VaultSpec
import Roshi.State.Records
import Roshi.AccessTree
import Roshi.Token
import Roshi.World
import Roshi.Signers
import Roshi.Instructions.Deposit
import Roshi.Oracle.Leg
import Roshi.Instructions.Redeem
import Roshi.Instructions.ProcessWithdrawals
import Roshi.Instructions.AtomicRedeem
import Roshi.Instructions.ReportNav
import Roshi.Instructions.Admin
import Roshi.Instructions.InitializeVault
import Roshi.Instructions.Actions
import Roshi.Instructions.Registrations
import Roshi.Instructions.ProgramConfig
import Roshi.System
import Roshi.Effect
import Roshi.Invariants
import Roshi.Queue
import Roshi.Price
import Roshi.Deposits
import Roshi.Supply
import Roshi.Backing
import Roshi.Batch
import Roshi.PerformanceFee
import Roshi.Fees
import Roshi.Unlock
import Roshi.Reports
import Roshi.Relay.Flags
import Roshi.Relay.Custody
import Roshi.MintExtensions
import Roshi.Relay.Cpi
import Roshi.Relay.Route
import Roshi.Exit
import Roshi.Relay.Manage
import Roshi.Relay.Flash
import Roshi.Relay.FlashRate
import Roshi.Relay.Swap
import Roshi.Relay.SwapValue
import Roshi.Oracle.Switchboard
import Roshi.Oracle.Pinned
import Roshi.Relay.ShareMetadata
import Roshi.Wire.Wincode
import Roshi.Wire.Instruction
import Roshi.Wire.Account
import Roshi.Wire.Records
import Roshi.Relay.FlashTransaction
import Roshi.Writes
import Roshi.Program
import Roshi.Refinement
import Roshi.Wire.Stored
import Roshi.Addresses
import Roshi.MintAuthority
import Roshi.Exclusive
import Roshi.Authority
import Roshi.Gates
import Roshi.Calls
import Roshi.Provenance
import Roshi.Client
