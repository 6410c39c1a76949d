import CrossFluf.Base.Machine
import CrossFluf.Base.Outcome
import CrossFluf.Base.Run
import CrossFluf.Base.Accrual
import CrossFluf.Base.Proportion
import CrossFluf.Base.Exchange
import CrossFluf.Base.Release
import CrossFluf.Base.FiniteSum
import CrossFluf.Base.Levelling
import CrossFluf.Base.Floating
import CrossFluf.Base.Locality
import CrossFluf.Base.Bytes
import CrossFluf.Base.Codec
import CrossFluf.Solana.Address
import CrossFluf.Solana.Token
import CrossFluf.Solana.TokenLaws
import CrossFluf.Solana.TokenLocks
import CrossFluf.Solana.Anchor
import CrossFluf.Vault.State
import CrossFluf.Vault.Program
import CrossFluf.Vault.Steps
import CrossFluf.Vault.Books
import CrossFluf.Vault.Accounting
import CrossFluf.Vault.ProfitLock
import CrossFluf.Vault.LockCover
import CrossFluf.Vault.Dilution
import CrossFluf.Vault.Custody
import CrossFluf.Vault.Sandwich
import CrossFluf.Vault.Backing
import CrossFluf.Vault.Ownership
import CrossFluf.Vault.ShareLedger
import CrossFluf.Vault.Strategies
import CrossFluf.Vault.Numbering
import CrossFluf.Vault.FeeCaps
import CrossFluf.Vault.Harvest
import CrossFluf.Vault.FeeLedger
import CrossFluf.Vault.Truncation
import CrossFluf.Vault.FeeHarvest
import CrossFluf.Vault.HighWaterMark
import CrossFluf.Vault.ManagementFee
import CrossFluf.Vault.ZeroExchange
import CrossFluf.Vault.Roles
import CrossFluf.Vault.Trading
import CrossFluf.Vault.Exits
import CrossFluf.Vault.Locks
import CrossFluf.Vault.Pausing
import CrossFluf.Fluf.State
import CrossFluf.Fluf.Program
import CrossFluf.Fluf.Steps
import CrossFluf.Fluf.Pools
import CrossFluf.Fluf.Principal
import CrossFluf.Fluf.Deposits
import CrossFluf.Fluf.FlashLoan
import CrossFluf.Fluf.ProtocolFees
import CrossFluf.Fluf.ExactLoan
import CrossFluf.Fluf.Holders
import CrossFluf.Kyc.State
import CrossFluf.Kyc.Program
import CrossFluf.Kyc.Registries
import CrossFluf.Kyc.EntryPoints
import CrossFluf.Kyc.Noninterference
import CrossFluf.Kyc.History
import CrossFluf.Kyc.Counters
import CrossFluf.Kyc.Statuses
import CrossFluf.Gate.Chain
import CrossFluf.Gate.Perimeter
import CrossFluf.Gate.Access
import CrossFluf.Gate.Lockout
import CrossFluf.Bot.Loops
import CrossFluf.Bot.Interleaving
import CrossFluf.Bot.Passes
import CrossFluf.Bot.Numbers
import CrossFluf.Bot.Convergence
import CrossFluf.Bot.Refusals
import CrossFluf.Bot.Fetching
import CrossFluf.Bot.Daemon
import CrossFluf.Bot.Schedules
