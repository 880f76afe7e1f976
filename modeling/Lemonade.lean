import Lemonade.Kernel.Fallible
import Lemonade.Kernel.Checked
import Lemonade.Kernel.Rounding
import Lemonade.Kernel.Doubles
import Lemonade.Kernel.Trace
import Lemonade.Kernel.Table
import Lemonade.Kernel.Splitting
import Lemonade.Kernel.UnorderedPair
import Lemonade.Kernel.ConstantProduct
import Lemonade.Kernel.ProRata
import Lemonade.Kernel.Eras
import Lemonade.Contract.Types
import Lemonade.Contract.Tables
import Lemonade.Contract.Memo
import Lemonade.Contract.AssetText
import Lemonade.Contract.Issue
import Lemonade.Contract.Staking
import Lemonade.Contract.Betting
import Lemonade.Contract.Token
import Lemonade.Contract.Dex
import Lemonade.Contract.Pools
import Lemonade.Contract.Actions
import Lemonade.Contract.Frames
import Lemonade.Safety.StakingLedger
import Lemonade.Safety.StakingRow
import Lemonade.Safety.StakingPeriod
import Lemonade.Safety.Principal
import Lemonade.Safety.Maturity
import Lemonade.Safety.Settlement
import Lemonade.Safety.Backing
import Lemonade.Safety.BettingLedger
import Lemonade.Safety.BettingPot
import Lemonade.Safety.GameLifecycle
import Lemonade.Safety.GameSettlement
import Lemonade.Safety.Deposits
import Lemonade.Safety.PoolUpdates
import Lemonade.Safety.LpLedger
import Lemonade.Safety.SharePrice
import Lemonade.Safety.Solvency
import Lemonade.Safety.Custody
import Lemonade.Safety.PoolRegistry
import Lemonade.Safety.PoolRemoval
import Lemonade.Safety.FeeAccrual
import Lemonade.Safety.Crediting
import Lemonade.Safety.Issuance
import Lemonade.Safety.IssuanceCap
import Lemonade.Safety.Unlocking
import Lemonade.Safety.Timing
import Lemonade.Safety.LemRewards
import Lemonade.Safety.Winnings
import Lemonade.Safety.RewardTime
import Lemonade.Safety.RewardRange
import Lemonade.Safety.PoolRewards
import Lemonade.Safety.Failures
import Lemonade.Safety.MemoFields
import Lemonade.Safety.StakeLimits
import Lemonade.Safety.SwapChecks
import Lemonade.Safety.SwapPaths
import Lemonade.Safety.CheckedArithmetic
import Lemonade.Safety.PairKeys
import Lemonade.Safety.CeilingDivision
import Lemonade.Safety.UserBounds
import Lemonade.Safety.Freezing
import Lemonade.Safety.DecimalNumerals
import Lemonade.Safety.AssetParsing
import Lemonade.Safety.AssetRoundTrip
import Lemonade.Kernel.Exchange
import Lemonade.Contract.NameText
import Lemonade.Kernel.Coalitions
import Lemonade.Safety.Audit
import Lemonade.Safety.Exit
import Lemonade.Safety.Governance
import Lemonade.Safety.GroupTrades
import Lemonade.Safety.MemoOrders
import Lemonade.Safety.ShareRoundTrip
import Lemonade.Safety.SwapSplitting
import Lemonade.Safety.Withdrawals
import Lemonade.Contract.Areas
import Lemonade.Kernel.Commutation
import Lemonade.Safety.BetOrder
import Lemonade.Kernel.Progress
import Lemonade.Safety.ClosedExchange
import Lemonade.Safety.GameClosing
import Lemonade.Safety.OwnPositions
