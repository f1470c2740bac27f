import UltraNoteCore.Basic.CryptoNote
import UltraNoteCore.Basic.FormatUtils
import UltraNoteCore.Basic.Math
import UltraNoteCore.Core.Currency
import UltraNoteCore.Prelude.RunningSum
import UltraNoteCore.Prelude.Containers
import UltraNoteCore.Prelude.ByteFile
import UltraNoteCore.Prelude.StateExcept
import UltraNoteCore.Core.DepositIndex
import UltraNoteCore.Core.TransactionPool
import UltraNoteCore.Core.Checkpoints
import UltraNoteCore.Core.UpgradeDetector
import UltraNoteCore.Core.Difficulty
import UltraNoteCore.Core.Blockchain.State
import UltraNoteCore.Core.Blockchain.Validation
import UltraNoteCore.Core.Blockchain.Chain
import UltraNoteCore.Core.Blockchain.Alternative
import UltraNoteCore.Core.Node
import UltraNoteCore.Core.Blockchain.Consistency
import UltraNoteCore.Core.Blockchain.Reorganisation
import UltraNoteCore.Core.Blockchain.Restart
import UltraNoteCore.Prelude.Digits
import UltraNoteCore.Prelude.LEB128
import UltraNoteCore.Basic.Bytes
import UltraNoteCore.Common.Varint
import UltraNoteCore.Common.Base58
import UltraNoteCore.Prelude.Codec
import UltraNoteCore.Common.StreamTools
import UltraNoteCore.Serialization.Binary
import UltraNoteCore.Serialization.KVBinary
import UltraNoteCore.Core.Serialization
import UltraNoteCore.Core.SwappedVector
import UltraNoteCore.Core.Blockchain.BlockStore
import UltraNoteCore.Core.BasicImpl
import UltraNoteCore.Core.CurrencyBounds
import UltraNoteCore.Core.TransactionExtra
import UltraNoteCore.Core.Transaction
import UltraNoteCore.Transfers.TransfersConsumer
import UltraNoteCore.Common.JsonValue
import UltraNoteCore.Basic.DecomposeAmount
import UltraNoteCore.Transfers.TransfersContainer
import UltraNoteCore.Transfers.UnlockJobs
import UltraNoteCore.Wallet.WalletGreen
import UltraNoteCore.Wallet.TransactionTransfers
import UltraNoteCore.Common.ShuffleGenerator
import UltraNoteCore.Core.MinerTx
import UltraNoteCore.Prelude.GreedyMatch
import UltraNoteCore.Wallet.WalletTransfers
import UltraNoteCore.Core.BlockTemplate
import UltraNoteCore.Wallet.MakeTransaction
import UltraNoteCore.Core.Fusion
import UltraNoteCore.Wallet.Fusion
import UltraNoteCore.Core.AmountText
import UltraNoteCore.P2p.PeerListManager
import UltraNoteCore.Wallet.FusionCache
import UltraNoteCore.Serialization.JsonInputValue
