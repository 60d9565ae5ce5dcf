import Prova.Lib.Bytes
import Prova.Lib.Vlq
import Prova.Lib.Bitmap
import Prova.Lib.WriteBuffer
import Prova.Lib.Checked
import Prova.Lib.StateRun
import Prova.Lib.LastWrite
import Prova.Lib.Prefixes
import Prova.Lib.Ledger
import Prova.Lib.Sums
import Prova.Lib.PowMod
import Prova.Lib.Radix
import Prova.Lib.Resume
import Prova.Lib.MapOrder
import Prova.Lib.AssocFold
import Prova.Lib.Overlay
import Prova.Btcec.PubKey
import Prova.Btcec.PubKeySet
import Prova.Lib.CubicCurve
import Prova.Lib.CurveOrder
import Prova.Btcec.Curve
import Prova.Btcec.Secp256k1
import Prova.Btcec.ScalarMult
import Prova.Btcec.Signature
import Prova.Chainhash
import Prova.Wire.MsgTx
import Prova.Wire.Common
import Prova.Wire.MsgFilterLoad
import Prova.Txscript.Opcode
import Prova.Txscript.Script
import Prova.Txscript.SigHash
import Prova.Txscript.HashCache
import Prova.Provautil.Address
import Prova.Txscript.Standard
import Prova.Provautil.Bloom
import Prova.Txscript.Engine
import Prova.Txscript.Handlers
import Prova.Txscript.Execute
import Prova.Txscript.Steps
import Prova.Lib.SharedOps
import Prova.Txscript.SigCache
import Prova.Txscript.SigEncoding
import Prova.Txscript.ProvaScripts
import Prova.Provautil.AddressText
import Prova.Blockchain.Merkle
import Prova.Provautil.MerkleBlock
import Prova.Txscript.PushRun
import Prova.Txscript.SafeMultiSig
import Prova.Txscript.Unlock
import Prova.Wire.MsgBlock
import Prova.Wire.BlockHeader
import Prova.Lib.Reader
import Prova.Lib.Merkle
import Prova.Wire.ReadTx
import Prova.Wire.TxCodec
import Prova.Wire.ReadBlock
import Prova.Chaincfg.Params
import Prova.Chaincfg.RegTest
import Prova.Chaincfg.SampleBlocks
import Prova.Blockchain.Error
import Prova.Blockchain.UtxoViewpoint
import Prova.Blockchain.Coins
import Prova.Blockchain.UtxoLedger
import Prova.Blockchain.KeyViewpoint
import Prova.Blockchain.BlockNode
import Prova.Blockchain.TxRules
import Prova.Blockchain.ScriptVal
import Prova.Blockchain.Validate
import Prova.Blockchain.Chain
import Prova.Blockchain.AdminOps
import Prova.Blockchain.KeyUndo
import Prova.Blockchain.ChainSteps
import Prova.Blockchain.ConnectLedger
import Prova.Blockchain.InputChecks
import Prova.Blockchain.ThreadScripts
import Prova.Blockchain.Values
import Prova.Blockchain.Run
import Prova.Blockchain.LedgerSteps
import Prova.Blockchain.Threads
import Prova.Blockchain.Supply
import Prova.Blockchain.MainChain
import Prova.Blockchain.Reorganize
import Prova.Blockchain.KeySets
import Prova.Blockchain.AdminState
import Prova.Blockchain.AcceptRun
import Prova.Blockchain.ThreadSpend
import Prova.Blockchain.Validators
import Prova.Blockchain.Activation
import Prova.Blockchain.KeyIDs
import Prova.Blockchain.ConnectView
import Prova.Blockchain.RestoredEntry
import Prova.Blockchain.UtxoUndo
import Prova.Blockchain.FastAdd
import Prova.Blockchain.SpendHistory
import Prova.Blockchain.Compress
import Prova.Blockchain.UtxoCodec
import Prova.Blockchain.Checkpoints
import Prova.Blockchain.MedianTime
import Prova.Blockchain.KeySetCodec
import Prova.Blockchain.KeySetRun
import Prova.Blockchain.OrphanPool
import Prova.Blockchain.RateLimit
import Prova.Indexers.Manager
import Prova.Indexers.TxIndex
import Prova.Indexers.AddrLevels
import Prova.Indexers.AddrFetch
import Prova.Blockchain.ChainView
import Prova.Mining.Policy
import Prova.Mempool.Policy
import Prova.Mempool.ThreadRules
import Prova.Mempool.TxPool
import Prova.Mempool.Accept
import Prova.Mempool.Changes
import Prova.Mempool.Outpoints
import Prova.Mempool.Removal
import Prova.Mempool.Orphans
import Prova.BlockManager
import Prova.Database.Basic
import Prova.Database.Ffldb.DbCache
import Prova.Database.Ffldb.Transaction
import Prova.Database.Ffldb.Interleaving
import Prova.Lib.Files
import Prova.Database.Ffldb.BlockStore
import Prova.Database.Ffldb.LiveBlocks
import Prova.Txscript.AdminOps
import Prova.Txscript.GeneralProva
import Prova.Btcec.Field
import Prova.Wire.SignHeader
import Prova.Blockchain.Difficulty
import Prova.Provautil.Hdkeychain
