import LuxEvm.Lib.ByteString
import LuxEvm.Lib.StateRel
import LuxEvm.FeeWindow
import LuxEvm.HeaderExtra
import LuxEvm.Common
import LuxEvm.CommonType
import LuxEvm.Precompile.Contract
import LuxEvm.Precompile.AllowList
import LuxEvm.Precompile.FeeManager
import LuxEvm.Precompile.NativeMinter
import LuxEvm.Precompile.RewardManager
import LuxEvm.Precompile.RoleInvariant
import LuxEvm.Predicate
import LuxEvm.Warp.Message
import LuxEvm.Warp.Handler
import LuxEvm.Warp.Config
import LuxEvm.Warp.Quorum
import LuxEvm.Sync.LeafSyncer
import LuxEvm.Parallel.BlockSTM
import LuxEvm.Core.BlockChain
import LuxEvm.Core.CanonicalChain
import LuxEvm.Lib.VersionDB
import LuxEvm.Plugin.DexAtomic
import LuxEvm.Plugin.DexExactlyOnce
import LuxEvm.Lib.Tiling
import LuxEvm.Sync.SegmentCover
import LuxEvm.Warp.Backend
import LuxEvm.Warp.SigningOracle
import LuxEvm.Sync.LeafsRequest
import LuxEvm.Lib.Schedule
import LuxEvm.Params.PrecompileUpgrade
import LuxEvm.Core.PrecompileActivation
import LuxEvm.Core.Configurators
import LuxEvm.Precompile.ConfigEqual
import LuxEvm.Header.BlockGasCost
import LuxEvm.Consensus.BlockFee
import LuxEvm.Header.BaseFee
import LuxEvm.Validators.Uptime
import LuxEvm.Lib.ByteBuffer
import LuxEvm.Message.Codec
import LuxEvm.Predicate.Results
import LuxEvm.Parallel.ConflictEdges
import LuxEvm.Parallel.Settlement
import LuxEvm.Core.IntrinsicGas
import LuxEvm.Validators.PausableManager
import LuxEvm.Validators.State
import LuxEvm.Core.StateTransition
import LuxEvm.Validators.Sync
import LuxEvm.Predicate.SliceBounds
import LuxEvm.Message.Marshal
import LuxEvm.Message.Accept
import LuxEvm.Sync.BlockRequest
import LuxEvm.Sync.CodeRequest
import LuxEvm.Sync.CodeSyncer
import LuxEvm.Lib.KeyGroups
import LuxEvm.Sync.TrieQueue
import LuxEvm.Sync.StateSyncer
