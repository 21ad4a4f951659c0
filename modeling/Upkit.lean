import Upkit.Lib.Bytes
import Upkit.Lib.Blocks
import Upkit.Memory.Interface
import Upkit.Memory.Manifest
import Upkit.Memory.Objects
import Upkit.Security.Verifier
import Upkit.Security.Digest
import Upkit.Security.DebugReads
import Upkit.Pipeline.Stages
import Upkit.Memory.Effects
import Upkit.Memory.Swap
import Upkit.Agents.Bootloader
import Upkit.Agents.BootImage
import Upkit.Pipeline.Lzss
import Upkit.Pipeline.Bspatch
import Upkit.Network.Fsm
import Upkit.Network.FsmCases
import Upkit.Network.Delivery
import Upkit.Network.Split
import Upkit.Network.Sessions
import Upkit.Network.Accesses
import Upkit.Network.RunningImage
import Upkit.Network.Residue
import Upkit.Server.Firmware
import Upkit.Server.Update
import Upkit.Network.Ble
import Upkit.Network.Freshness
import Upkit.Pipeline.Chains
import Upkit.Pipeline.Reports
import Upkit.Network.HeardWrites
import Upkit.Network.FailedWrites
import Upkit.Agents.Drivers
import Upkit.Agents.Update
import Upkit.Agents.FirstBoot
import Upkit.Memory.PowerLoss
import Upkit.Server.Clients
import Upkit.Agents.Transfer
import Upkit.Pipeline.Feeding
import Upkit.Pipeline.Reblocking
import Upkit.Memory.Copy
import Upkit.Lib.Bits
import Upkit.Lib.Window
import Upkit.Pipeline.LzssRun
import Upkit.Tool.Decompress
import Upkit.Tool.Compress
import Upkit.Pipeline.BspatchRun
import Upkit.Tool.Bspatch
import Upkit.Pipeline.PatchBounds
import Upkit.Tool.Bsdiff
import Upkit.Memory.FailingSwap
import Upkit.Memory.Flash
import Upkit.Memory.FlashSwap
import Upkit.Tool.Differential
import Upkit.Lib.Groups
import Upkit.Tool.Qsufsort
import Upkit.Memory.Selection
import Upkit.Server.Signing
import Upkit.Agents.Exchange
import Upkit.Memory.Descriptor
import Upkit.Server.FailedSigning
import Upkit.Memory.ExternalFlash
import Upkit.Memory.SequentialRewrite
import Upkit.Memory.Wrappers
import Upkit.Network.FlashWrites
import Upkit.Network.WriteBounds
import Upkit.Tool.SuffixRounds
import Upkit.Tool.SuffixSort
import Upkit.Agents.Generations
import Upkit.Server.Resources
import Upkit.Tool.Manifest
import Upkit.Agents.FlashDevice
import Upkit.Agents.Provisioning
import Upkit.Agents.LossyTransfer
import Upkit.Agents.FlashTransfer
import Upkit.Agents.Push
import Upkit.Agents.Loader
import Upkit.Agents.FlashPush
