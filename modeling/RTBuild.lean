import RTBuild.SizeEstimate
import RTBuild.Allocator
import RTBuild.ParallelOperation
import RTBuild.PrimRef
import RTBuild.PrimRefGen
import RTBuild.Library.HighBit
import RTBuild.SplittingGrid
import RTBuild.TrianglePairs
import RTBuild.Library.Segment
import RTBuild.Library.Task
import RTBuild.Library.WideTree
import RTBuild.Partition
import RTBuild.SwapPhase
import RTBuild.Splits
import RTBuild.Children
import RTBuild.QNode
import RTBuild.Quantization
import RTBuild.AffineSpace
import RTBuild.FloatValue
import RTBuild.Leaf
import RTBuild.QuadLeaf
import RTBuild.Library.StdHeap
import RTBuild.OpenInstance
import RTBuild.Library.ParallelFor
import RTBuild.Library.ParallelLoop
import RTBuild.Library.PrefixSum
import RTBuild.Library.RadixSort
import RTBuild.Presplit
import RTBuild.Builder
import RTBuild.Plan
import RTBuild.Emission
import RTBuild.Depth
import RTBuild.Binning
import RTBuild.Blocks
import RTBuild.Bytes
import RTBuild.LeafBlocks
import RTBuild.Writes
import RTBuild.BufferSafety
import RTBuild.Memory
import RTBuild.Decode
import RTBuild.Represents
import RTBuild.Emitted
import RTBuild.ProceduralBlocks
import RTBuild.Bvh
import RTBuild.ScratchBuffer
import RTBuild.ParallelPrefixSum
import RTBuild.ParallelSort
import RTBuild.Library.Clip
import RTBuild.Splitter
import RTBuild.Pieces
import RTBuild.Traversal
import RTBuild.Affine
import RTBuild.Descriptors
import RTBuild.SceneSplit
import RTBuild.Priority
import RTBuild.IndexCollision
import RTBuild.SceneSearch
import RTBuild.Statistics
import RTBuild.ZeWrapper
import RTBuild.Image
import RTBuild.ExpectedSize
import RTBuild.UsedBytes
import RTBuild.Operations
