import TTXla.Lib.Run
import TTXla.Lib.Dict
import TTXla.Lib.Slots
import TTXla.Lib.Options
import TTXla.VllmTT.SamplingIsolation
import TTXla.VllmTT.ModelRunner.Chunks
import TTXla.VllmTT.SplitExecution
import TTXla.VllmTT.StructuredDecoding
import TTXla.VllmTT.KVPlacement
import TTXla.VllmTT.PaddedShapes
import TTXla.VllmTT.Sampler.Survivors
import TTXla.VllmTT.AscendScheduler.Guard
import TTXla.VllmTT.AscendScheduler.Resumption
import TTXla.VllmTT.AscendScheduler.Homogeneous
import TTXla.VllmTT.AscendScheduler.WaitingOrder
import TTXla.VllmTT.AscendScheduler.Idle
import TTXla.TTTorch.SparseMLP.Equivalence
import TTXla.TTTorch.SparseMLP.Stacked
import TTXla.PJRT.Tensor.Runs
import TTXla.PJRT.CleanForXla.Theorems
import TTXla.PJRT.Execution.Runs
import TTXla.PJRT.EventInstance.Theorems
import TTXla.PJRT.Serialization.RoundTrip
import TTXla.PJRT.Fingerprint.Soundness
import TTXla.PJRT.Mesh.Lifecycle
import TTXla.VllmTT.SeededSampling.Determined
import TTXla.PJRT.DeviceAssignment.Theorems
import TTXla.VllmTT.PoolingStates.Agreement
import TTXla.VllmTT.PromptLogprobs.Prefill
import TTXla.VllmTT.PoolingMask
import TTXla.VllmTT.ActiveLoras
import TTXla.VllmTT.ConstraintMasks
import TTXla.VllmTT.Sampler.GreedyRows
import TTXla.PJRT.HostBuffers.Lending
import TTXla.PJRT.HostArrays.Layout
import TTXla.PJRT.Mesh.Placement
import TTXla.TTTorch.ExpertMapping
import TTXla.TTTorch.Sharding.Encoding
import TTXla.TTTorch.GptOssExperts.Branches
import TTXla.VllmTT.ParallelLinear.Parts
import TTXla.TTTorch.TorchOverrides.Semantics
import TTXla.TTTorch.MoEAdapters.Replaced
import TTXla.PJRT.InlineMarks.Meaning
import TTXla.PJRT.CompileOptionsParser.Options
import TTXla.VllmTT.TokenPaddings
import TTXla.VllmTT.Sampler.LogitsKept
import TTXla.TTTorch.Decompositions.MaskedScatter
import TTXla.TTTorch.ArgumentMarkers.Names
import TTXla.TTTorch.ArgumentMarkers.Soundness
import TTXla.TTTorch.Decompositions.Upsample.Reference
import TTXla.TTTorch.DtypePromotion.Soundness
import TTXla.TTTorch.MetadataPropagation.Locations
import TTXla.PJRT.RolePropagation.Roles
import TTXla.PJRT.MarkCustomCalls.Uplift
import TTXla.TTTorch.CustomOps.PagedAttention.Decode
import TTXla.TTTorch.CompositeOps.Unpacking
import TTXla.VllmTT.Warmup.Coverage
