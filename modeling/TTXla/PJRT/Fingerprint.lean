import TTXla.PJRT.CompileOptions
import TTXla.PJRT.Status
import TTXla.Lib.Excepts

-- The options that the compilation of a module depends on, and the fingerprint of its image.
namespace TTXla.PJRT

open Excepts

inductive OptionalMathFidelity where
  | LoFi
  | HiFi2
  | HiFi3
  | HiFi4
  | Undefined
deriving DecidableEq

inductive WeightDtype where
  | BFP_BFloat8
  | BFP_BFloat4
deriving DecidableEq

-- Options that are `none` keep the default of the pipeline.
structure TTIRToTTNNBackendPipelineOptions (Device Topology : Type) where
  optimizationLevel : Int
  experimentalWeightDtype : Option WeightDtype
  computeCfgMathFidelity : Option OptionalMathFidelity
  computeCfgFp32DestAccEn : Option Bool
  enableFusingConv2dWithMultiplyPattern : Bool
  enablePermuteMatmulFusion : Bool
  enableTrace : Bool
  systemDescPath : String
  enableConstEval : Bool
  enableCPUHoistedConstEval : Bool
  dramSpaceSavingOptimizationEnabled : Bool
  ttnnPerfMetricsEnabled : Bool
  ttnnPerfMetricsOutputFile : String
  meshShape : Nat × Nat
  devicePtr : Option Device
  meshTopology : Topology
deriving DecidableEq

-- What a compilation depends on besides its options.
structure ModuleBuilder (Device Topology : Type) where
  distributed : Bool
  system_descriptor_path : String
  devices_mesh_shape : List Nat
  graph_counter : Nat
  getOrCreateOptimizerSubmesh : List Nat → Device
  computeMeshTopology : List Nat → Topology

def parseMathFidelity (math_fidelity_str : String) :
    Except tt_pjrt_status OptionalMathFidelity :=
  if math_fidelity_str = "lofi" then .ok .LoFi
  else if math_fidelity_str = "hifi2" then .ok .HiFi2
  else if math_fidelity_str = "hifi3" then .ok .HiFi3
  else if math_fidelity_str = "hifi4" then .ok .HiFi4
  else if math_fidelity_str = "ttnn_default" then .ok .Undefined
  else .error .kInvalidArgument

def parseWeightDtype (experimental_weight_dtype : String) :
    Except tt_pjrt_status (Option WeightDtype) :=
  if experimental_weight_dtype = "bfp_bf8" then .ok (some .BFP_BFloat8)
  else if experimental_weight_dtype = "bfp_bf4" then .ok (some .BFP_BFloat4)
  else if experimental_weight_dtype = "" then .ok none
  else .error .kUnimplemented

def npos : Nat := 2 ^ 64 - 1

def find_last_of (s : List Char) (c : Char) : Nat :=
  match s.reverse.idxOf? c with
  | some i => s.length - 1 - i
  | none => npos

def numberedOutputFile (base_path : String) (graph_idx : Nat) : String :=
  let path := base_path.toList
  let last_dot := find_last_of path '.'
  if last_dot ≠ npos ∧ find_last_of path '/' < last_dot then
    String.ofList (path.take last_dot) ++ "_" ++ toString graph_idx
      ++ String.ofList (path.drop last_dot)
  else base_path ++ "_" ++ toString graph_idx ++ ".json"

variable {Device Topology : Type}

def ModuleBuilder.convertFromTTIRToTTNN (builder : ModuleBuilder Device Topology)
    (compile_options : CompileOptions) :
    Except tt_pjrt_status (TTIRToTTNNBackendPipelineOptions Device Topology) := do
  ensure (¬(builder.distributed = true ∧ 0 < compile_options.optimization_level)) .kInternal
  let experimentalWeightDtype ← parseWeightDtype compile_options.experimental_weight_dtype
  let computeCfgMathFidelity ← match compile_options.math_fidelity with
    | some math_fidelity => some <$> parseMathFidelity math_fidelity
    | none => .ok none
  let meshShape ← match builder.devices_mesh_shape with
    | [y, x] => .ok (y, x)
    | _ => .error .kInternal
  return {
    optimizationLevel := compile_options.optimization_level
    experimentalWeightDtype, computeCfgMathFidelity
    computeCfgFp32DestAccEn := compile_options.fp32_dest_acc_en
    enableFusingConv2dWithMultiplyPattern :=
      compile_options.experimental_enable_fusing_conv2d_with_multiply_pattern
    enablePermuteMatmulFusion := compile_options.experimental_enable_permute_matmul_fusion
    enableTrace := compile_options.enable_trace
    systemDescPath := builder.system_descriptor_path
    enableConstEval := compile_options.enable_const_eval
    enableCPUHoistedConstEval :=
      if compile_options.backend = .TTNNCodegenCpp ∨ compile_options.backend = .TTNNCodegenPy then
        false
      else compile_options.enable_const_eval_on_cpu
    dramSpaceSavingOptimizationEnabled :=
      compile_options.experimental_enable_dram_space_saving_optimization
    ttnnPerfMetricsEnabled := compile_options.ttnn_perf_metrics_enabled
    ttnnPerfMetricsOutputFile :=
      if compile_options.ttnn_perf_metrics_enabled = true ∧
          compile_options.ttnn_perf_metrics_output_file ≠ "" then
        numberedOutputFile compile_options.ttnn_perf_metrics_output_file builder.graph_counter
      else compile_options.ttnn_perf_metrics_output_file
    meshShape
    devicePtr :=
      if 1 ≤ compile_options.optimization_level then
        some (builder.getOrCreateOptimizerSubmesh builder.devices_mesh_shape)
      else none
    meshTopology := builder.computeMeshTopology builder.devices_mesh_shape }

-- A compilation that succeeded: the code and the options that its image keeps, and the version
-- of the compiler that its flatbuffer carries.
structure Compilation where
  original_mlir_code : String
  compile_options : CompileOptions
  version : String

namespace Compilation

variable (c : Compilation)

def base_data_to_hash : String :=
  "mlir:" ++ c.original_mlir_code ++ "\n"
    ++ "optimization_level:" ++ toString c.compile_options.optimization_level ++ "\n"
    ++ "enable_trace:" ++ (if c.compile_options.enable_trace then "1" else "0") ++ "\n"

-- The data of `FlatbufferExecutableImage`, or of `SOExecutableImage`.
def data_to_hash : String :=
  if c.compile_options.backend = .TTNNFlatbuffer then
    c.base_data_to_hash ++ "ttmlir_version:" ++ c.version ++ "\n"
  else c.base_data_to_hash

end Compilation

end TTXla.PJRT
