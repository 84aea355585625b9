import TTXla.Lib.Dict

-- Options of a compilation.
namespace TTXla.PJRT

inductive BackendRuntime where
  | TTNNFlatbuffer
  | TTNNCodegenCpp
  | TTNNCodegenPy
deriving DecidableEq

structure CompileOptions where
  optimization_level : Int := 0
  experimental_weight_dtype : String := ""
  math_fidelity : Option String := none
  fp32_dest_acc_en : Option Bool := none
  experimental_enable_fusing_conv2d_with_multiply_pattern : Bool := false
  backend : BackendRuntime := .TTNNFlatbuffer
  enable_trace : Bool := false
  export_tensors : Bool := false
  enable_const_eval : Bool := true
  enable_const_eval_on_cpu : Bool := true
  experimental_enable_permute_matmul_fusion : Bool := true
  experimental_enable_dram_space_saving_optimization : Bool := false
  ttnn_perf_metrics_enabled : Bool := false
  codegen_try_recover_structure : Bool := false
  codegen_split_files : Bool := false
  ttnn_perf_metrics_output_file : String := ""
  export_path : Option String := none
  export_model_name : String := ""
deriving DecidableEq

-- `ABORT_F`, with its text.
structure Abort where
  message : String
deriving DecidableEq

namespace CompileOptions

variable (compile_options : Dict String String) (option_name : String)

def parseBoolOption : Except Abort (Option Bool) :=
  match compile_options.lookup option_name with
  | none => .ok none
  | some value =>
      let option_value := value.toLower
      if option_value ∈ ["true", "1", "yes", "on"] then .ok (some true)
      else if option_value ∈ ["false", "0", "no", "off"] then .ok (some false)
      else .error ⟨"Unknown boolean option value: " ++ option_value ++ " for " ++ option_name⟩

def parseBackendOption : Except Abort (Option BackendRuntime) :=
  match compile_options.lookup option_name with
  | none => .ok (some .TTNNFlatbuffer)
  | some value =>
      let option_value := value.toLower
      if option_value = "default" ∨ option_value = "ttnn_flatbuffer" then
        .ok (some .TTNNFlatbuffer)
      else if option_value = "codegen_cpp" then .ok (some .TTNNCodegenCpp)
      else if option_value = "codegen_py" then .ok (some .TTNNCodegenPy)
      else .error ⟨"Unknown backend option value: " ++ option_value ++ " for " ++ option_name⟩

def parseStringOption : Option String := compile_options.lookup option_name

def isspace (c : Char) : Bool := c = ' ' || ('\t' ≤ c && c ≤ '\r')

def digitsToNat (digits : List Char) : Nat :=
  digits.foldl (fun n c => 10 * n + (c.toNat - '0'.toNat)) 0

-- `std::stoi`: the number that the string begins with, when it is an `int`.
def stoi (s : String) : Option Int :=
  let chars := s.toList.dropWhile isspace
  let negative := chars.head? = some '-'
  let unsigned := if negative ∨ chars.head? = some '+' then chars.tail else chars
  let digits := unsigned.takeWhile Char.isDigit
  let value : Int := if negative then -digitsToNat digits else digitsToNat digits
  if digits = [] ∨ value < -2 ^ 31 ∨ 2 ^ 31 ≤ value then none else some value

def parseIntOption : Except Abort (Option Int) :=
  match compile_options.lookup option_name with
  | none => .ok none
  | some value =>
      match stoi value with
      | some n => .ok (some n)
      | none => .error ⟨"Failed to parse optimization_level: stoi. Must be an integer."⟩

def parse : Except Abort CompileOptions := do
  let options : CompileOptions := {}
  let optimization_level :=
    (← parseIntOption compile_options "optimization_level").getD options.optimization_level
  let experimental_weight_dtype :=
    (parseStringOption compile_options "experimental_weight_dtype").getD
      options.experimental_weight_dtype
  let math_fidelity := parseStringOption compile_options "math_fidelity"
  let fp32_dest_acc_en ← parseBoolOption compile_options "fp32_dest_acc_en"
  let experimental_enable_fusing_conv2d_with_multiply_pattern :=
    (← parseBoolOption compile_options
      "experimental_enable_fusing_conv2d_with_multiply_pattern").getD
      options.experimental_enable_fusing_conv2d_with_multiply_pattern
  let backend := (← parseBackendOption compile_options "backend").getD options.backend
  let enable_trace :=
    (← parseBoolOption compile_options "enable_trace").getD options.enable_trace
  let export_tensors :=
    (← parseBoolOption compile_options "export_tensors").getD (backend ≠ .TTNNFlatbuffer)
  let enable_const_eval :=
    (← parseBoolOption compile_options "enable_const_eval").getD options.enable_const_eval
  let enable_const_eval_on_cpu :=
    (← parseBoolOption compile_options "enable_const_eval_on_cpu").getD
      options.enable_const_eval_on_cpu
  let experimental_enable_permute_matmul_fusion :=
    (← parseBoolOption compile_options "experimental_enable_permute_matmul_fusion").getD
      options.experimental_enable_permute_matmul_fusion
  let codegen_try_recover_structure :=
    (← parseBoolOption compile_options "codegen_try_recover_structure").getD
      options.codegen_try_recover_structure
  let codegen_split_files :=
    (← parseBoolOption compile_options "codegen_split_files").getD options.codegen_split_files
  -- the only option that is spelled with hyphens
  let experimental_enable_dram_space_saving_optimization :=
    (← parseBoolOption compile_options
      "experimental-enable-dram-space-saving-optimization").getD
      options.experimental_enable_dram_space_saving_optimization
  let ttnn_perf_metrics_enabled :=
    (← parseBoolOption compile_options "ttnn_perf_metrics_enabled").getD false
  let ttnn_perf_metrics_output_file :=
    (parseStringOption compile_options "ttnn_perf_metrics_output_file").getD ""
  let export_path := parseStringOption compile_options "export_path"
  let export_model_name := (parseStringOption compile_options "export_model_name").getD ""
  if export_path = none ∧ backend ≠ .TTNNFlatbuffer then
    .error ⟨"Compile option 'export_path' must be provided when backend is not " ++
      "'TTNNFlatbuffer'"⟩
  else return {
    optimization_level, experimental_weight_dtype, math_fidelity, fp32_dest_acc_en
    experimental_enable_fusing_conv2d_with_multiply_pattern, backend, enable_trace
    export_tensors, enable_const_eval, enable_const_eval_on_cpu
    experimental_enable_permute_matmul_fusion
    experimental_enable_dram_space_saving_optimization, ttnn_perf_metrics_enabled
    codegen_try_recover_structure, codegen_split_files, ttnn_perf_metrics_output_file
    export_path, export_model_name }

end CompileOptions

end TTXla.PJRT
