import TTXla.Lib.Decimal
import TTXla.PJRT.Fingerprint
import Mathlib.Data.List.Infix

-- Which inputs of a compilation its fingerprint determines.
namespace TTXla.PJRT

open Decimal

section Lines

variable {α : Type*} {xs ys before before' : List α} {c : α}

-- The last line of a text, and what stands before it.
theorem append_cons_inj (hxs : c ∉ xs) (hys : c ∉ ys)
    (h : before ++ c :: xs = before' ++ c :: ys) : before = before' ∧ xs = ys := by
  obtain ⟨t, hbefore, ht⟩ | ⟨t, hbefore, ht⟩ := List.append_eq_append_iff.mp h
  · cases t with
    | nil =>
        cases ht
        exact ⟨by rw [hbefore, List.append_nil], rfl⟩
    | cons d t =>
        cases ht
        exact (hxs (List.mem_append_right _ List.mem_cons_self)).elim
  · cases t with
    | nil =>
        cases ht
        exact ⟨by rw [hbefore, List.append_nil], rfl⟩
    | cons d t =>
        cases ht
        exact (hys (List.mem_append_right _ List.mem_cons_self)).elim

theorem head?_append_of_eq (h : xs.head? = some c) : (xs ++ ys).head? = some c := by
  rw [List.head?_append, h, Option.some_or]

end Lines

-- The options that the builder passes to the pipeline.
structure PassedOptions where
  optimization_level : Int
  enable_trace : Bool
  experimental_weight_dtype : String
  math_fidelity : Option String
  fp32_dest_acc_en : Option Bool
  experimental_enable_fusing_conv2d_with_multiply_pattern : Bool
  experimental_enable_permute_matmul_fusion : Bool
  enable_const_eval : Bool
  enable_const_eval_on_cpu : Bool
  experimental_enable_dram_space_saving_optimization : Bool
  ttnn_perf_metrics_enabled : Bool
  ttnn_perf_metrics_output_file : String
  backend : BackendRuntime
deriving DecidableEq

def CompileOptions.passed (options : CompileOptions) : PassedOptions where
  optimization_level := options.optimization_level
  enable_trace := options.enable_trace
  experimental_weight_dtype := options.experimental_weight_dtype
  math_fidelity := options.math_fidelity
  fp32_dest_acc_en := options.fp32_dest_acc_en
  experimental_enable_fusing_conv2d_with_multiply_pattern :=
    options.experimental_enable_fusing_conv2d_with_multiply_pattern
  experimental_enable_permute_matmul_fusion := options.experimental_enable_permute_matmul_fusion
  enable_const_eval := options.enable_const_eval
  enable_const_eval_on_cpu := options.enable_const_eval_on_cpu
  experimental_enable_dram_space_saving_optimization :=
    options.experimental_enable_dram_space_saving_optimization
  ttnn_perf_metrics_enabled := options.ttnn_perf_metrics_enabled
  ttnn_perf_metrics_output_file := options.ttnn_perf_metrics_output_file
  backend := options.backend

-- The passed options without the two that are hashed.
def CompileOptions.unhashed (options : CompileOptions) : PassedOptions :=
  { options.passed with optimization_level := 0, enable_trace := false }

theorem CompileOptions.passed_inj {options options' : CompileOptions} :
    options.passed = options'.passed ↔
      options.optimization_level = options'.optimization_level ∧
        options.enable_trace = options'.enable_trace ∧ options.unhashed = options'.unhashed := by
  simp only [unhashed, passed, PassedOptions.mk.injEq, true_and]

-- The pipeline depends on the options that are passed only.
theorem convertFromTTIRToTTNN_congr {Device Topology : Type}
    (builder : ModuleBuilder Device Topology) {options options' : CompileOptions}
    (h : options.passed = options'.passed) :
    builder.convertFromTTIRToTTNN options = builder.convertFromTTIRToTTNN options' := by
  simp only [CompileOptions.passed, PassedOptions.mk.injEq] at h
  obtain ⟨h1, h2, h3, h4, h5, h6, h7, h8, h9, h10, h11, h12, h13⟩ := h
  simp only [ModuleBuilder.convertFromTTIRToTTNN, h1, h2, h3, h4, h5, h6, h7, h8, h9, h10, h11,
    h12, h13]

namespace Compilation

variable {c c' : Compilation}

def hashed (c : Compilation) : String × Int × Bool × Option String :=
  (c.original_mlir_code, c.compile_options.optimization_level, c.compile_options.enable_trace,
    if c.compile_options.backend = .TTNNFlatbuffer then some c.version else none)

def flag (b : Bool) : List Char := if b then ['1'] else ['0']

-- The lines of the data.
def mlir_and_level (c : Compilation) : List Char :=
  "mlir:".toList ++ c.original_mlir_code.toList ++
    '\n' :: ("optimization_level:".toList ++ (toString c.compile_options.optimization_level).toList)

def trace (c : Compilation) : List Char :=
  "enable_trace:".toList ++ flag c.compile_options.enable_trace

def ttmlir_version (c : Compilation) : List Char := "ttmlir_version:".toList ++ c.version.toList

theorem toList_flag (b : Bool) : (if b then "1" else "0" : String).toList = flag b := by
  cases b
  · rfl
  · rfl

theorem toList_line (before tag value : String) :
    (before ++ tag ++ value ++ "\n").toList =
      before.toList ++ (tag.toList ++ value.toList) ++ ['\n'] := by
  simp only [String.toList_append, List.append_assoc]
  rfl

-- Three lines, with any names.
theorem toList_lines (first code second level third : String) (trace : Bool) :
    (first ++ code ++ "\n" ++ second ++ level ++ "\n" ++ third
        ++ (if trace then "1" else "0") ++ "\n").toList =
      first.toList ++ code.toList ++ '\n' :: (second.toList ++ level.toList)
        ++ '\n' :: (third.toList ++ flag trace) ++ ['\n'] := by
  have hnewline : "\n".toList = ['\n'] := rfl
  rw [toList_line, toList_line, String.toList_append, String.toList_append, hnewline, toList_flag]
  simp only [List.append_assoc, List.cons_append, List.nil_append]

theorem toList_base_data_to_hash (c : Compilation) : c.base_data_to_hash.toList =
    c.mlir_and_level ++ '\n' :: c.trace ++ ['\n'] :=
  toList_lines _ _ _ _ _ _

theorem toList_data_to_hash (c : Compilation) : c.data_to_hash.toList =
    if c.compile_options.backend = .TTNNFlatbuffer then
      c.mlir_and_level ++ '\n' :: c.trace ++ '\n' :: c.ttmlir_version ++ ['\n']
    else c.mlir_and_level ++ '\n' :: c.trace ++ ['\n'] := by
  unfold data_to_hash
  by_cases hb : c.compile_options.backend = .TTNNFlatbuffer
  · rw [if_pos hb, if_pos hb]
    have hline := toList_line c.base_data_to_hash "ttmlir_version:" c.version
    rw [toList_base_data_to_hash, List.append_assoc _ ['\n']] at hline
    exact hline
  · rw [if_neg hb, if_neg hb]
    exact c.toList_base_data_to_hash

-- The last lines of the two kinds of images begin in different ways.
theorem ttmlir_version_ne_trace (c c' : Compilation) : c.ttmlir_version ≠ c'.trace := by
  have hversion : "ttmlir_version:".toList.head? = some 't' := by decide
  have htrace : "enable_trace:".toList.head? = some 'e' := by decide
  have hhead : c.ttmlir_version.head? = some 't' := head?_append_of_eq hversion
  have hhead' : c'.trace.head? = some 'e' := head?_append_of_eq htrace
  intro h
  cases hhead.symm.trans ((congrArg List.head? h).trans hhead')

theorem newline_not_mem_trace (c : Compilation) : '\n' ∉ c.trace := by
  unfold trace
  cases c.compile_options.enable_trace <;> decide

theorem newline_not_mem_ttmlir_version (hv : '\n' ∉ c.version.toList) :
    '\n' ∉ c.ttmlir_version := by
  unfold ttmlir_version
  rw [List.mem_append]
  rintro (hmem | hmem)
  · exact absurd hmem (by decide)
  · exact hv hmem

theorem mlir_and_level_inj (h : c.mlir_and_level = c'.mlir_and_level) :
    c.original_mlir_code = c'.original_mlir_code ∧
      c.compile_options.optimization_level = c'.compile_options.optimization_level := by
  have hlevel : ∀ c : Compilation, '\n' ∉ "optimization_level:".toList ++
      (toString c.compile_options.optimization_level).toList := by
    intro c hmem
    cases List.mem_append.mp hmem with
    | inl hmem => exact absurd hmem (by decide)
    | inr hmem => exact not_mem_toString_int (by decide) (by decide) _ hmem
  obtain ⟨hcode, hnumber⟩ := append_cons_inj (hlevel c) (hlevel c') h
  exact ⟨String.toList_inj.mp (List.append_cancel_left hcode),
    toString_int_inj (String.toList_inj.mp (List.append_cancel_left hnumber))⟩

theorem trace_inj (h : c.trace = c'.trace) :
    c.compile_options.enable_trace = c'.compile_options.enable_trace := by
  have hflag := List.append_cancel_left h
  revert hflag
  cases c.compile_options.enable_trace <;> cases c'.compile_options.enable_trace <;> decide

theorem mlir_and_level_congr (hcode : c.original_mlir_code = c'.original_mlir_code)
    (hlevel : c.compile_options.optimization_level = c'.compile_options.optimization_level) :
    c.mlir_and_level = c'.mlir_and_level := by
  unfold mlir_and_level
  rw [hcode, hlevel]

theorem trace_congr (hflag : c.compile_options.enable_trace = c'.compile_options.enable_trace) :
    c.trace = c'.trace := by
  unfold trace
  rw [hflag]

theorem ttmlir_version_congr (hversion : c.version = c'.version) :
    c.ttmlir_version = c'.ttmlir_version := by
  unfold ttmlir_version
  rw [hversion]

-- The data of two compilations is the same just when everything that is hashed is.
theorem data_to_hash_inj (hv : '\n' ∉ c.version.toList) (hv' : '\n' ∉ c'.version.toList) :
    c.data_to_hash = c'.data_to_hash ↔ c.hashed = c'.hashed := by
  have htrace := c.newline_not_mem_trace
  have htrace' := c'.newline_not_mem_trace
  have hversion := newline_not_mem_ttmlir_version hv
  have hversion' := newline_not_mem_ttmlir_version hv'
  have hlines : c.mlir_and_level = c'.mlir_and_level → c.trace = c'.trace →
      c.original_mlir_code = c'.original_mlir_code ∧
        c.compile_options.optimization_level = c'.compile_options.optimization_level ∧
        c.compile_options.enable_trace = c'.compile_options.enable_trace := fun hl ht =>
    ⟨(mlir_and_level_inj hl).1, (mlir_and_level_inj hl).2, trace_inj ht⟩
  rw [← String.toList_inj, toList_data_to_hash, toList_data_to_hash]
  simp only [hashed, Prod.mk.injEq]
  by_cases hb : c.compile_options.backend = .TTNNFlatbuffer
  · by_cases hb' : c'.compile_options.backend = .TTNNFlatbuffer
    · rw [if_pos hb, if_pos hb', if_pos hb, if_pos hb', List.append_left_inj, Option.some.injEq]
      constructor
      · intro h
        obtain ⟨hbefore, hlast⟩ := append_cons_inj hversion hversion' h
        obtain ⟨hl, ht⟩ := append_cons_inj htrace htrace' hbefore
        obtain ⟨hcode, hlevel, hflag⟩ := hlines hl ht
        exact ⟨hcode, hlevel, hflag, String.toList_inj.mp (List.append_cancel_left hlast)⟩
      · rintro ⟨hcode, hlevel, hflag, hversions⟩
        rw [mlir_and_level_congr hcode hlevel, trace_congr hflag, ttmlir_version_congr hversions]
    · rw [if_pos hb, if_neg hb', if_pos hb, if_neg hb', List.append_left_inj]
      refine iff_of_false (fun h => ?_) (fun h => by cases h.2.2.2)
      exact ttmlir_version_ne_trace c c' (append_cons_inj hversion htrace' h).2
  · by_cases hb' : c'.compile_options.backend = .TTNNFlatbuffer
    · rw [if_neg hb, if_pos hb', if_neg hb, if_pos hb', List.append_left_inj]
      refine iff_of_false (fun h => ?_) (fun h => by cases h.2.2.2)
      exact ttmlir_version_ne_trace c' c (append_cons_inj htrace hversion' h).2.symm
    · rw [if_neg hb, if_neg hb', if_neg hb, if_neg hb', List.append_left_inj]
      constructor
      · intro h
        obtain ⟨hl, ht⟩ := append_cons_inj htrace htrace' h
        obtain ⟨hcode, hlevel, hflag⟩ := hlines hl ht
        exact ⟨hcode, hlevel, hflag, rfl⟩
      · rintro ⟨hcode, hlevel, hflag, -⟩
        rw [mlir_and_level_congr hcode hlevel, trace_congr hflag]

-- Equal data comes from compilations whose programs depend on the same inputs.
def Determined (c c' : Compilation) : Prop :=
  c.data_to_hash = c'.data_to_hash →
    c.original_mlir_code = c'.original_mlir_code ∧
      c.compile_options.passed = c'.compile_options.passed

-- The options that are not hashed have to agree by themselves.
theorem determined_iff (hv : '\n' ∉ c.version.toList) (hv' : '\n' ∉ c'.version.toList) :
    Determined c c' ↔
      c.hashed ≠ c'.hashed ∨ c.compile_options.unhashed = c'.compile_options.unhashed := by
  unfold Determined
  rw [data_to_hash_inj hv hv']
  constructor
  · intro h
    by_cases hhashed : c.hashed = c'.hashed
    · exact .inr (CompileOptions.passed_inj.mp (h hhashed).2).2.2
    · exact .inl hhashed
  · rintro (hne | hunhashed) hhashed
    · exact (hne hhashed).elim
    · simp only [hashed, Prod.mk.injEq] at hhashed
      obtain ⟨hcode, hlevel, hflag, -⟩ := hhashed
      exact ⟨hcode, CompileOptions.passed_inj.mpr ⟨hlevel, hflag, hunhashed⟩⟩

theorem traced_determined : Determined ⟨"module @main", {}, "0.1"⟩
    ⟨"module @main", { enable_trace := true, experimental_weight_dtype := "bfp_bf8" }, "0.1"⟩ :=
  (determined_iff (by decide) (by decide)).mpr (.inl (by decide))

def mesh_of_one : ModuleBuilder Unit Unit where
  distributed := false
  system_descriptor_path := "system_desc.ttsys"
  devices_mesh_shape := [1, 1]
  graph_counter := 0
  getOrCreateOptimizerSubmesh _ := ()
  computeMeshTopology _ := ()

-- The same code with the weights in two formats.
def weights_bf16 : Compilation := ⟨"module @main", {}, "0.1"⟩

def weights_bfp8 : Compilation :=
  ⟨"module @main", { experimental_weight_dtype := "bfp_bf8" }, "0.1"⟩

theorem weights_not_determined :
    CompileOptions.parse ∅ = .ok weights_bf16.compile_options ∧
      CompileOptions.parse (AList.singleton "experimental_weight_dtype" "bfp_bf8") =
        .ok weights_bfp8.compile_options ∧
      ¬Determined weights_bf16 weights_bfp8 ∧
      mesh_of_one.convertFromTTIRToTTNN weights_bf16.compile_options ≠
        mesh_of_one.convertFromTTIRToTTNN weights_bfp8.compile_options := by
  have hversion : '\n' ∉ weights_bf16.version.toList := by decide
  have hversion' : '\n' ∉ weights_bfp8.version.toList := by decide
  refine ⟨by decide +kernel, by decide +kernel, fun h => ?_, by decide +kernel⟩
  obtain ⟨-, hpassed⟩ := h ((data_to_hash_inj hversion hversion').mpr rfl)
  exact absurd (congrArg PassedOptions.experimental_weight_dtype hpassed) (by decide)

end Compilation

end TTXla.PJRT
