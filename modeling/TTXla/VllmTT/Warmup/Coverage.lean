import TTXla.VllmTT.Warmup
import TTXla.VllmTT.ModelRunner.Split

-- Which calls of a step were compiled in the warm-up.
namespace TTXla.VllmTT

-- What the sampler graphs of the warm-up are traced for: the requests are all greedy or
-- all random, and nothing else changes the logits or the noise.
structure InputBatch.Uniform {T : Type} (b : InputBatch T) (outs : OutRef → List Token)
    (padded_num_reqs : Nat) : Prop where
  sampling : b.all_greedy = true ∨ b.all_random = true
  no_penalties : b.no_penalties = true
  no_logit_bias : ∀ i < b.num_reqs, b.logit_bias i = none
  no_bad_words : b.bad_words_token_ids.keys = []
  no_allowed_token_ids : b.no_allowed_token_ids = true
  no_min_tokens : ∀ e ∈ b.min_tokens.entries, e.1 < padded_num_reqs →
    e.2.1 ≤ (b.outputs outs e.1).length
  no_generators : b.generators.keys = []

-- The graph that the warm-up traces with `all_greedy` unset.
def SamplerGraph.random : SamplerGraph where
  no_allowed_token_ids := true
  no_min_tokens := true
  no_bad_words := true
  no_logit_bias := true
  no_penalties := true
  all_random := true
  min_p := true
  top_k := true
  top_p := true
  q_samples := false

namespace SamplingMetadata

variable {T : Type}

-- The features of the batch, as the metadata name them.
theorem base_unused_iff (b : InputBatch T) (outs : OutRef → List Token)
    (batch_vocab_size padded_num_reqs : Nat) :
    ((base b outs batch_vocab_size padded_num_reqs).no_logit_bias = true ∧
    (base b outs batch_vocab_size padded_num_reqs).no_bad_words = true ∧
    (base b outs batch_vocab_size padded_num_reqs).no_min_tokens = true) ↔
    (∀ i < b.num_reqs, b.logit_bias i = none) ∧ b.bad_words_token_ids.keys = [] ∧
      ∀ e ∈ b.min_tokens.entries, e.1 < padded_num_reqs →
        e.2.1 ≤ (b.outputs outs e.1).length := by
  simp [base]

variable {b b' : InputBatch T} {outs : OutRef → List Token}
  {batch_vocab_size padded_num_reqs vocab_size : Nat} {md : SamplingMetadata}

theorem with_params_traced
    (h : returns_early b (base b outs batch_vocab_size padded_num_reqs) = false) :
    (with_params b outs padded_num_reqs (some vocab_size)
      (base b outs batch_vocab_size padded_num_reqs)).1.traced =
    some
      { no_allowed_token_ids := b.no_allowed_token_ids
        no_min_tokens := (base b outs batch_vocab_size padded_num_reqs).no_min_tokens
        no_bad_words := (base b outs batch_vocab_size padded_num_reqs).no_bad_words
        no_logit_bias := (base b outs batch_vocab_size padded_num_reqs).no_logit_bias
        no_penalties := b.no_penalties
        all_random := b.all_random
        min_p := true
        top_k := true
        top_p := true
        q_samples := !b.generators.keys.isEmpty } := by
  have hallowed : (base b outs batch_vocab_size padded_num_reqs).no_allowed_token_ids =
    b.no_allowed_token_ids := rfl
  unfold returns_early at h
  generalize base b outs batch_vocab_size padded_num_reqs = md₀ at *
  unfold with_params
  cases hp : b.no_penalties with
  | false => by_cases hg : b.generators.keys = [] <;> simp [traced, hallowed, hg]
  | true =>
      simp only [hp, hallowed, Bool.and_true] at h
      simp only [traced, Bool.not_not, hallowed, Bool.and_true]
      rw [if_neg (by simpa using h)]
      by_cases hg : b.generators.keys = [] <;> simp [hg]

-- The graph of a step's sampler is one of those of the warm-up.
theorem traced_iff (h : from_input_batch b outs batch_vocab_size padded_num_reqs
      (some vocab_size) = some (md, b')) :
    (md.traced = none ∨ md.traced = some SamplerGraph.random) ↔
      b.Uniform outs padded_num_reqs := by
  have hmd := congrArg Prod.fst (from_input_batch_eq h)
  have hunused := base_unused_iff b outs batch_vocab_size padded_num_reqs
  have hallowed : (base b outs batch_vocab_size padded_num_reqs).no_allowed_token_ids =
    b.no_allowed_token_ids := rfl
  dsimp only at hmd
  cases he : returns_early b (base b outs batch_vocab_size padded_num_reqs) with
  | true =>
      rw [he, if_pos rfl] at hmd
      simp only [returns_early, Bool.and_eq_true, List.isEmpty_iff, hallowed] at he
      obtain ⟨⟨⟨⟨⟨⟨h1, h2⟩, h3⟩, h4⟩, h5⟩, h6⟩, h7⟩ := he
      obtain ⟨u1, u2, u3⟩ := hunused.mp ⟨h3, h4, h6⟩
      refine iff_of_true (.inl ?_) ⟨.inl h1, h2, u1, u2, h5, u3, h7⟩
      rw [hmd]
      simp only [traced, h3, h4, h6, hallowed, h5, Bool.and_true, Bool.and_eq_true,
        ite_eq_left_iff, reduceCtorEq, imp_false, not_not]
      exact ⟨⟨rfl, rfl⟩, rfl⟩
  | false =>
      rw [he, if_neg Bool.false_ne_true] at hmd
      rw [hmd, with_params_traced he]
      simp only [SamplerGraph.random, reduceCtorEq, false_or, Option.some.injEq,
        SamplerGraph.mk.injEq, true_and, Bool.not_eq_false', List.isEmpty_iff]
      constructor
      · rintro ⟨h5, h6, h4, h3, h2, h1, h7⟩
        obtain ⟨u1, u2, u3⟩ := hunused.mp ⟨h3, h4, h6⟩
        exact ⟨.inr h1, h2, u1, u2, h5, u3, h7⟩
      · rintro ⟨h1, h2, u1, u2, h5, u3, h7⟩
        obtain ⟨h3, h4, h6⟩ := hunused.mpr ⟨u1, u2, u3⟩
        rcases h1 with h1 | h1
        · -- the early return
          simp [returns_early, h1, h2, h3, h4, h5, h6, h7, hallowed] at he
        · exact ⟨h5, h6, h4, h3, h2, h1, h7⟩

-- The metadata of an empty batch.
theorem generating_init {memory : InputBatch T}
    (h : from_input_batch_generating (.init memory) outs batch_vocab_size padded_num_reqs
      (some vocab_size) = some (md, b')) :
    { md with all_greedy := false : SamplingMetadata }.traced = some SamplerGraph.random ∧
      b' = pad_sampling (.init memory) padded_num_reqs := by
  unfold from_input_batch_generating at h
  simp only [Option.bind_eq_bind, Option.bind_eq_some_iff] at h
  obtain ⟨-, -, -, -, h⟩ := h
  cases h
  constructor
  · simp [traced, base, InputBatch.no_penalties, InputBatch.no_allowed_token_ids,
      InputBatch.all_random, InputBatch.init, InputBatch.num_reqs, SamplerGraph.random]
  · rfl

theorem padded_init {memory : InputBatch T}
    (h : from_input_batch (pad_sampling (.init memory) padded_num_reqs) outs batch_vocab_size
      padded_num_reqs (some vocab_size) = some (md, b')) :
    { md with all_greedy := true : SamplingMetadata }.traced = none := by
  have hmd := from_input_batch_eq h
  dsimp only at hmd
  rw [if_pos (by rfl)] at hmd
  cases hmd
  rfl

end SamplingMetadata

-- The calls that the warm-up compiles.
def WarmupConfig.Captured (cfg : WarmupConfig) : CompiledCall → Prop
  | .model num_tokens num_users num_cols num_positions =>
      num_tokens ∈ cfg.num_tokens_paddings ∧ num_positions = num_users ∧
        ((num_users = cfg.num_reqs_max_model_len ∧ num_cols = cfg.max_num_blocks_per_req) ∨
          (cfg.num_reqs_most_model_len = some num_users ∧
            cfg.num_blocks_per_most_len_req = some num_cols))
  | .select_hidden_states num_tokens num_seqs =>
      num_tokens ∈ cfg.num_tokens_paddings ∧ num_seqs = cfg.max_num_reqs
  | .compute_logits num_seqs => num_seqs = cfg.max_num_reqs
  | .structured_decode num_seqs => num_seqs = cfg.max_num_reqs
  | .sample_from_logits num_seqs graph =>
      cfg.cpu_sampling = false ∧ num_seqs = cfg.max_num_reqs ∧
        (graph = none ∨ graph = some SamplerGraph.random)
  | .gather_logprobs num_seqs => num_seqs = cfg.max_num_reqs

namespace Runner

section Capture

variable {T : Type} {cfg : WarmupConfig} {memory : InputBatch T} {rs rs' : Runner T}
  {calls : List CompiledCall}

theorem precompile_sample_from_logits_init (h0 : rs.input_batch = .init memory)
    (h : _precompile_sample_from_logits cfg rs = some (calls, rs')) :
    calls = [.sample_from_logits cfg.max_num_reqs (some SamplerGraph.random),
      .sample_from_logits cfg.max_num_reqs none] := by
  unfold _precompile_sample_from_logits at h
  rw [h0] at h
  simp only [Option.bind_eq_bind, Option.bind_eq_some_iff] at h
  obtain ⟨⟨random, b₁⟩, h1, ⟨greedy, b₂⟩, h2, h⟩ := h
  cases h
  obtain ⟨hrandom, rfl⟩ := SamplingMetadata.generating_init h1
  rw [hrandom, SamplingMetadata.padded_init h2]

theorem mem_precompile_backbone (cfg : WarmupConfig) (call : CompiledCall) :
    call ∈ _precompile_backbone cfg ↔ ∃ num_tokens ∈ cfg.num_tokens_paddings,
      call = .model num_tokens cfg.num_reqs_max_model_len cfg.max_num_blocks_per_req
          cfg.num_reqs_max_model_len ∨
        ∃ num_reqs num_blocks, cfg.num_reqs_most_model_len = some num_reqs ∧
          cfg.num_blocks_per_most_len_req = some num_blocks ∧
          call = .model num_tokens num_reqs num_blocks num_reqs := by
  simp only [_precompile_backbone, _dummy_run, List.mem_flatMap, List.mem_cons]
  cases cfg.num_reqs_most_model_len with
  | none => simp
  | some num_reqs =>
      cases cfg.num_blocks_per_most_len_req with
      | none => simp
      | some num_blocks => simp

-- The warm-up starts with an empty batch.
theorem mem_capture_model (h0 : rs.input_batch = .init memory)
    (h : capture_model cfg rs = some (calls, rs')) (call : CompiledCall) :
    call ∈ calls ↔ cfg.Captured call := by
  unfold capture_model at h
  simp only [Option.bind_eq_bind, Option.bind_eq_some_iff] at h
  obtain ⟨⟨sampling, rs₁⟩, hs, h⟩ := h
  cases h
  have hsampling : call ∈ sampling ↔ cfg.cpu_sampling = false ∧
      (call = .sample_from_logits cfg.max_num_reqs (some SamplerGraph.random) ∨
        call = .sample_from_logits cfg.max_num_reqs none) := by
    split at hs <;> rename_i hcpu
    · cases hs
      simp [hcpu]
    · rw [precompile_sample_from_logits_init h0 hs]
      simp [hcpu]
  simp only [List.mem_append, hsampling, mem_precompile_backbone,
    _precompile_select_hidden_states, _precompile_compute_logits,
    _precompile_structured_decoding, _precompile_gather_logprobs, List.mem_map,
    List.mem_singleton]
  cases call with
  | model num_tokens num_users num_cols num_positions =>
      simp only [CompiledCall.model.injEq, reduceCtorEq, and_false, exists_false, or_false,
        or_self, WarmupConfig.Captured]
      constructor
      · rintro ⟨_, hmem, ⟨rfl, rfl, rfl, rfl⟩ | ⟨_, _, hu, hc, rfl, rfl, rfl, rfl⟩⟩
        · exact ⟨hmem, rfl, .inl ⟨rfl, rfl⟩⟩
        · exact ⟨hmem, rfl, .inr ⟨hu, hc⟩⟩
      · rintro ⟨hmem, rfl, ⟨rfl, rfl⟩ | ⟨hu, hc⟩⟩
        · exact ⟨_, hmem, .inl ⟨rfl, rfl, rfl, rfl⟩⟩
        · exact ⟨_, hmem, .inr ⟨_, _, hu, hc, rfl, rfl, rfl, rfl⟩⟩
  | select_hidden_states num_tokens num_seqs =>
      simp [WarmupConfig.Captured, eq_comm (a := num_seqs)]
  | compute_logits num_seqs => simp [WarmupConfig.Captured]
  | structured_decode num_seqs => simp [WarmupConfig.Captured]
  | sample_from_logits num_seqs graph =>
      simp [WarmupConfig.Captured]
      tauto
  | gather_logprobs num_seqs => simp [WarmupConfig.Captured]

end Capture

section Steps

variable {T : Type} [BlockTable T] {κ H LP : Type} {cfg : WarmupConfig} {mode : OutOfRange}
  {model : Model κ H LP} {so : SchedulerOutput} {grammar_output : Option GrammarOutput}
  {rs rs' : Runner T} {k k' : κ}

-- The shape of the decoder's inputs is one of those of the warm-up.
theorem model_captured {start_index : Nat} {inp : ModelInputs}
    (hmost : ∀ len ∈ cfg.most_model_len, len ≤ cfg.max_model_len)
    (hmax : cfg.max_num_reqs ≤ cfg.max_num_tokens)
    (h : prepare_inputs cfg.toRunnerConfig rs so start_index = some (inp, rs')) :
    cfg.Captured (.model inp.padded_len inp.num_users inp.num_cols inp.cache_position.length) := by
  obtain ⟨counts, hp⟩ := prepare_inputs_spec cfg.toRunnerConfig h
  obtain ⟨m, -, hpadded⟩ := hp.padded_max
  have hle := cfg.num_reqs_limit_le counts
  refine ⟨List.mem_of_find?_eq_some hpadded, ?_, ?_⟩
  · rw [hp.cache_position, List.length_map, List.length_range, hp.num_users]
    omega
  · rw [hp.num_users, hp.num_cols]
    unfold BaseConfig.num_reqs_limit BaseConfig.num_blocks
    split
    · exact .inl ⟨rfl, rfl⟩
    · rename_i huse
      right
      unfold BaseConfig.use_max_model_len at huse
      unfold BaseConfig.num_reqs_most_model_len BaseConfig.num_blocks_per_most_len_req
      cases hlen : cfg.most_model_len with
      | none => rw [hlen] at huse; exact absurd rfl huse
      | some len =>
          have hmono : cdiv len cfg.block_size ≤ cfg.max_num_blocks_per_req :=
            Nat.div_le_div_right (by have := hmost len hlen; omega)
          simp only [Option.map_some, Option.getD_some, true_and, Nat.min_eq_left hmono]

theorem chunk_calls_inputs {start_index : Nat} {calls : List CompiledCall}
    (h : chunk_calls cfg mode model so grammar_output rs k start_index = some calls) :
    ∃ inp rs₁ si rs₂, prepare_inputs cfg.toRunnerConfig rs so start_index = some (inp, rs₁) ∧
      sampler_inputs cfg.toRunnerConfig rs₁ grammar_output = some (si, rs₂) ∧
      calls = execution_calls inp si := by
  obtain ⟨⟨inp, rs₁⟩, h1, h⟩ := Option.bind_eq_some_iff.mp h
  obtain ⟨⟨k₁, hidden⟩, -, h⟩ := Option.bind_eq_some_iff.mp h
  obtain ⟨picked, -, h⟩ := Option.bind_eq_some_iff.mp h
  obtain ⟨⟨si, rs₂⟩, h2, h⟩ := Option.bind_eq_some_iff.mp h
  cases h
  exact ⟨inp, rs₁, si, rs₂, h1, h2, rfl⟩

omit [BlockTable T] in
theorem sampler_inputs_metadata {cfg : RunnerConfig} {si : SamplerInputs}
    (h : sampler_inputs cfg rs grammar_output = some (si, rs')) :
    ∃ b, SamplingMetadata.from_input_batch rs.input_batch rs.outs cfg.vocab_size cfg.max_num_reqs
      (some cfg.vocab_size) = some (si.metadata, b) := by
  obtain ⟨⟨md, b⟩, hb, h⟩ := Option.bind_eq_some_iff.mp h
  cases grammar_output with
  | none => cases h; exact ⟨b, hb⟩
  | some g =>
      obtain ⟨bitmask, -, h⟩ := Option.bind_eq_some_iff.mp h
      cases h
      exact ⟨b, hb⟩

-- When an execution calls compiled graphs only.
def Covered (cfg : WarmupConfig) (rs : Runner T) : Prop :=
  cfg.max_num_reqs ≤ cfg.max_num_tokens ∧ cfg.cpu_sampling = false ∧
    rs.input_batch.Uniform rs.outs cfg.max_num_reqs

theorem chunk_calls_captured {start_index : Nat} {calls : List CompiledCall}
    (hmost : ∀ len ∈ cfg.most_model_len, len ≤ cfg.max_model_len)
    (h : chunk_calls cfg mode model so grammar_output rs k start_index = some calls) :
    (∀ call ∈ calls, cfg.Captured call) ↔ Covered cfg rs := by
  obtain ⟨inp, rs₁, si, rs₂, hprep, hsi, rfl⟩ := chunk_calls_inputs h
  obtain ⟨counts, hp⟩ := prepare_inputs_spec cfg.toRunnerConfig hprep
  obtain ⟨b, hmd⟩ := sampler_inputs_metadata hsi
  have htraced := SamplingMetadata.traced_iff hmd
  rw [hp.runner] at htraced
  have hseqs : inp.logits_indices.length = min cfg.max_num_reqs cfg.max_num_tokens := by
    rw [hp.logits_indices, List.length_map, List.length_range]
  constructor
  · intro hall
    obtain ⟨-, hselect⟩ := hall (.select_hidden_states inp.padded_len inp.logits_indices.length)
      (by simp [execution_calls])
    obtain ⟨hcpu, -, hgraph⟩ :=
      hall (.sample_from_logits inp.logits_indices.length si.metadata.traced)
        (by simp [execution_calls])
    exact ⟨by omega, hcpu, htraced.mp hgraph⟩
  · rintro ⟨hmax, hcpu, hu⟩ call hcall
    rw [Nat.min_eq_left hmax] at hseqs
    obtain ⟨hpadded, -⟩ := model_captured hmost hmax hprep
    unfold execution_calls at hcall
    simp only [List.mem_append, List.mem_cons, List.not_mem_nil, or_false, hseqs] at hcall
    rcases hcall with (((rfl | rfl | rfl) | hstructured) | rfl) | hlogprobs
    · exact model_captured hmost hmax hprep
    · exact ⟨hpadded, rfl⟩
    · rfl
    · split at hstructured
      · obtain rfl := List.mem_singleton.mp hstructured
        rfl
      · cases hstructured
    · exact ⟨hcpu, rfl, htraced.mpr hu⟩
    · split at hlogprobs
      · obtain rfl := List.mem_singleton.mp hlogprobs
        rfl
      · cases hlogprobs

-- An execution changes the buffers and the sampling arrays, and keeps what the graphs of the
-- next one depend on.
theorem execute_chunk_covered {start_index : Nat} {e : Execution LP}
    (h : execute_chunk cfg.toRunnerConfig mode model so grammar_output rs k start_index =
      some (e, rs', k')) : Covered cfg rs' ↔ Covered cfg rs := by
  obtain ⟨inp, rs₁, si, hprep, hsi, -⟩ := execute_chunk_inputs h
  obtain ⟨counts, hp⟩ := prepare_inputs_spec cfg.toRunnerConfig hprep
  obtain ⟨⟨md, b⟩, hb, hsi⟩ := Option.bind_eq_some_iff.mp hsi
  have hrs : rs'.input_batch = b ∧ rs'.outs = rs.outs := by
    rw [hp.runner] at hsi
    cases grammar_output with
    | none => cases hsi; exact ⟨rfl, rfl⟩
    | some g =>
        obtain ⟨bitmask, -, hsi⟩ := Option.bind_eq_some_iff.mp hsi
        cases hsi
        exact ⟨rfl, rfl⟩
  obtain ⟨te, mi, tk, tp, pr, fr, re, rfl⟩ := SamplingMetadata.from_input_batch_batch hb
  have hu : rs'.input_batch.Uniform rs'.outs cfg.max_num_reqs ↔
      rs.input_batch.Uniform rs.outs cfg.max_num_reqs := by
    rw [hrs.1, hrs.2, hp.runner]
    constructor
    · rintro ⟨h1, h2, h3, h4, h5, h6, h7⟩
      exact ⟨h1, h2, h3, h4, h5, h6, h7⟩
    · rintro ⟨h1, h2, h3, h4, h5, h6, h7⟩
      exact ⟨h1, h2, h3, h4, h5, h6, h7⟩
  unfold Covered
  rw [hu]

theorem chunks_calls_captured (hmost : ∀ len ∈ cfg.most_model_len, len ≤ cfg.max_model_len)
    (fuel : Nat) {start_index : Nat} {calls : List CompiledCall}
    (h : chunks_calls cfg mode model so grammar_output fuel rs k start_index = some calls) :
    (∀ call ∈ calls, cfg.Captured call) ↔
      rs.input_batch.num_reqs ≤ start_index ∨ Covered cfg rs := by
  induction fuel generalizing rs k start_index calls with
  | zero =>
      unfold chunks_calls at h
      split at h
      · cases h
      · cases h
        simp
        omega
  | succ fuel ih =>
      unfold chunks_calls at h
      split at h
      · rename_i hlt
        obtain ⟨first, h1, h⟩ := Option.bind_eq_some_iff.mp h
        obtain ⟨⟨e, rs₁, k₁⟩, h2, h⟩ := Option.bind_eq_some_iff.mp h
        obtain ⟨rest, h3, h⟩ := Option.bind_eq_some_iff.mp h
        cases h
        simp only [List.mem_append, or_imp, forall_and]
        rw [chunk_calls_captured hmost h1, ih h3, execute_chunk_covered h2]
        constructor
        · exact fun h => .inr h.1
        · rintro (h | h)
          · omega
          · exact ⟨h, .inr h⟩
      · cases h
        simp
        omega

-- The calls of a step are among those of the warm-up exactly when the batch is uniform.
theorem step_calls_captured_iff {memory : InputBatch T} {rs₀ rs₁ : Runner T}
    {captured calls : List CompiledCall}
    (hmost : ∀ len ∈ cfg.most_model_len, len ≤ cfg.max_model_len)
    (h0 : rs₀.input_batch = .init memory)
    (hcapture : capture_model cfg rs₀ = some (captured, rs₁))
    (h : scheduled_calls cfg mode model so grammar_output rs k = some calls) :
    (∀ call ∈ calls, call ∈ captured) ↔
      rs.input_batch.num_reqs = 0 ∨
        (cfg.max_num_reqs ≤ cfg.max_num_tokens ∧ cfg.cpu_sampling = false ∧
          rs.input_batch.Uniform rs.outs cfg.max_num_reqs) := by
  simp only [mem_capture_model h0 hcapture]
  obtain ⟨chunks, hchunks, h⟩ := Option.bind_eq_some_iff.mp h
  cases h
  have hprompt : ∀ call ∈ prompt_logprobs_calls cfg so { rs with scheduler_output := none },
      cfg.Captured call := by
    intro call hcall
    obtain ⟨e, -, he⟩ := List.mem_flatMap.mp hcall
    split at he
    · obtain ⟨i, -, hi⟩ := List.mem_flatMap.mp he
      rcases List.mem_cons.mp hi with rfl | hi
      · rfl
      · obtain rfl := List.mem_singleton.mp hi
        rfl
    · cases he
  have hiff := chunks_calls_captured hmost _ hchunks
  rw [Nat.le_zero] at hiff
  simp only [List.mem_append, or_imp, forall_and]
  exact (and_iff_left hprompt).trans hiff

end Steps

section Example

def warmTwoRows : WarmupConfig := { twoRows with cpu_sampling := false }

def twoRowsCaptured : List CompiledCall × Runner DenseTable :=
  (capture_model warmTwoRows (init oneGroup)).get (by decide)

def oneStepCalls : List CompiledCall :=
  (scheduled_calls warmTwoRows .raise constant onePrompt none oneStep.1 ()).get (by decide)

theorem oneStep_calls_captured :
    oneStepCalls ≠ [] ∧ ∀ call ∈ oneStepCalls, call ∈ twoRowsCaptured.1 := by
  have hcapture : capture_model warmTwoRows (init oneGroup) =
      some (twoRowsCaptured.1, twoRowsCaptured.2) := by
    rw [Prod.mk.eta, twoRowsCaptured, Option.some_get]
  have hcalls : scheduled_calls warmTwoRows .raise constant onePrompt none oneStep.1 () =
      some oneStepCalls := by
    rw [oneStepCalls, Option.some_get]
  refine ⟨by decide, (step_calls_captured_iff (by decide) rfl hcapture hcalls).mpr
    (.inr ⟨by decide, rfl, ?_⟩)⟩
  exact ⟨by decide, by decide, by decide, by decide, by decide, by decide, by decide⟩

end Example

end Runner

end TTXla.VllmTT
