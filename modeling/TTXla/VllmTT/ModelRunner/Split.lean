import TTXla.VllmTT.ModelRunner.Chunks

-- A step that is split into several executions, against one execution of the whole batch.
namespace TTXla.VllmTT

-- One row of the sampling metadata.
structure SamplingMetadataRow where
  temperature : Option ℚ
  min_p : Option ℚ
  top_k : Option Int
  top_p : Option ℚ
  output_token_counts : Option (Token → Nat)
  prompt_token_mask : Option (Token → Bool)
  presence_penalties : Option ℚ
  frequency_penalties : Option ℚ
  repetition_penalties : Option ℚ
  min_tokens_mask : Option (Token → Bool)
  logit_bias_tensor : Option (Token → ℚ)
  bad_words_mask : Option (Token → Bool)
  allowed_token_ids_mask : Option (Token → Bool)
  q_samples : Option (Option Generator)

def SamplingMetadata.row (md : SamplingMetadata) (i : Nat) : SamplingMetadataRow where
  temperature := md.temperature.map fun t => t i
  min_p := md.min_p.map fun t => t i
  top_k := md.top_k.map fun t => t i
  top_p := md.top_p.map fun t => t i
  output_token_counts := md.output_token_counts.map fun t => t i
  prompt_token_mask := md.prompt_token_mask.map fun t => t i
  presence_penalties := md.presence_penalties.map fun t => t i
  frequency_penalties := md.frequency_penalties.map fun t => t i
  repetition_penalties := md.repetition_penalties.map fun t => t i
  min_tokens_mask := md.min_tokens_mask.map fun t => t i
  logit_bias_tensor := md.logit_bias_tensor.map fun t => t i
  bad_words_mask := md.bad_words_mask.map fun t => t i
  allowed_token_ids_mask := md.allowed_token_ids_mask.map fun t => t i
  q_samples := md.q_samples.map fun t => t i

-- What the model and the sampler receive for a request with `n` tokens in row `i` of an
-- execution.
structure RowInputs where
  input_ids : List Token
  position_ids : List Nat
  cache_position : Option Int
  page_table : List Nat
  metadata : SamplingMetadataRow
  grammar_bitmask : Option (Option (List Nat))

-- The sampler picks one token for each row, and the logprobs are gathered for each row.
structure Model.Lawful {κ H LP : Type} (model : Model κ H LP) : Prop where
  sample_length : ∀ picked metadata grammar_bitmask,
    (model.sample picked metadata grammar_bitmask).length = picked.length
  gather_length : ∀ picked tokens, (model.gather_logprobs picked tokens).length = picked.length

namespace Runner

variable {T : Type} [BlockTable T] {κ H LP : Type}

def rowInputs (inp : ModelInputs) (si : SamplerInputs) (n i : Nat) : RowInputs where
  input_ids := (List.range n).map (inp.input_ids i)
  position_ids := (List.range n).map (inp.position_ids i)
  cache_position := inp.cache_position[i]?
  page_table := (List.range inp.num_cols).map (inp.page_table i)
  metadata := si.metadata.row i
  grammar_bitmask := si.grammar_bitmask.map fun bitmask => bitmask i

-- The step gives each request what one execution of the whole batch gives it, in one of its
-- executions, and returns its results in the order of the batch rows.
structure SplitAgrees (cfg : RunnerConfig) (mode : OutOfRange) (model : Model κ H LP)
    (so : SchedulerOutput) (grammar_output : Option GrammarOutput) (rs : Runner T) (k : κ)
    (counts : List Nat) (out : ModelRunnerOutput LP) : Prop where
  inputs : ∃ inp rs₁ si rs₂,
    prepare_inputs_upto cfg List.length rs so 0 = some (inp, rs₁) ∧
    sampler_inputs cfg rs₁ grammar_output = some (si, rs₂) ∧
    ∀ rs₃ k₃ start_index inp' rs₄ si' rs₅,
      InLoop cfg mode model so grammar_output rs k rs₃ k₃ start_index →
      prepare_inputs cfg rs₃ so start_index = some (inp', rs₄) →
      sampler_inputs cfg rs₄ grammar_output = some (si', rs₅) →
      ∀ (i n : Nat), start_index ≤ i → i < inp'.end_index → counts[i]? = some n →
        rowInputs inp' si' n (i - start_index) = rowInputs inp si n i
  once : ∀ i < rs.input_batch.num_reqs, ∃! start_index, ∃ rs₃ k₃ e rs₄ k₄,
    InLoop cfg mode model so grammar_output rs k rs₃ k₃ start_index ∧
    execute_chunk cfg mode model so grammar_output rs₃ k₃ start_index =
      some ((e, rs₄, k₄) : Execution LP × Runner T × κ) ∧
    start_index ≤ i ∧ i < e.end_index
  length : out.sampled_token_ids.length = rs.input_batch.num_reqs
  results : ∀ rs₃ k₃ start_index e rs₄ k₄,
    InLoop cfg mode model so grammar_output rs k rs₃ k₃ start_index →
    execute_chunk cfg mode model so grammar_output rs₃ k₃ start_index =
      some ((e, rs₄, k₄) : Execution LP × Runner T × κ) →
    ∀ i : Nat, start_index ≤ i → i < e.end_index →
      -- the token of a partial request is cleared
      (∃ token, e.tokens[i - start_index]? = some token ∧
        (out.sampled_token_ids[i]? = some [token] ∨ out.sampled_token_ids[i]? = some [])) ∧
      ∀ logprobs, e.logprobs = some logprobs → ∃ lists entry, out.logprobs = some lists ∧
        logprobs[i - start_index]? = some entry ∧ lists[i]? = some entry

-- No two scheduled requests have the same row in the page table: a block that holds the
-- last token of a request belongs to no other request.
def DistinctRows (cfg : RunnerConfig) (rs : Runner T) (counts : List Nat) : Prop :=
  ∀ i i', i < i' → i' < rs.input_batch.num_reqs → ∃ j < cfg.num_blocks counts,
    BlockTable.entry rs.input_batch.block_table 0 i j ≠
      BlockTable.entry rs.input_batch.block_table 0 i' j

variable {cfg : RunnerConfig} {mode : OutOfRange} {model : Model κ H LP} {so : SchedulerOutput}
  {grammar_output : Option GrammarOutput} {rs rs' : Runner T} {k k' : κ} {counts : List Nat}

-- Raising a limit that is not reached keeps a call from failing.
theorem prepare_inputs_upto_raise {limit limit' : List Nat → Nat} {start_index : Nat}
    {inp : ModelInputs} (hc : scheduled_counts rs.input_batch so start_index = some counts)
    (hlimit : counts.length ≤ limit counts) (hlimit' : counts.length ≤ limit' counts)
    (h : prepare_inputs_upto cfg limit rs so start_index = some (inp, rs')) :
    ∃ inp' rs'', prepare_inputs_upto cfg limit' rs so start_index = some (inp', rs'') := by
  unfold prepare_inputs_upto at h ⊢
  simp only [Option.bind_eq_bind, Option.bind_eq_some_iff, Options.guard_eq_some] at h
  obtain ⟨-, h1, -, h2, -, h3, all_counts, hall, m, hm, -, h4, p, hp, -, h5, -, h6, -, h7,
    lora, h8, -⟩ := h
  obtain rfl : counts = all_counts := Option.some.inj (hc.symm.trans hall)
  rw [List.take_of_length_le hlimit] at hm h5 h6 h8
  simp only [hall, Option.bind_eq_bind, Option.bind_some, List.take_of_length_le hlimit', hm, hp,
    guard, h1, h2, h3, h4, h6, h7, ite_true]
  rw [if_pos h5]
  simp only [Option.pure_def, Option.bind_some]
  rw [h8]
  exact ⟨_, _, rfl⟩

-- The metadata does not depend on the buffers of an execution.
omit [BlockTable T] in
theorem sampler_inputs_congr {rs₁ rs₂ rs₁' : Runner T} {si : SamplerInputs}
    (hb : rs₁'.input_batch = rs₁.input_batch) (ho : rs₁'.outs = rs₁.outs)
    (h : sampler_inputs cfg rs₁ grammar_output = some (si, rs₂)) :
    ∃ rs₂', sampler_inputs cfg rs₁' grammar_output = some (si, rs₂') := by
  unfold sampler_inputs at h ⊢
  rw [hb, ho]
  obtain ⟨⟨md, b⟩, hmd, h⟩ := Option.bind_eq_some_iff.mp h
  rw [hmd]
  cases grammar_output with
  | none =>
      cases h
      exact ⟨_, rfl⟩
  | some g =>
      obtain ⟨bitmask, hmask, h⟩ := Option.bind_eq_some_iff.mp h
      cases h
      simp only [Option.bind_eq_bind, Option.bind_some] at hmask ⊢
      rw [hmask]
      exact ⟨_, rfl⟩

-- The rows that a request is given do not depend on a limit that is not reached.
theorem rowInputs_eq {limit limit' : List Nat → Nat} {rs₁ rs₁' : Runner T}
    {inp inp' : ModelInputs} (si : SamplerInputs)
    (h : PreparedUpto cfg limit rs so 0 inp rs₁ counts)
    (h' : PreparedUpto cfg limit' rs so 0 inp' rs₁' counts)
    (hlimit : counts.length ≤ limit counts) (hlimit' : counts.length ≤ limit' counts)
    {i n : Nat} (hi : counts[i]? = some n) : rowInputs inp si n i = rowInputs inp' si n i := by
  have ht := List.take_of_length_le hlimit
  have ht' := List.take_of_length_le hlimit'
  have hlt := (List.getElem?_eq_some_iff.mp hi).1
  have hnum : inp.num_reqs = counts.length := by rw [h.num_reqs]; omega
  have hnum' : inp'.num_reqs = counts.length := by rw [h'.num_reqs]; omega
  have hmax := h.num_reqs_le
  have hrun := h.runner
  have hrun' := h'.runner
  rw [ht] at hrun
  rw [ht'] at hrun'
  unfold rowInputs
  congr 1
  · refine List.map_congr_left fun j hj => ?_
    have hj := List.mem_range.mp hj
    rw [h.input_ids i n j (by rwa [ht]) hj, h'.input_ids i n j (by rwa [ht']) hj]
  · refine List.map_congr_left fun j hj => ?_
    have hj := List.mem_range.mp hj
    rw [h.position_ids i n j (by rwa [ht]) hj, h'.position_ids i n j (by rwa [ht']) hj]
  · have hu := h.num_users
    have hu' := h'.num_users
    rw [h.cache_position, h'.cache_position, List.getElem?_map, List.getElem?_map,
      List.getElem?_range (by omega), List.getElem?_range (by omega), hnum, hnum', hrun, hrun']
    simp only [Option.map_some, fill_buffers, hlt, ite_true]
  · rw [h.num_cols, h'.num_cols]
    refine List.map_congr_left fun j hj => ?_
    have hj := List.mem_range.mp hj
    have hcols : inp.num_cols = cfg.num_blocks counts := h.num_cols
    have hcols' : inp'.num_cols = cfg.num_blocks counts := h'.num_cols
    rw [h.page_table, h'.page_table, hrun, hrun', hcols, hcols']
    simp only [fill_buffers, hlt, hj, and_self, ite_true]

theorem InLoop.start_of_zero {rs₃ : Runner T} {k₃ : κ} {start_index : Nat}
    (h : InLoop cfg mode model so grammar_output rs k rs₃ k₃ start_index)
    (h0 : start_index = 0) : rs₃ = rs ∧ k₃ = k := by
  cases h with
  | start => exact ⟨rfl, rfl⟩
  | next _ hstep =>
      have := (execute_chunk_end hstep).1
      omega

-- How many results an execution has.
theorem execute_chunk_lengths (hm : model.Lawful) {start_index : Nat} {e : Execution LP}
    (h : execute_chunk cfg mode model so grammar_output rs k start_index = some (e, rs', k')) :
    e.tokens.length = e.end_index - start_index ∧
      ∀ logprobs, e.logprobs = some logprobs → e.end_index - start_index ≤ logprobs.length := by
  obtain ⟨⟨inp, rs₁⟩, h1, h⟩ := Option.bind_eq_some_iff.mp h
  obtain ⟨⟨k₁, hidden⟩, -, h⟩ := Option.bind_eq_some_iff.mp h
  obtain ⟨picked, hpicked, h⟩ := Option.bind_eq_some_iff.mp h
  obtain ⟨⟨si, rs₂⟩, h2, h⟩ := Option.bind_eq_some_iff.mp h
  cases h
  obtain ⟨all_counts, hp⟩ := prepare_inputs_spec cfg h1
  have hend := hp.end_index
  have hnum := hp.num_reqs
  obtain ⟨hidx, -⟩ := logits_index_eq hp rfl
  rw [List.length_take, ← hnum] at hidx
  have hlen : picked.length = inp.logits_indices.length := by
    have := (Options.getElem?_of_mapM hpicked).1
    rwa [List.length_range] at this
  constructor
  · rw [List.length_take, hm.sample_length]
    dsimp only
    omega
  · intro logprobs hl
    dsimp only at hl ⊢
    split at hl
    · cases hl
      rw [hm.gather_length]
      omega
    · cases hl

theorem discard_all_spec (indices : List Nat) {sampled valid : List (List Token)}
    (h : indices.foldlM discard_token sampled = some valid) :
    valid.length = sampled.length ∧
      ∀ i < sampled.length, valid[i]? = sampled[i]? ∨ valid[i]? = some [] := by
  induction indices generalizing sampled with
  | nil =>
      cases h
      exact ⟨rfl, fun i _ => Or.inl rfl⟩
  | cons j indices ih =>
      rw [List.foldlM_cons] at h
      obtain ⟨mid, hmid, hrest⟩ := Option.bind_eq_some_iff.mp h
      unfold discard_token at hmid
      split at hmid
      · cases hmid
        obtain ⟨i1, i2⟩ := ih hrest
        rw [List.length_set] at i1 i2
        refine ⟨i1, fun i hi => ?_⟩
        rcases i2 i hi with he | he
        · by_cases hij : j = i
          · subst hij
            right
            rw [he, List.getElem?_set_self hi]
          · left
            rw [he, List.getElem?_set_ne hij]
        · exact Or.inr he
      · cases hmid

-- What the step returns, in terms of its executions.
theorem sample_scheduled_eq {out : ModelRunnerOutput LP}
    (h : sample_scheduled cfg mode model grammar_output rs k so = some (out, rs', k')) :
    0 < rs.input_batch.num_reqs ∧ ∃ es rs₁,
      execute_chunks cfg mode model so grammar_output rs.input_batch.num_reqs
        { rs with scheduler_output := none } k 0 = some (es, rs₁, k') ∧
      out.logprobs = (es.mapM Execution.logprobs).map List.flatten ∧
      out.sampled_token_ids.length = (es.flatMap Execution.tokens).length ∧
      ∀ (i : Nat) (token : Token), (es.flatMap Execution.tokens)[i]? = some token →
        out.sampled_token_ids[i]? = some [token] ∨ out.sampled_token_ids[i]? = some [] := by
  unfold sample_scheduled at h
  simp only [Option.bind_eq_bind, Option.bind_eq_some_iff, Options.guard_eq_some] at h
  obtain ⟨-, hpos, ⟨es, rs₁, k₁⟩, h1, ⟨valid, rs₂⟩, h2, h⟩ := h
  cases h
  unfold append_tokens at h2
  simp only [Option.bind_eq_bind, Option.bind_eq_some_iff] at h2
  obtain ⟨seq_lens, -, valid', hvalid, last, -, h2⟩ := h2
  cases h2
  obtain ⟨d1, d2⟩ := discard_all_spec _ hvalid
  rw [List.length_map] at d1 d2
  refine ⟨hpos, es, rs₁, h1, rfl, d1, fun i token hi => ?_⟩
  have hlt := (List.getElem?_eq_some_iff.mp hi).1
  rcases d2 i hlt with he | he
  · left
    rw [he, List.getElem?_map, hi]
    rfl
  · exact Or.inr he

theorem execute_chunks_of_le (fuel : Nat) {start_index : Nat}
    (h : rs.input_batch.num_reqs ≤ start_index) :
    execute_chunks cfg mode model so grammar_output fuel rs k start_index = some ([], rs, k) := by
  cases fuel with
  | zero => rw [execute_chunks, if_neg (by omega)]
  | succ fuel => rw [execute_chunks, if_neg (by omega)]

-- The first of several executions, and the loop after it.
theorem execute_chunks_of_lt (fuel : Nat) {start_index : Nat} {es : List (Execution LP)}
    (hlt : start_index < rs.input_batch.num_reqs)
    (h : execute_chunks cfg mode model so grammar_output fuel rs k start_index =
      some (es, rs', k')) :
    ∃ fuel' e es' rs₁ k₁, es = e :: es' ∧
      execute_chunk cfg mode model so grammar_output rs k start_index = some (e, rs₁, k₁) ∧
      execute_chunks cfg mode model so grammar_output fuel' rs₁ k₁ e.end_index =
        some (es', rs', k') := by
  cases fuel with
  | zero =>
      rw [execute_chunks, if_pos hlt] at h
      cases h
  | succ fuel =>
      rw [execute_chunks, if_pos hlt] at h
      obtain ⟨⟨e, rs₁, k₁⟩, h1, h⟩ := Option.bind_eq_some_iff.mp h
      obtain ⟨⟨es', rs₂, k₂⟩, h2, h⟩ := Option.bind_eq_some_iff.mp h
      cases h
      exact ⟨fuel, e, es', rs₁, k₁, rfl, h1, h2⟩

-- A loop whose first execution takes all the rows starts no other one.
theorem InLoop.first {rs₃ rs₄ : Runner T} {k₃ : κ} {start_index : Nat} {inp : ModelInputs}
    (h : InLoop cfg mode model so grammar_output rs k rs₃ k₃ start_index)
    (hc : scheduled_counts rs.input_batch so 0 = some counts)
    (hle : counts.length ≤ cfg.num_reqs_limit counts)
    (hprep : prepare_inputs cfg rs₃ so start_index = some (inp, rs₄)) :
    start_index = 0 ∧ rs₃ = rs ∧ k₃ = k := by
  obtain ⟨all_counts, hp⟩ := prepare_inputs_spec cfg hprep
  have hlt := hp.start_lt
  have hnum : rs₃.input_batch.num_reqs = rs.input_batch.num_reqs :=
    congrArg (fun d => d.keys.length) h.sameRequests.index
  have hzero : start_index = 0 := by
    refine (h.single fun counts' hc' => ?_).resolve_right (by omega)
    obtain rfl := Option.some.inj (hc.symm.trans hc')
    exact hle
  exact ⟨hzero, h.start_of_zero hzero⟩

-- The only execution of a step that is not split.
theorem single_execution {es : List (Execution LP)}
    (hc : scheduled_counts rs.input_batch so 0 = some counts)
    (hle : counts.length ≤ cfg.num_reqs_limit counts) (hpos : 0 < rs.input_batch.num_reqs)
    (h : execute_chunks cfg mode model so grammar_output rs.input_batch.num_reqs rs k 0 =
      some (es, rs', k')) :
    ∃ e, es = [e] ∧ e.end_index = rs.input_batch.num_reqs ∧
      execute_chunk cfg mode model so grammar_output rs k 0 = some (e, rs', k') := by
  obtain ⟨fuel, e, es', rs₁, k₁, rfl, hchunk, hrest⟩ := execute_chunks_of_lt _ hpos h
  obtain ⟨inp, rs₂, si, hprep, -, hend⟩ := execute_chunk_inputs hchunk
  obtain ⟨all_counts, hp⟩ := prepare_inputs_spec cfg hprep
  obtain rfl : counts = all_counts := Option.some.inj (hc.symm.trans hp.scheduled)
  have hnum := (getElem?_scheduled_counts hc).1
  have hall : e.end_index = rs.input_batch.num_reqs := by
    have := hp.end_index
    have := hp.num_reqs
    omega
  have hidx := (execute_chunk_sameRequests hchunk).index
  rw [execute_chunks_of_le _ (by rw [InputBatch.num_reqs, hidx, hall, InputBatch.num_reqs])]
    at hrest
  cases hrest
  exact ⟨e, rfl, hall, hchunk⟩

-- The inputs of a step that is not split are those of one execution of the whole batch.
theorem single_inputs {inp : ModelInputs} {si : SamplerInputs} {rs₁ : Runner T}
    (hc : scheduled_counts rs.input_batch so 0 = some counts)
    (hle : counts.length ≤ cfg.num_reqs_limit counts)
    (hprep : prepare_inputs cfg rs so 0 = some (inp, rs₁))
    (hsi : sampler_inputs cfg rs₁ grammar_output = some (si, rs')) :
    ∃ inp₀ rs₂ rs₃, prepare_inputs_upto cfg List.length rs so 0 = some (inp₀, rs₂) ∧
      sampler_inputs cfg rs₂ grammar_output = some (si, rs₃) ∧
      ∀ (i n : Nat), counts[i]? = some n → rowInputs inp si n i = rowInputs inp₀ si n i := by
  obtain ⟨all_counts, hp⟩ := prepare_inputs_spec cfg hprep
  obtain rfl : counts = all_counts := Option.some.inj (hc.symm.trans hp.scheduled)
  have hself : counts.length ≤ List.length counts := Nat.le_refl _
  obtain ⟨inp₀, rs₂, hprep₀⟩ := prepare_inputs_upto_raise hc hle hself hprep
  obtain ⟨all_counts, hp₀⟩ := prepare_inputs_upto_spec cfg hprep₀
  obtain rfl : counts = all_counts := Option.some.inj (hc.symm.trans hp₀.scheduled)
  have hb : rs₂.input_batch = rs₁.input_batch := by rw [hp₀.runner, hp.runner]; rfl
  have ho : rs₂.outs = rs₁.outs := by rw [hp₀.runner, hp.runner]; rfl
  obtain ⟨rs₃, hsi₀⟩ := sampler_inputs_congr hb ho hsi
  exact ⟨inp₀, rs₂, rs₃, hprep₀, hsi₀, fun i n hi => rowInputs_eq si hp hp₀ hle hself hi⟩

theorem splitAgrees_of_single (hm : model.Lawful) {out : ModelRunnerOutput LP}
    (hc : scheduled_counts rs.input_batch so 0 = some counts)
    (hle : counts.length ≤ cfg.num_reqs_limit counts)
    (h : sample_scheduled cfg mode model grammar_output rs k so = some (out, rs', k')) :
    SplitAgrees cfg mode model so grammar_output { rs with scheduler_output := none } k counts
      out := by
  obtain ⟨hpos, es, rs₁, h1, hlp, hlen, htok⟩ := sample_scheduled_eq h
  generalize hrs : { rs with scheduler_output := none } = rs₀ at *
  have hb : rs₀.input_batch = rs.input_batch := by rw [← hrs]
  rw [← hb] at hc hpos h1
  obtain ⟨e, rfl, hall, hchunk⟩ := single_execution hc hle hpos h1
  obtain ⟨inp, rs₃, si, hprep, hsi, hend⟩ := execute_chunk_inputs hchunk
  obtain ⟨inp₀, rs₄, rs₅, hprep₀, hsi₀, hrows⟩ := single_inputs hc hle hprep hsi
  obtain ⟨hl1, hl2⟩ := execute_chunk_lengths hm hchunk
  rw [List.flatMap_singleton] at hlen htok
  refine ⟨⟨inp₀, rs₄, si, rs₅, hprep₀, hsi₀, ?_⟩, fun i hi => ⟨0, ?_, ?_⟩, ?_, ?_⟩
  · intro rs₆ k₆ start_index inp' rs₇ si' rs₈ hloop hprep' hsi' i n hlo hhi hn
    obtain ⟨rfl, rfl, rfl⟩ := hloop.first hc hle hprep'
    rw [hprep] at hprep'
    cases hprep'
    rw [hsi] at hsi'
    cases hsi'
    exact hrows i n hn
  · exact ⟨rs₀, k, e, rs₁, k', .start, hchunk, Nat.zero_le i, by rwa [hall]⟩
  · rintro start_index ⟨rs₆, k₆, e', rs₇, k₇, hloop, hstep, -⟩
    obtain ⟨inp', rs₈, si', hprep', -⟩ := execute_chunk_inputs hstep
    exact (hloop.first hc hle hprep').1
  · rw [hlen, hl1, hall, Nat.sub_zero]
  · intro rs₆ k₆ start_index e' rs₇ k₇ hloop hstep i hlo hhi
    obtain ⟨inp', rs₈, si', hprep', -⟩ := execute_chunk_inputs hstep
    obtain ⟨rfl, rfl, rfl⟩ := hloop.first hc hle hprep'
    rw [hchunk] at hstep
    cases hstep
    rw [Nat.sub_zero] at hl1 hl2 ⊢
    constructor
    · have hi : e.tokens[i]? = some e.tokens[i] := List.getElem?_eq_getElem (by omega)
      exact ⟨_, hi, htok i _ hi⟩
    · intro logprobs hl
      have hlen := hl2 logprobs hl
      refine ⟨logprobs, logprobs[i], ?_, List.getElem?_eq_getElem (by omega),
        List.getElem?_eq_getElem (by omega)⟩
      rw [hlp, List.mapM_cons, hl]
      simp

-- When the step is split, the second execution reads the page table from row 0 again.
theorem single_of_splitAgrees {out : ModelRunnerOutput LP}
    (hc : scheduled_counts rs.input_batch so 0 = some counts)
    (h : sample_scheduled cfg mode model grammar_output rs k so = some (out, rs', k'))
    (hrows : DistinctRows cfg rs counts)
    (hsplit : SplitAgrees cfg mode model so grammar_output { rs with scheduler_output := none } k
      counts out) : counts.length ≤ cfg.num_reqs_limit counts := by
  by_contra hlt
  obtain ⟨hpos, es, rs₁, h1, -⟩ := sample_scheduled_eq h
  generalize hrs : { rs with scheduler_output := none } = rs₀ at *
  have hb : rs₀.input_batch = rs.input_batch := by rw [← hrs]
  unfold DistinctRows at hrows
  rw [← hb] at hc hpos h1 hrows
  have hnum := (getElem?_scheduled_counts hc).1
  obtain ⟨fuel, e, es', rs₂, k₂, -, hchunk, hrest⟩ := execute_chunks_of_lt _ hpos h1
  obtain ⟨inp, rs₃, si, hprep, -, hend⟩ := execute_chunk_inputs hchunk
  obtain ⟨all_counts, hp⟩ := prepare_inputs_spec cfg hprep
  obtain rfl : counts = all_counts := Option.some.inj (hc.symm.trans hp.scheduled)
  have hchunk_end := execute_chunk_end hchunk
  have hlimit : e.end_index = cfg.num_reqs_limit counts := by
    have := hp.end_index
    have := hp.num_reqs
    omega
  -- the second execution
  have hsame := execute_chunk_sameRequests hchunk
  have hnum₂ : rs₂.input_batch.num_reqs = rs₀.input_batch.num_reqs :=
    congrArg (fun d => d.keys.length) hsame.index
  obtain ⟨fuel', e', es'', rs₄, k₄, -, hchunk', -⟩ := execute_chunks_of_lt _ (by omega) hrest
  obtain ⟨inp', rs₅, si', hprep', hsi', hend'⟩ := execute_chunk_inputs hchunk'
  obtain ⟨all_counts', hp'⟩ := prepare_inputs_spec cfg hprep'
  have hlt' := (execute_chunk_end hchunk').1
  obtain ⟨inp₀, rs₆, si₀, rs₇, hprep₀, -, hinputs⟩ := hsplit.inputs
  obtain ⟨all_counts₀, hp₀⟩ := prepare_inputs_upto_spec cfg hprep₀
  obtain rfl : counts = all_counts₀ := Option.some.inj (hc.symm.trans hp₀.scheduled)
  have hlast : e.end_index < counts.length := by omega
  have heq := hinputs rs₂ k₂ e.end_index inp' rs₅ si' rs₄ (.next .start hchunk) hprep' hsi'
    e.end_index _ (Nat.le_refl _) (by omega) (List.getElem?_eq_getElem hlast)
  have htable := congrArg RowInputs.page_table heq
  simp only [rowInputs, Nat.sub_self] at htable
  have hcols : inp'.num_cols = inp₀.num_cols := by simpa using congrArg List.length htable
  obtain ⟨j, hj, hne⟩ := hrows 0 e.end_index (by omega) (by omega)
  have hj₀ : j < inp₀.num_cols := by rw [hp₀.num_cols]; exact hj
  rw [hcols] at htable
  have hentry : inp'.page_table 0 j = inp₀.page_table e.end_index j :=
    List.map_inj_left.mp htable j (List.mem_range.mpr hj₀)
  have hpos' : 0 < inp'.num_reqs := by have := hp'.end_index; omega
  rw [hp'.page_table, hp'.runner, hp₀.page_table, hp₀.runner] at hentry
  rw [hp'.num_reqs] at hpos'
  simp only [fill_buffers, List.length_take, hpos', hcols, hj₀, and_self, ite_true,
    List.take_length, hlast, hsame.block_table] at hentry
  exact hne hentry

end Runner

end TTXla.VllmTT
