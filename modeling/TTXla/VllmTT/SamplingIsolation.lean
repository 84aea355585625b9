import TTXla.VllmTT.InputBatch.Sampling
import TTXla.VllmTT.UpdateStates.Theorems

-- The sampling state over sequences of batch operations.
namespace TTXla.VllmTT

open InputBatch

variable {T : Type} [BlockTable T]

-- The batch between two operations: the vacant rows that are yet to be filled or
-- compacted, and the state that each request was added with.
structure BatchState (T : Type) where
  batch : InputBatch T
  empty_req_indices : List Nat
  owner : ReqId → Option CachedRequestState

inductive BatchOp where
  | remove_request (req_id : ReqId)
  | add_request (outs : OutRef → List Token) (request : CachedRequestState)
  | condense
  | swap_states (i1 i2 : Nat)
  | from_input_batch (outs : OutRef → List Token) (padded_num_reqs : Nat)
      (vocab_size : Option Nat)

namespace BatchState

def init (memory : InputBatch T) : BatchState T := ⟨.init memory, [], fun _ => none⟩

def step [SwapDictValues] (cfg : RunnerConfig) (s : BatchState T) :
    BatchOp → Option (BatchState T)
  | .remove_request req_id => do
      let (req_index, b) ← s.batch.remove_request cfg.batch req_id
      return { s with
        batch := b
        empty_req_indices := sortedDesc (s.empty_req_indices ++ req_index.toList) }
  | .add_request outs request => do
      let (req_index, empty_req_indices) := popLast s.empty_req_indices
      let b ← s.batch.add_request cfg.batch outs request req_index
      return ⟨b, empty_req_indices, Function.update s.owner request.req_id (some request)⟩
  | .condense =>
      some { s with
        batch := if s.empty_req_indices ≠ [] then s.batch.condense s.empty_req_indices
          else s.batch
        empty_req_indices := [] }
  | .swap_states i1 i2 => do
      let b ← s.batch.swap_states i1 i2
      return { s with batch := b }
  | .from_input_batch outs padded_num_reqs vocab_size => do
      let (_, b) ← SamplingMetadata.from_input_batch s.batch outs cfg.vocab_size
        padded_num_reqs vocab_size
      return { s with batch := b }

-- How `_update_states` and the sampler use the batch: a request is added that is not in
-- it, has sampling parameters and fits in a row, and the metadata is built once no row is
-- vacant.
def Proper (cfg : RunnerConfig) (s : BatchState T) : BatchOp → Prop
  | .add_request outs request => request.req_id ∉ s.batch.req_id_to_index ∧
      request.sampling_params.isSome ∧ request.num_tokens outs ≤ cfg.max_model_len
  | .from_input_batch _ _ _ => s.empty_req_indices = []
  | _ => True

-- The row a request goes to holds no bias and no mask that the request does not set, and
-- two rows are exchanged only when their masks agree.
def CleanStep (s : BatchState T) : BatchOp → Prop
  | .add_request _ request => ∀ sp ∈ request.sampling_params,
      Clean sp (s.batch.samplingRow (s.empty_req_indices.getLast?.getD s.batch.num_reqs))
  | .swap_states i1 i2 => s.batch.maskRow i1 = s.batch.maskRow i2
  | _ => True

-- The metadata row of a request; a tensor that is not built has no effect.
structure MetadataFor (cfg : RunnerConfig) (md : SamplingMetadata) (vocab_size : Option Nat)
    (i : Nat) (st : CachedRequestState) (sp : SamplingParams) (past : List Token) : Prop where
  temperature : ∀ t ∈ md.temperature, t i = (samplingOf cfg.batch st sp).temperature
  greedy : md.temperature = none → sp.sampling_type = .GREEDY
  min_p : ∀ t ∈ md.min_p, t i = sp.min_p
  top_k : ∀ t ∈ md.top_k, t i = (samplingOf cfg.batch st sp).top_k
  top_p : ∀ t ∈ md.top_p, t i = sp.top_p
  presence_penalties : ∀ t ∈ md.presence_penalties, t i = sp.presence_penalty
  frequency_penalties : ∀ t ∈ md.frequency_penalties, t i = sp.frequency_penalty
  repetition_penalties : ∀ t ∈ md.repetition_penalties, t i = sp.repetition_penalty
  no_penalties : md.no_penalties = true →
    sp.presence_penalty = 0 ∧ sp.frequency_penalty = 0 ∧ sp.repetition_penalty = 1
  output_token_counts : ∀ t ∈ md.output_token_counts, ∀ token, t i token = past.count token
  logit_bias : ∀ token, (md.logit_bias_tensor.map fun t => t i token).getD 0 =
    SamplingMetadata.logit_bias_row sp.logit_bias token
  bad_words : ∀ token, (md.bad_words_mask.map fun t => t i token).getD false =
    SamplingMetadata.bad_words_row cfg.vocab_size (badWordsOf sp) past token
  allowed_token_ids : ∀ token,
    (md.allowed_token_ids_mask.map fun t => t i token).getD false = maskOf sp token
  min_tokens : ∀ token, (md.min_tokens_mask.map fun t => t i token).getD false =
    SamplingMetadata.min_tokens_row cfg.vocab_size (minTokensOf sp) past token
  generator : vocab_size.isSome → md.q_samples.bind (fun t => t i) = st.generator

-- Every row and every metadata row is determined by the request in the row.
def Isolated (cfg : RunnerConfig) (s : BatchState T) : Prop :=
  ∀ (id : ReqId) (i : Nat), s.batch.req_id_to_index.lookup id = some i →
    ∃ st sp, s.owner id = some st ∧ st.sampling_params = some sp ∧
      s.batch.samplingRow i = samplingOf cfg.batch st sp ∧
      s.batch.setsRow id = setsOf cfg.batch sp ∧
      ∀ outs padded_num_reqs vocab_size md b, s.empty_req_indices = [] →
        i < padded_num_reqs →
        SamplingMetadata.from_input_batch s.batch outs cfg.vocab_size padded_num_reqs
          vocab_size = some (md, b) →
        MetadataFor cfg md vocab_size i st sp (outs st.output_token_ids)

-- The output list of a request, as its row names it.
def outRef (b : InputBatch T) (id : ReqId) : Option OutRef :=
  (b.rowOf id).bind Row.output_token_ids

theorem outRef_eq (b : InputBatch T) (id : ReqId) : outRef b id =
    ((b.req_id_to_index.lookup id).map fun j => (b.req_output_token_ids[j]?).join).join := by
  unfold outRef rowOf
  cases b.req_id_to_index.lookup id <;> rfl

structure Inv (cfg : RunnerConfig) (s : BatchState T) : Prop where
  holes : s.batch.Holes s.empty_req_indices
  ascending : s.empty_req_indices.reverse.Pairwise (· < ·)
  vacated : s.batch.Vacated
  absent : ∀ id, id ∉ s.batch.req_id_to_index → s.batch.setsRow id = .absent
  rows : ∀ id, id ∈ s.batch.req_id_to_index → ∃ st sp, s.owner id = some st ∧
    st.sampling_params = some sp ∧ s.batch.sampling id = some (samplingOf cfg.batch st sp) ∧
    s.batch.setsRow id = setsOf cfg.batch sp ∧ outRef s.batch id = some st.output_token_ids

theorem Inv.full {cfg : RunnerConfig} {s : BatchState T} (h : Inv cfg s)
    (he : s.empty_req_indices = []) : s.batch.Full := by
  have := h.holes
  rwa [he] at this

theorem inv_init (cfg : RunnerConfig) (memory : InputBatch T) : Inv cfg (init memory) where
  holes := full_init memory
  ascending := List.Pairwise.nil
  vacated := fun i _ => ⟨by simp [init, InputBatch.init, samplingRow],
    by simp [init, InputBatch.init, samplingRow], by simp [init, InputBatch.init, samplingRow]⟩
  absent := fun id _ => by
    ext1 <;> simp [init, InputBatch.init, setsRow, SetsRow.absent]
  rows := fun id hid => by simp [init, InputBatch.init] at hid

theorem inv_remove_request (cfg : RunnerConfig) {s : BatchState T} (h : Inv cfg s)
    {id : ReqId} {r : Option Nat} {b : InputBatch T}
    (hr : s.batch.remove_request cfg.batch id = some (r, b)) :
    Inv cfg { s with
      batch := b
      empty_req_indices := sortedDesc (s.empty_req_indices ++ r.toList) } := by
  obtain ⟨h1, -, h2, h3, h4⟩ := holes_remove_request cfg.batch h.holes hr
  obtain ⟨v1, v2, v3⟩ := sampling_remove_request cfg.batch rfl h.holes h.vacated hr
    (h.absent id)
  have hperm := sortedDesc_perm (s.empty_req_indices ++ r.toList)
  refine ⟨⟨h1.indexed, hperm.nodup_iff.mpr h1.nodup, fun i => by rw [h1.vacant, hperm.mem_iff],
    by rw [hperm.length_eq]; exact h1.count⟩, sortedDesc_ascending h1.nodup, v1,
    fun k hk => ?_, fun k hk => ?_⟩
  · rw [Dict.mem_iff_of_lookup (h2 k), not_and_not_right] at hk
    rw [v3]
    split
    · rfl
    · rename_i hne
      exact h.absent k fun hm => hne (hk hm)
  · obtain ⟨hm, hne⟩ := (Dict.mem_iff_of_lookup (h2 k)).mp hk
    obtain ⟨st, sp, r1, r2, r3, r4, r5⟩ := h.rows k hm
    refine ⟨st, sp, r1, r2, ?_, ?_, ?_⟩
    · rw [v2, if_neg hne]; exact r3
    · rw [v3, if_neg hne]; exact r4
    · unfold outRef
      rw [h4, if_neg hne]
      exact r5

theorem inv_add_request (cfg : RunnerConfig) {s : BatchState T} (h : Inv cfg s)
    {outs : OutRef → List Token} {st : CachedRequestState} {b : InputBatch T}
    (hproper : Proper cfg s (.add_request outs st)) (hclean : CleanStep s (.add_request outs st))
    (hr : s.batch.add_request cfg.batch outs st s.empty_req_indices.getLast? = some b) :
    Inv cfg ⟨b, s.empty_req_indices.dropLast,
      Function.update s.owner st.req_id (some st)⟩ := by
  obtain ⟨hid, hsome, hfit⟩ := hproper
  obtain ⟨sp, hsp⟩ := Option.isSome_iff_exists.mp hsome
  obtain ⟨a1, -, a3, -, r, a5, a6⟩ := holes_add_request cfg.batch outs h.holes hid hfit hr
  obtain ⟨v1, v2, v3⟩ := sampling_add_request cfg.batch outs h.holes h.vacated hsp hid
    (h.absent _ hid) hr (hclean sp hsp)
  refine ⟨a1, ?_, v1, fun k hk => ?_, fun k hk => ?_⟩
  · have := h.ascending
    rw [List.pairwise_reverse] at this ⊢
    exact this.sublist (List.dropLast_sublist _)
  · rw [a3, not_or] at hk
    rw [v3, if_neg hk.1]
    exact h.absent k hk.2
  · rw [a3] at hk
    by_cases hks : k = st.req_id
    · subst hks
      refine ⟨st, sp, by simp, hsp, by rw [v2, if_pos rfl], by rw [v3, if_pos rfl], ?_⟩
      unfold outRef
      rw [a6, if_pos rfl]
      exact a5.output_token_ids
    · obtain ⟨st', sp', r1, r2, r3, r4, r5⟩ := h.rows k (hk.resolve_left hks)
      refine ⟨st', sp', by simp [hks, r1], r2, ?_, ?_, ?_⟩
      · rw [v2, if_neg hks]; exact r3
      · rw [v3, if_neg hks]; exact r4
      · unfold outRef
        rw [a6, if_neg hks]
        exact r5

theorem inv_condense (cfg : RunnerConfig) {s : BatchState T} (h : Inv cfg s) :
    Inv cfg { s with
      batch := if s.empty_req_indices ≠ [] then s.batch.condense s.empty_req_indices
        else s.batch
      empty_req_indices := [] } := by
  split
  · obtain ⟨c1, c2, c3, c4, c5⟩ := condense_spec h.holes h.ascending
    obtain ⟨v1, v2, v3⟩ := sampling_condense h.holes h.ascending h.vacated
    refine ⟨c1, List.Pairwise.nil, v1, fun k hk => ?_, fun k hk => ?_⟩
    · rw [v3]
      exact h.absent k fun hm => hk ((c3 k).mpr hm)
    · obtain ⟨st, sp, r1, r2, r3, r4, r5⟩ := h.rows k ((c3 k).mp hk)
      refine ⟨st, sp, r1, r2, (v2 k).trans r3, (v3 k).trans r4, ?_⟩
      unfold outRef
      rw [c5]
      exact r5
  · rename_i he
    rw [not_not] at he
    exact ⟨he ▸ h.holes, List.Pairwise.nil, h.vacated, h.absent, h.rows⟩

theorem inv_swap_states [SwapDictValues] (cfg : RunnerConfig) {s : BatchState T}
    (h : Inv cfg s) {i1 i2 : Nat} {b : InputBatch T}
    (hclean : CleanStep s (.swap_states i1 i2)) (hr : s.batch.swap_states i1 i2 = some b) :
    Inv cfg { s with batch := b } := by
  obtain ⟨-, -, -, -, -, -, -, hsets, hrow⟩ := swap_states_eq h.holes.indexed hr
  obtain ⟨hholes, hmem, hmove, hout, hvac⟩ := holes_swap_states h.holes hr
  -- with equal masks the second row is the first one, moved
  have hrow' : ∀ j, b.samplingRow j = if j = i2 then s.batch.samplingRow i1
      else if j = i1 then s.batch.samplingRow i2 else s.batch.samplingRow j := by
    intro j
    rw [hrow]
    have hmask : s.batch.maskRow i1 = s.batch.maskRow i2 := hclean
    rw [← hmask]
    rfl
  refine ⟨hholes, h.ascending, fun j hj => ?_, fun k hk => ?_, fun k hk => ?_⟩
  · obtain ⟨hj1, hj2, hfree⟩ := hvac j hj
    rw [hrow', if_neg hj2, if_neg hj1]
    exact h.vacated j hfree
  · rw [hsets]
    exact h.absent k fun hm => hk ((hmem k).mpr hm)
  · obtain ⟨st, sp, r1, r2, r3, r4, r5⟩ := h.rows k ((hmem k).mp hk)
    refine ⟨st, sp, r1, r2, ?_, (hsets k).trans r4, ?_⟩
    · rw [← r3]
      exact hmove _ _ _ hrow' k
    · rw [outRef_eq] at r5 ⊢
      rw [← r5]
      exact congrArg Option.join (hmove _ _ _ hout k)

section Metadata

variable {cfg : RunnerConfig} {b b' : InputBatch T} {outs : OutRef → List Token}
  {padded_num_reqs : Nat} {vocab_size : Option Nat} {md : SamplingMetadata}

omit [BlockTable T] in
-- The arrays change in the padding rows only.
theorem with_params_frame (md₀ : SamplingMetadata) :
    let b' := (SamplingMetadata.with_params b outs padded_num_reqs vocab_size md₀).2
    b'.req_ids = b.req_ids ∧ b'.req_id_to_index = b.req_id_to_index ∧
      b'.req_output_token_ids = b.req_output_token_ids ∧ (∀ k, b'.setsRow k = b.setsRow k) ∧
      (∀ i < b.num_reqs, b'.samplingRow i = b.samplingRow i) ∧
      ∀ i, Unkeyed (b.samplingRow i) → Unkeyed (b'.samplingRow i) := by
  have hslice : ∀ {α : Type} (a : Nat → α) (v : α) (i : Nat), i < b.num_reqs →
      SamplingMetadata.fill_slice b.num_reqs padded_num_reqs a v i = a i := fun a v i hi =>
    if_neg (by omega)
  unfold SamplingMetadata.with_params
  dsimp only
  split <;> refine ⟨rfl, rfl, rfl, fun _ => rfl, fun i hi => ?_, fun i hu => ⟨hu.1, hu.2, hu.3⟩⟩
  all_goals
    ext1 <;> first | rfl | exact hslice _ _ i hi

omit [BlockTable T] in
theorem from_input_batch_frame (h : SamplingMetadata.from_input_batch b outs cfg.vocab_size
    padded_num_reqs vocab_size = some (md, b')) :
    b'.req_ids = b.req_ids ∧ b'.req_id_to_index = b.req_id_to_index ∧
      b'.req_output_token_ids = b.req_output_token_ids ∧ (∀ k, b'.setsRow k = b.setsRow k) ∧
      (∀ i < b.num_reqs, b'.samplingRow i = b.samplingRow i) ∧
      ∀ i, Unkeyed (b.samplingRow i) → Unkeyed (b'.samplingRow i) := by
  have heq := SamplingMetadata.from_input_batch_eq h
  dsimp only at heq
  split at heq
  · cases heq
    exact ⟨rfl, rfl, rfl, fun _ => rfl, fun _ _ => rfl, fun _ hu => hu⟩
  · obtain rfl : b' = _ := congrArg Prod.snd heq
    exact with_params_frame _

omit [BlockTable T] in
-- A mask that is not built has nothing to mask.
theorem base_bad_words (i : Nat) (token : Token) :
    ((SamplingMetadata.base b outs cfg.vocab_size padded_num_reqs).bad_words_mask.map
      fun t => t i token).getD false = SamplingMetadata.bad_words_row cfg.vocab_size
        (b.bad_words_token_ids.lookup i) (b.outputs outs i) token := by
  simp only [SamplingMetadata.base]
  split
  · rename_i hnone
    have : b.bad_words_token_ids.lookup i = none := by
      rw [AList.lookup_eq_none, AList.mem_keys, List.isEmpty_iff.mp hnone]
      exact List.not_mem_nil
    rw [this]
    rfl
  · rw [Option.map_some, Option.getD_some]

omit [BlockTable T] in
theorem base_min_tokens {i : Nat} (hp : i < padded_num_reqs) (token : Token) :
    ((SamplingMetadata.base b outs cfg.vocab_size padded_num_reqs).min_tokens_mask.map
      fun t => t i token).getD false = SamplingMetadata.min_tokens_row cfg.vocab_size
        (b.min_tokens.lookup i) (b.outputs outs i) token := by
  simp only [SamplingMetadata.base]
  split
  · rw [Option.map_some, Option.getD_some]
  · rename_i hbelow
    cases hl : b.min_tokens.lookup i with
    | none => rfl
    | some e =>
        have hmem := AList.mem_lookup_iff.mp hl
        rw [Bool.not_eq_true, List.any_eq_false] at hbelow
        have := hbelow _ hmem
        simp only [hp, decide_true, Bool.true_and, decide_eq_true_eq] at this
        simp [SamplingMetadata.min_tokens_row, this]

omit [BlockTable T] in
-- What the parts before the early return say of a row.
theorem base_row {st : CachedRequestState} {sp : SamplingParams} {id : ReqId} {i : Nat}
    (hi : i < b.num_reqs) (hp : i < padded_num_reqs)
    (hrow : b.samplingRow i = samplingOf cfg.batch st sp) (hsets : b.setsRow id = setsOf cfg.batch sp) :
    let md := SamplingMetadata.base b outs cfg.vocab_size padded_num_reqs
    (∀ token, (md.logit_bias_tensor.map fun t => t i token).getD 0 =
      SamplingMetadata.logit_bias_row sp.logit_bias token) ∧
    (∀ token, (md.bad_words_mask.map fun t => t i token).getD false =
      SamplingMetadata.bad_words_row cfg.vocab_size (badWordsOf sp) (b.outputs outs i) token) ∧
    (∀ token, (md.allowed_token_ids_mask.map fun t => t i token).getD false = maskOf sp token) ∧
    ∀ token, (md.min_tokens_mask.map fun t => t i token).getD false =
      SamplingMetadata.min_tokens_row cfg.vocab_size (minTokensOf sp) (b.outputs outs i) token := by
  have hbias : b.logit_bias i = sp.logit_bias := congrArg SamplingRow.logit_bias hrow
  have hmask : b.maskRow i = maskOf sp := congrArg SamplingRow.allowed_token_ids_mask hrow
  have hbad : b.bad_words_token_ids.lookup i = badWordsOf sp :=
    congrArg SamplingRow.bad_words_token_ids hrow
  have hmin : b.min_tokens.lookup i = minTokensOf sp := congrArg SamplingRow.min_tokens hrow
  have hallowed := congrArg SetsRow.has_allowed_token_ids hsets
  simp only [setsRow, setsOf, decide_eq_decide] at hallowed
  refine ⟨fun token => ?_, fun token => by rw [base_bad_words, hbad], fun token => ?_,
    fun token => by rw [base_min_tokens hp, hmin]⟩
  · simp only [SamplingMetadata.base]
    split
    · rename_i hnone
      have : b.logit_bias i = none := by
        rw [List.all_eq_true] at hnone
        simpa using hnone i (List.mem_range.mpr hi)
      rw [← hbias, this]
      rfl
    · simp only [Option.map_some, Option.getD_some, hi, ite_true, hbias]
  · simp only [SamplingMetadata.base]
    split
    · rename_i hnone
      have hno : id ∉ b.has_allowed_token_ids := by
        simp only [no_allowed_token_ids, decide_eq_true_eq, Finset.card_eq_zero] at hnone
        rw [hnone]
        exact Finset.notMem_empty id
      rw [hallowed, not_not] at hno
      simp [maskOf, hno]
    · rw [Option.map_some, Option.getD_some, hmask]

omit [BlockTable T] in
theorem metadataFor {st : CachedRequestState} {sp : SamplingParams} {id : ReqId} {i : Nat}
    (hi : i < b.num_reqs) (hp : i < padded_num_reqs)
    (hrow : b.samplingRow i = samplingOf cfg.batch st sp)
    (hsets : b.setsRow id = setsOf cfg.batch sp)
    (h : SamplingMetadata.from_input_batch b outs cfg.vocab_size padded_num_reqs vocab_size =
      some (md, b')) :
    MetadataFor cfg md vocab_size i st sp (b.outputs outs i) := by
  obtain ⟨m1, m2, m3, m4⟩ := @base_row T cfg b outs padded_num_reqs st sp id i hi hp hrow hsets
  have hrandom := congrArg SetsRow.random hsets
  have hpres := congrArg SetsRow.presence_penalties hsets
  have hfreq := congrArg SetsRow.frequency_penalties hsets
  have hrep := congrArg SetsRow.repetition_penalties hsets
  simp only [setsRow, setsOf, decide_eq_decide] at hrandom hpres hfreq hrep
  have hgen : b.generators.lookup i = st.generator := congrArg SamplingRow.generator hrow
  have hnopen : b.no_penalties = true →
      sp.presence_penalty = 0 ∧ sp.frequency_penalty = 0 ∧ sp.repetition_penalty = 1 := by
    intro hn
    simp only [no_penalties, Bool.and_eq_true, decide_eq_true_eq, Finset.card_eq_zero] at hn
    obtain ⟨⟨n1, n2⟩, n3⟩ := hn
    exact ⟨by simpa [n1] using hpres, by simpa [n2] using hfreq, by simpa [n3] using hrep⟩
  have hnogen : b.generators.keys.isEmpty = true → st.generator = none := by
    intro hn
    rw [← hgen, AList.lookup_eq_none, AList.mem_keys, List.isEmpty_iff.mp hn]
    exact List.not_mem_nil
  have heq := SamplingMetadata.from_input_batch_eq h
  dsimp only at heq
  split at heq
  · rename_i hearly
    cases heq
    simp only [SamplingMetadata.returns_early, Bool.and_eq_true] at hearly
    obtain ⟨⟨⟨⟨⟨⟨e1, e2⟩, -⟩, -⟩, -⟩, -⟩, e7⟩ := hearly
    have hgreedy : sp.sampling_type = .GREEDY := by
      simp only [all_greedy, decide_eq_true_eq, Finset.card_eq_zero] at e1
      rw [e1] at hrandom
      simpa using hrandom
    constructor
    case logit_bias => exact m1
    case bad_words => exact m2
    case allowed_token_ids => exact m3
    case min_tokens => exact m4
    case greedy => exact fun _ => hgreedy
    case no_penalties => exact fun _ => hnopen e2
    case generator => exact fun _ => (hnogen e7).symm
    all_goals intro t ht; cases ht
  · obtain rfl : md = _ := congrArg Prod.fst heq
    have hslice : ∀ {α : Type} (a : Nat → α) (v : α),
        SamplingMetadata.fill_slice b.num_reqs padded_num_reqs a v i = a i := fun a v =>
      if_neg (by omega)
    have hquery : ∀ n : Option Nat, n.isSome → (if (!b.generators.keys.isEmpty) && n.isSome then
        some fun i => b.generators.lookup i else none).bind (fun t => t i) = st.generator := by
      intro n hn
      cases hg : b.generators.keys.isEmpty with
      | true => simp [hnogen hg]
      | false => simp [hn, hgen]
    unfold SamplingMetadata.with_params
    dsimp only
    split
    · rename_i vocab_size hn
      refine ⟨?_, ?_, ?_, ?_, ?_, ?_, ?_, ?_, ?_, ?_, m1, m2, m3, m4, hquery _⟩
      · rintro _ ⟨⟩; exact (hslice _ _).trans (congrArg SamplingRow.temperature hrow)
      · intro hnone; cases hnone
      · rintro _ ⟨⟩; exact (hslice _ _).trans (congrArg SamplingRow.min_p hrow)
      · rintro _ ⟨⟩; exact (hslice _ _).trans (congrArg SamplingRow.top_k hrow)
      · rintro _ ⟨⟩; exact (hslice _ _).trans (congrArg SamplingRow.top_p hrow)
      · rintro _ ⟨⟩; exact (hslice _ _).trans (congrArg SamplingRow.presence_penalty hrow)
      · rintro _ ⟨⟩; exact (hslice _ _).trans (congrArg SamplingRow.frequency_penalty hrow)
      · rintro _ ⟨⟩; exact (hslice _ _).trans (congrArg SamplingRow.repetition_penalty hrow)
      · exact fun hb => hnopen hb
      · rintro _ ⟨⟩ token; rfl
    · refine ⟨?_, ?_, ?_, ?_, ?_, ?_, ?_, ?_, fun hb => hnopen hb, ?_,
        m1, m2, m3, m4, hquery _⟩
      · rintro _ ⟨⟩; exact (hslice _ _).trans (congrArg SamplingRow.temperature hrow)
      · intro hnone; cases hnone
      · rintro _ ⟨⟩; exact (hslice _ _).trans (congrArg SamplingRow.min_p hrow)
      · rintro _ ⟨⟩; exact (hslice _ _).trans (congrArg SamplingRow.top_k hrow)
      · rintro _ ⟨⟩; exact (hslice _ _).trans (congrArg SamplingRow.top_p hrow)
      all_goals intro t ht; cases ht

end Metadata

theorem inv_from_input_batch (cfg : RunnerConfig) {s : BatchState T} (h : Inv cfg s)
    {outs : OutRef → List Token} {padded_num_reqs : Nat} {vocab_size : Option Nat}
    {md : SamplingMetadata} {b : InputBatch T} (hfull : s.empty_req_indices = [])
    (hr : SamplingMetadata.from_input_batch s.batch outs cfg.vocab_size padded_num_reqs
      vocab_size = some (md, b)) :
    Inv cfg { s with batch := b } := by
  obtain ⟨f1, f2, f3, f4, f5, f6⟩ := from_input_batch_frame hr
  have hholes : b.Holes s.empty_req_indices :=
    ⟨⟨by rw [f1, f2]; exact h.holes.indexed.inverse, by rw [f1, f3]; exact h.holes.indexed.length⟩,
      h.holes.nodup, fun i => by rw [f1]; exact h.holes.vacant i,
      by rw [num_reqs, f1, f2]; exact h.holes.count⟩
  have hs : ∀ k, b.sampling k = s.batch.sampling k := by
    intro k
    unfold sampling
    rw [f2]
    cases hk : s.batch.req_id_to_index.lookup k with
    | none => rfl
    | some i =>
        have hlt : i < s.batch.num_reqs := (h.full hfull).lt_num_reqs hk
        rw [Option.map_some, Option.map_some, f5 i hlt]
  refine ⟨hholes, h.ascending, fun i hi => f6 i (h.vacated i (by rwa [f2] at hi)),
    fun k hk => ?_, fun k hk => ?_⟩
  · rw [f4]
    exact h.absent k (by rwa [f2] at hk)
  · obtain ⟨st, sp, r1, r2, r3, r4, r5⟩ := h.rows k (by rwa [f2] at hk)
    refine ⟨st, sp, r1, r2, (hs k).trans r3, (f4 k).trans r4, ?_⟩
    rw [outRef_eq] at r5 ⊢
    rw [f2, f3]
    exact r5

theorem inv_step [SwapDictValues] (cfg : RunnerConfig) {s s' : BatchState T} {op : BatchOp}
    (h : Inv cfg s) (hproper : Proper cfg s op) (hclean : CleanStep s op)
    (hstep : s.step cfg op = some s') : Inv cfg s' := by
  cases op with
  | remove_request id =>
      obtain ⟨⟨r, b⟩, hr, he⟩ := Option.bind_eq_some_iff.mp hstep
      cases he
      exact inv_remove_request cfg h hr
  | add_request outs st =>
      simp only [step, Runner.popLast_eq] at hstep
      obtain ⟨b, hr, he⟩ := Option.bind_eq_some_iff.mp hstep
      cases he
      exact inv_add_request cfg h hproper hclean hr
  | condense =>
      cases hstep
      exact inv_condense cfg h
  | swap_states i1 i2 =>
      obtain ⟨b, hr, he⟩ := Option.bind_eq_some_iff.mp hstep
      cases he
      exact inv_swap_states cfg h hclean hr
  | from_input_batch outs padded_num_reqs vocab_size =>
      obtain ⟨⟨md, b⟩, hr, he⟩ := Option.bind_eq_some_iff.mp hstep
      cases he
      exact inv_from_input_batch cfg h hproper hr

theorem Inv.isolated {cfg : RunnerConfig} {s : BatchState T} (h : Inv cfg s) :
    Isolated cfg s := by
  intro id i hi
  obtain ⟨st, sp, r1, r2, r3, r4, r5⟩ := h.rows id ((Dict.mem_iff _ _).mpr ⟨i, hi⟩)
  have hrow : s.batch.samplingRow i = samplingOf cfg.batch st sp := by
    rw [sampling, hi] at r3
    exact Option.some.inj r3
  refine ⟨st, sp, r1, r2, hrow, r4, fun outs padded_num_reqs vocab_size md b he hp hmd => ?_⟩
  have hlt : i < s.batch.num_reqs := (h.full he).lt_num_reqs hi
  have hout : s.batch.outputs outs i = outs st.output_token_ids := by
    rw [outRef_eq, hi] at r5
    have hr : (s.batch.req_output_token_ids[i]?).join = some st.output_token_ids := r5
    rw [outputs, hr]
  exact hout ▸ metadataFor hlt hp hrow r4 hmd

section Example

open Runner

instance (cfg : RunnerConfig) (s : BatchState T) (op : BatchOp) : Decidable (Proper cfg s op) :=
  match op with
  | .remove_request _ => inferInstanceAs (Decidable True)
  | .add_request _ _ => inferInstanceAs (Decidable (_ ∧ _ ∧ _))
  | .condense => inferInstanceAs (Decidable True)
  | .swap_states _ _ => inferInstanceAs (Decidable True)
  | .from_input_batch _ _ _ => inferInstanceAs (Decidable (_ = _))

def addGreedy (req_id : ReqId) (logit_bias : Option (Dict Token ℚ)) : BatchOp :=
  .add_request (fun _ => []) { new_state 0 (newReq req_id [7] [1]) greedy with
    sampling_params := some { greedy with logit_bias := logit_bias } }

-- The second request has a bias. When the first leaves, compaction moves the second into
-- its row and leaves the bias in the old one, where the third request finds it.
def biasLeak : List BatchOp :=
  [addGreedy "A" none, addGreedy "B" (some (AList.singleton 5 10)), .remove_request "A",
    .condense, addGreedy "C" none]

def afterBiasLeak : BatchState DenseTable :=
  (Run.exec (step twoRows) (Proper twoRows) (init oneGroup) biasLeak).get (by decide)

-- A vacated row is clean for the request that takes it over directly.
def withBias : BatchState DenseTable :=
  ((init oneGroup).step twoRows (addGreedy "A" (some (AList.singleton 5 10)))).get (by decide)

def afterRemoval : BatchState DenseTable :=
  (withBias.step twoRows (.remove_request "A")).get (by decide)

def afterRefill : BatchState DenseTable :=
  (afterRemoval.step twoRows (addGreedy "C" none)).get (by decide)

theorem withBias_step : (init oneGroup).step twoRows
    (addGreedy "A" (some (AList.singleton 5 10))) = some withBias := (Option.some_get _).symm

theorem afterRemoval_step :
    withBias.step twoRows (.remove_request "A") = some afterRemoval := (Option.some_get _).symm

theorem afterRefill_step : afterRemoval.step twoRows (addGreedy "C" none) = some afterRefill :=
  (Option.some_get _).symm

end Example

end BatchState

end TTXla.VllmTT
