import TTXla.VllmTT.InputBatch.Rows

namespace TTXla.VllmTT

-- `XLASupportedSamplingMetadata`. A tensor is a function of the batch row; the masks
-- hold where the float tensor holds -inf. A row of `q_samples` is known by the generator
-- that fills it, and `none` stands for the global one.
structure SamplingMetadata where
  temperature : Option (Nat → ℚ) := none
  min_p : Option (Nat → ℚ) := none
  top_k : Option (Nat → Int) := none
  top_p : Option (Nat → ℚ) := none
  all_greedy : Bool := true
  all_random : Bool := false
  logprobs : Bool := false
  no_penalties : Bool := true
  output_token_counts : Option (Nat → Token → Nat) := none
  prompt_token_mask : Option (Nat → Token → Bool) := none
  presence_penalties : Option (Nat → ℚ) := none
  frequency_penalties : Option (Nat → ℚ) := none
  repetition_penalties : Option (Nat → ℚ) := none
  no_min_tokens : Bool := true
  min_tokens_mask : Option (Nat → Token → Bool) := none
  no_logit_bias : Bool := true
  logit_bias_tensor : Option (Nat → Token → ℚ) := none
  no_bad_words : Bool := true
  bad_words_mask : Option (Nat → Token → Bool) := none
  no_allowed_token_ids : Bool := true
  allowed_token_ids_mask : Option (Nat → Token → Bool) := none
  no_generators : Bool := true
  q_samples : Option (Nat → Option Generator) := none

-- `DEFAULT_SAMPLING_PARAMS`.
structure DefaultSamplingParams where
  temperature : ℚ := -1
  min_p : ℚ := 0
  -- strictly disabled for now
  top_k : Int := 0
  top_p : ℚ := 1
  frequency_penalties : ℚ := 0
  presence_penalties : ℚ := 0
  repetition_penalties : ℚ := 1

def DEFAULT_SAMPLING_PARAMS : DefaultSamplingParams := {}

namespace InputBatch

variable {T : Type}

def all_greedy (b : InputBatch T) : Bool := b.random_reqs.card = 0
def all_random (b : InputBatch T) : Bool := b.greedy_reqs.card = 0

def no_penalties (b : InputBatch T) : Bool :=
  b.presence_penalties_reqs.card = 0 && b.frequency_penalties_reqs.card = 0 &&
    b.repetition_penalties_reqs.card = 0

def no_allowed_token_ids (b : InputBatch T) : Bool := b.has_allowed_token_ids.card = 0

def max_num_logprobs (b : InputBatch T) : Option Int := (b.num_logprobs.entries.map (·.2)).max?

-- `req_output_token_ids[i] or []`, read through the heap.
def outputs (b : InputBatch T) (outs : OutRef → List Token) (i : Nat) : List Token :=
  match (b.req_output_token_ids[i]?).join with
  | some ref => outs ref
  | none => []

end InputBatch

namespace SamplingMetadata

-- One bad word bans its last token when the output ends in the tokens before it.
def bad_word_bans (vocab_size : Nat) (past : List Token) (bad_word_ids : List Token)
    (token : Token) : Bool :=
  bad_word_ids.getLast? = some token && token < vocab_size &&
    decide (bad_word_ids.length ≤ past.length + 1) &&
    past.drop (past.length - (bad_word_ids.length - 1)) == bad_word_ids.dropLast

-- A row of `_compute_bad_words_mask`.
def bad_words_row (vocab_size : Nat) (bad_words : Option (List (List Token)))
    (past : List Token) (token : Token) : Bool :=
  match bad_words with
  | some bad_words_list => bad_words_list.any fun w => bad_word_bans vocab_size past w token
  | none => false

-- A row of `_compute_min_tokens_mask`.
def min_tokens_row (vocab_size : Nat) (min_tokens : Option (Nat × Finset Token))
    (past : List Token) (token : Token) : Bool :=
  match min_tokens with
  | some (min_count, stop_token_ids) =>
      decide (past.length < min_count) && decide (token ∈ stop_token_ids) &&
        decide (token < vocab_size)
  | none => false

-- A row of the logit bias tensor.
def logit_bias_row (bias : Option (Dict Token ℚ)) (token : Token) : ℚ :=
  match bias with
  | some bias => (bias.lookup token).getD 0
  | none => 0

variable {T : Type}

-- `cpu_tensor[num_reqs:padded_num_reqs] = fill_val`.
def fill_slice {α : Type} (num_reqs padded_num_reqs : Nat) (a : Nat → α) (fill_val : α) :
    Nat → α :=
  fun i => if num_reqs ≤ i ∧ i < padded_num_reqs then fill_val else a i

-- The paddings of the sampling arrays, written into the batch itself.
def pad_sampling (b : InputBatch T) (padded_num_reqs : Nat) : InputBatch T :=
  let d := DEFAULT_SAMPLING_PARAMS
  let n := b.num_reqs
  { b with
    temperature_cpu := fill_slice n padded_num_reqs b.temperature_cpu d.temperature
    min_p_cpu := fill_slice n padded_num_reqs b.min_p_cpu d.min_p
    top_k_cpu := fill_slice n padded_num_reqs b.top_k_cpu d.top_k
    top_p_cpu := fill_slice n padded_num_reqs b.top_p_cpu d.top_p }

def pad_penalties (b : InputBatch T) (padded_num_reqs : Nat) : InputBatch T :=
  let d := DEFAULT_SAMPLING_PARAMS
  let n := b.num_reqs
  { b with
    presence_penalties_cpu :=
      fill_slice n padded_num_reqs b.presence_penalties_cpu d.presence_penalties
    frequency_penalties_cpu :=
      fill_slice n padded_num_reqs b.frequency_penalties_cpu d.frequency_penalties
    repetition_penalties_cpu :=
      fill_slice n padded_num_reqs b.repetition_penalties_cpu d.repetition_penalties }

-- Whether the indices that the tensors are built from are in range.
def in_range (b : InputBatch T) (outs : OutRef → List Token) (batch_vocab_size : Nat)
    (padded_num_reqs : Nat) (vocab_size : Option Nat) : Prop :=
  (∀ i < b.num_reqs, ∀ bias ∈ b.logit_bias i, ∀ token ∈ bias.keys, token < batch_vocab_size) ∧
  (∀ i ∈ b.min_tokens.keys, i < padded_num_reqs → i < b.req_output_token_ids.length) ∧
  (vocab_size.isSome → ∀ i ∈ b.generators.keys, i < padded_num_reqs) ∧
  (b.no_penalties = false → ∀ v ∈ vocab_size, ∀ i < padded_num_reqs,
    ∀ token ∈ b.outputs outs i, token < v)

instance (b : InputBatch T) (outs : OutRef → List Token) (n m : Nat) (v : Option Nat) :
    Decidable (in_range b outs n m v) :=
  inferInstanceAs (Decidable (_ ∧ _ ∧ _ ∧ _))

-- The parts that are built before the early return.
def base (b : InputBatch T) (outs : OutRef → List Token) (batch_vocab_size : Nat)
    (padded_num_reqs : Nat) : SamplingMetadata :=
  let no_logit_bias := (List.range b.num_reqs).all fun i => (b.logit_bias i).isNone
  let no_bad_words := b.bad_words_token_ids.keys.isEmpty
  let any_below_min := b.min_tokens.entries.any fun e =>
    decide (e.1 < padded_num_reqs) && decide ((b.outputs outs e.1).length < e.2.1)
  { all_greedy := true
    logprobs := b.max_num_logprobs.any fun n => 0 < n
    no_logit_bias := no_logit_bias
    logit_bias_tensor := if no_logit_bias then none else some fun i =>
      if i < b.num_reqs then logit_bias_row (b.logit_bias i) else fun _ => 0
    no_bad_words := no_bad_words
    bad_words_mask := if no_bad_words then none else some fun i =>
      bad_words_row batch_vocab_size (b.bad_words_token_ids.lookup i) (b.outputs outs i)
    no_allowed_token_ids := b.no_allowed_token_ids
    allowed_token_ids_mask := if b.no_allowed_token_ids then none else some b.maskRow
    no_min_tokens := !any_below_min
    min_tokens_mask := if any_below_min then some fun i =>
      min_tokens_row batch_vocab_size (b.min_tokens.lookup i) (b.outputs outs i) else none }

-- Early return to avoid unnecessary copies: greedy, and nothing that modifies logits.
def returns_early (b : InputBatch T) (md : SamplingMetadata) : Bool :=
  b.all_greedy && b.no_penalties && md.no_logit_bias && md.no_bad_words &&
    md.no_allowed_token_ids && md.no_min_tokens && b.generators.keys.isEmpty

-- The parts that follow, with the batch after its arrays have been padded.
def with_params (b : InputBatch T) (outs : OutRef → List Token) (padded_num_reqs : Nat)
    (vocab_size : Option Nat) (md : SamplingMetadata) : SamplingMetadata × InputBatch T :=
  let has_generators := !b.generators.keys.isEmpty
  let padded := pad_sampling b padded_num_reqs
  let md := { md with
    temperature := some padded.temperature_cpu
    min_p := some padded.min_p_cpu
    top_k := some padded.top_k_cpu
    top_p := some padded.top_p_cpu
    all_greedy := b.all_greedy
    all_random := b.all_random
    no_penalties := b.no_penalties
    no_generators := !has_generators
    q_samples := if has_generators && vocab_size.isSome then
      some fun i => b.generators.lookup i else none }
  match b.no_penalties, vocab_size with
  | false, some vocab_size =>
      let padded := pad_penalties padded padded_num_reqs
      ({ md with
        presence_penalties := some padded.presence_penalties_cpu
        frequency_penalties := some padded.frequency_penalties_cpu
        repetition_penalties := some padded.repetition_penalties_cpu
        output_token_counts := some fun i token => (b.outputs outs i).count token
        prompt_token_mask := some fun i token =>
          decide (token < vocab_size) && decide (token ∈
            (List.range (b.num_prompt_tokens i)).map (b.token_ids_cpu i)) }, padded)
  | _, _ => (md, padded)

-- `from_input_batch`.
def from_input_batch (b : InputBatch T) (outs : OutRef → List Token) (batch_vocab_size : Nat)
    (padded_num_reqs : Nat) (vocab_size : Option Nat) :
    Option (SamplingMetadata × InputBatch T) := do
  guard (in_range b outs batch_vocab_size padded_num_reqs vocab_size)
  -- without a mask tensor the mask cannot be sliced
  guard (b.no_allowed_token_ids = true ∨ b.allowed_token_ids_mask_cpu_tensor.isSome)
  let md := base b outs batch_vocab_size padded_num_reqs
  if returns_early b md then return (md, b)
  else return with_params b outs padded_num_reqs vocab_size md

theorem from_input_batch_eq {b b' : InputBatch T} {outs : OutRef → List Token}
    {batch_vocab_size padded_num_reqs : Nat} {vocab_size : Option Nat} {md : SamplingMetadata}
    (h : from_input_batch b outs batch_vocab_size padded_num_reqs vocab_size = some (md, b')) :
    let md₀ := base b outs batch_vocab_size padded_num_reqs
    (md, b') = if returns_early b md₀ then (md₀, b)
      else with_params b outs padded_num_reqs vocab_size md₀ := by
  unfold from_input_batch at h
  simp only [Option.bind_eq_bind, Option.bind_eq_some_iff] at h
  obtain ⟨-, -, -, -, h⟩ := h
  dsimp only
  split at h <;> rename_i he
  · rw [if_pos he]; exact (Option.some.inj h).symm
  · rw [if_neg he]; exact (Option.some.inj h).symm

-- Only the sampling arrays change.
theorem from_input_batch_batch {b b' : InputBatch T} {outs : OutRef → List Token}
    {batch_vocab_size padded_num_reqs : Nat} {vocab_size : Option Nat} {md : SamplingMetadata}
    (h : from_input_batch b outs batch_vocab_size padded_num_reqs vocab_size = some (md, b')) :
    ∃ te mi tk tp pr fr re, b' = { b with
      temperature_cpu := te, min_p_cpu := mi, top_k_cpu := tk, top_p_cpu := tp
      presence_penalties_cpu := pr, frequency_penalties_cpu := fr
      repetition_penalties_cpu := re } := by
  have heq := from_input_batch_eq h
  dsimp only at heq
  split at heq
  · cases heq
    exact ⟨_, _, _, _, _, _, _, rfl⟩
  · obtain rfl : b' = _ := congrArg Prod.snd heq
    unfold with_params
    dsimp only
    split <;> exact ⟨_, _, _, _, _, _, _, rfl⟩

end SamplingMetadata

end TTXla.VllmTT
