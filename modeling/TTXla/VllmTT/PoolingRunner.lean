import TTXla.VllmTT.PrepareInputs.Lemmas

-- `TTPoolingModelRunner`: the executions of one step.
namespace TTXla.VllmTT

-- What `TTPoolingModelRunner.__init__` reads and asserts.
structure PoolingConfig extends BaseConfig where
  batch_size : Nat
  batch_size_pos : 0 < batch_size
  batch_size_eq : 1 < batch_size → batch_size = max_num_seqs

namespace PoolingConfig

variable (cfg : PoolingConfig)

-- Batch size 1 concatenates all the inputs into a single sequence.
def max_token_size : Nat :=
  if cfg.batch_size = 1 then cfg.max_num_batched_tokens else cfg.max_model_len

-- `_get_token_paddings` of this runner: the sizes start from the minimum.
def num_tokens_paddings : List Nat :=
  doublings cfg.max_token_size (adjust_min_token cfg.min_context_len) cfg.max_token_size

def max_num_tokens : Nat := cfg.num_tokens_paddings.getLastD 0

end PoolingConfig

-- What `_prepare_inputs` hands to the model and to the pooler.
structure PoolingInputs where
  padded_len : Nat
  num_rows : Nat
  input_ids : Nat → Nat → Token
  position_ids : Nat → Nat → Nat
  seq_lens : Nat → Nat
  num_scheduled_tokens_per_req : List Nat
  end_index : Nat

-- A slice of the batch's pooling metadata, with its pooling cursor.
structure PoolingMetadata where
  prompt_lens : List Nat
  pooling_params : List PoolingParams
  num_scheduled_tokens : List Nat
  seq_lens : List Nat

-- The graphs that are compiled elsewhere.
structure PoolingModel (H P : Type) where
  forward : PoolingInputs → Nat → Nat → H
  pooler : List H → PoolingMetadata → List (Option P)

-- The pooler returns one output for each request.
def PoolingModel.Lawful {H P : Type} (model : PoolingModel H P) : Prop :=
  ∀ hidden metadata,
    (model.pooler hidden metadata).length = metadata.num_scheduled_tokens.length

namespace Pooling

variable {T : Type} {H P : Type}

-- `req_indices` and `arange`, zipped: [2, 3] gives [(0, 0), (0, 1), (1, 0), (1, 1), (1, 2)].
def token_slots (counts : List Nat) : List (Nat × Nat) :=
  counts.zipIdx.flatMap fun (n, i) => (List.range n).map fun j => (i, j)

-- The positions of the fused input.
def fused_positions (b : InputBatch T) (counts : List Nat) : List Nat :=
  (token_slots counts).map fun (i, j) => b.num_computed_tokens_cpu i + j

-- Where its tokens stand in the flattened token buffer.
def fused_indices (cfg : PoolingConfig) (b : InputBatch T) (counts : List Nat) : List Nat :=
  (token_slots counts).map fun (i, j) => b.num_computed_tokens_cpu i + j + i * cfg.max_model_len

-- One sequence of all the inputs, padded with zeros.
def fused_inputs (cfg : PoolingConfig) (b : InputBatch T) (counts : List Nat)
    (padded_len end_index : Nat) : Option PoolingInputs := do
  let token_indices := fused_indices cfg b counts
  guard (∀ i ∈ token_indices, i < cfg.max_num_reqs * cfg.max_model_len)
  return {
    padded_len := padded_len
    num_rows := 1
    input_ids := fun _ t =>
      match token_indices[t]? with
      | some i => b.token_ids_cpu (i / cfg.max_model_len) (i % cfg.max_model_len)
      | none => 0
    position_ids := fun _ t => (fused_positions b counts).getD t 0
    seq_lens := fun i => if i < counts.length then
      b.num_computed_tokens_cpu i + counts.getD i 0 else 0
    num_scheduled_tokens_per_req := counts
    end_index := end_index }

-- One row for each request; the tokens after those of a request are not cleared.
def batched_inputs (cfg : PoolingConfig) (b : InputBatch T) (counts : List Nat)
    (padded_len max_num_scheduled_tokens end_index : Nat) : PoolingInputs where
  padded_len := padded_len
  num_rows := if counts.length < cfg.batch_size then counts.length else cfg.max_num_reqs
  input_ids := fun i j =>
    if j < min max_num_scheduled_tokens cfg.max_model_len then b.token_ids_cpu i j else 0
  position_ids := fun i j => if j < counts.getD i 0 then j else 0
  seq_lens := fun i => if i < counts.length then
    b.num_computed_tokens_cpu i + counts.getD i 0 else 0
  num_scheduled_tokens_per_req := counts
  end_index := end_index

-- `_prepare_inputs`, with the number of requests that one execution takes as a parameter.
def prepare_inputs_upto (cfg : PoolingConfig) (num_reqs_limit : List Nat → Nat)
    (b : InputBatch T) (so : SchedulerOutput) (start_index : Nat) : Option PoolingInputs := do
  guard (0 < so.total_num_scheduled_tokens)
  guard (0 < b.num_reqs)
  guard (start_index < b.num_reqs)
  let all_counts ← Runner.scheduled_counts b so start_index
  let limit := num_reqs_limit all_counts
  let counts := all_counts.take limit
  let end_index := if limit < all_counts.length then start_index + limit else b.num_reqs
  let max_num_scheduled_tokens ← counts.max?
  guard (0 < max_num_scheduled_tokens)
  let padded_len ← get_padded_token_len cfg.num_tokens_paddings
    (if 1 < cfg.batch_size then max_num_scheduled_tokens else counts.sum)
  -- the sequence lengths fit in their buffer
  guard (counts.length ≤ cfg.max_num_tokens)
  let _ ← Runner.lora_mapping cfg.toBaseConfig b counts padded_len
  if cfg.batch_size = 1 then fused_inputs cfg b counts padded_len end_index
  else return batched_inputs cfg b counts padded_len max_num_scheduled_tokens end_index

def prepare_inputs (cfg : PoolingConfig) (b : InputBatch T) (so : SchedulerOutput)
    (start_index : Nat) : Option PoolingInputs :=
  prepare_inputs_upto cfg cfg.num_reqs_limit b so start_index

-- `get_pooling_params`.
def get_pooling_params (b : InputBatch T) : Option (List PoolingParams) := do
  guard (b.req_ids.length = b.pooling_params.keys.length)
  b.req_ids.mapM fun req_id => do
    let req_id ← req_id
    b.pooling_params.lookup req_id

-- `xs[start : stop]`.
def slice {α : Type} (xs : List α) (start stop : Nat) : List α := (xs.take stop).drop start

-- `pooling_metadata[start_index:end_index]`, and its cursor.
def pooling_metadata (cfg : PoolingConfig) (b : InputBatch T) (inp : PoolingInputs)
    (start_index : Nat) : Option PoolingMetadata := do
  let pooling_params ← get_pooling_params b
  return {
    prompt_lens :=
      slice ((List.range b.num_reqs).map b.num_prompt_tokens) start_index inp.end_index
    pooling_params := slice pooling_params start_index inp.end_index
    num_scheduled_tokens := inp.num_scheduled_tokens_per_req
    seq_lens := slice ((List.range cfg.max_num_tokens).map inp.seq_lens) start_index
      inp.end_index }

-- The hidden states of the scheduled tokens, one after the other.
def scheduled_hidden_states (cfg : PoolingConfig) (inp : PoolingInputs)
    (hidden_states : Nat → Nat → H) : List H :=
  if 1 < cfg.batch_size then
    inp.num_scheduled_tokens_per_req.zipIdx.flatMap fun (n, i) =>
      (List.range n).map (hidden_states i)
  else (List.range inp.num_scheduled_tokens_per_req.sum).map (hidden_states 0)

-- One iteration of the loop in `execute_model`: the outputs of the requests whose prompt
-- is complete.
def execute_chunk (cfg : PoolingConfig) (model : PoolingModel H P) (b : InputBatch T)
    (so : SchedulerOutput) (start_index : Nat) : Option (List (Option P) × Nat) := do
  let inp ← prepare_inputs cfg b so start_index
  let metadata ← pooling_metadata cfg b inp start_index
  let pooler_batch :=
    model.pooler (scheduled_hidden_states cfg inp (model.forward inp)) metadata
  let complete (s : Nat × Nat) (raw_output : Option P) : Option P :=
    if s.1 = s.2 then raw_output else none
  return (((metadata.seq_lens.zip metadata.prompt_lens).zipWith complete pooler_batch),
    inp.end_index)

-- The loop: `pooler_output` is what its last iteration leaves, and has no value before the
-- first one.
def execute_chunks (cfg : PoolingConfig) (model : PoolingModel H P) (b : InputBatch T)
    (so : SchedulerOutput) :
    Nat → Nat → Option (List (Option P)) → Option (List (Option P))
  | 0, start_index, pooler_output => if start_index < b.num_reqs then none else pooler_output
  | fuel + 1, start_index, pooler_output =>
      if start_index < b.num_reqs then do
        let (output, end_index) ← execute_chunk cfg model b so start_index
        execute_chunks cfg model b so fuel end_index (some output)
      else pooler_output

-- `execute_model`, after `_update_states`.
def execute_model (cfg : PoolingConfig) (model : PoolingModel H P) (b : InputBatch T)
    (so : SchedulerOutput) : Option (List (Option P)) :=
  execute_chunks cfg model b so b.num_reqs 0 none

end Pooling

end TTXla.VllmTT
