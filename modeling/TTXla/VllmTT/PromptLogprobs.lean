import TTXla.VllmTT.ModelRunner

-- The prompt logprobs of the requests that ask for them.
namespace TTXla.VllmTT

-- A row of vLLM's `LogprobsTensors`.
structure LogprobsRow (P : Type) where
  logprob_token_ids : List Token
  logprobs : List P
  selected_token_rank : Nat

-- The first columns of a row.
def LogprobsRow.trim {P : Type} (num_columns : Nat) (row : LogprobsRow P) : LogprobsRow P :=
  { row with
    logprob_token_ids := row.logprob_token_ids.take num_columns
    logprobs := row.logprobs.take num_columns }

-- `LogprobsTensors` on the CPU: what was written to each row, in order. A row holds the last
-- of it, and before the first it holds whatever the memory held.
structure LogprobsTensors (P : Type) where
  num_positions : Nat
  written : Nat → List (LogprobsRow P)

namespace LogprobsTensors

variable {P : Type}

-- `torch.empty` raises on a negative size.
def empty_cpu (num_positions num_columns : Int) : Option (LogprobsTensors P) := do
  guard (0 ≤ num_positions)
  guard (0 ≤ num_columns)
  return ⟨num_positions.toNat, fun _ => []⟩

-- `tensors[start : start + len(rows)] = rows`.
def write (t : LogprobsTensors P) (start : Nat) (rows : List (LogprobsRow P)) :
    Option (LogprobsTensors P) := do
  guard (start + rows.length ≤ t.num_positions)
  return { t with written := fun p =>
    if start ≤ p then t.written p ++ rows[p - start]?.toList else t.written p }

end LogprobsTensors

-- The graphs `compute_logits` and `gather_logprobs`, which work on each row of their buffers
-- by itself.
structure PromptGraphs (H P : Type) where
  zero : H
  max_logprobs : Nat
  gather : H → Token → LogprobsRow P

namespace PromptGraphs

variable {H P : Type}

-- One batch: the buffers have `max_num_reqs` rows, and the result is trimmed.
def gather_batch (g : PromptGraphs H P) (max_num_reqs num_columns batch_size : Nat)
    (hs : List H) (tgt_ids : List Token) : Option (List (LogprobsRow P)) := do
  -- the slices of the buffers have `batch_size` rows
  guard (hs.length = batch_size)
  guard (tgt_ids.length = batch_size)
  let batch_hs_buf := hs ++ List.replicate (max_num_reqs - batch_size) g.zero
  let batch_tgt_buf := tgt_ids ++ List.replicate (max_num_reqs - batch_size) 0
  let lp_tensors := List.zipWith g.gather batch_hs_buf batch_tgt_buf
  return (lp_tensors.take batch_size).map (LogprobsRow.trim num_columns)

-- `for batch_start in range(0, num_logits, self.max_num_reqs)`.
def fill (g : PromptGraphs H P) (max_num_reqs num_columns start_idx num_logits : Nat)
    (hs_cpu : List H) (all_tgt_ids : List Token) (t : LogprobsTensors P) :
    Option (LogprobsTensors P) :=
  (List.range' 0 (cdiv num_logits max_num_reqs) max_num_reqs).foldlM (fun t batch_start => do
    let batch_end := min (batch_start + max_num_reqs) num_logits
    let batch_size := batch_end - batch_start
    let rows ← g.gather_batch max_num_reqs num_columns batch_size
      ((hs_cpu.take batch_end).drop batch_start) ((all_tgt_ids.take batch_end).drop batch_start)
    t.write (start_idx + batch_start) rows) t

-- The tensors of one request after a step, and whether the step was its last: those that are
-- in progress, or empty ones.
def request_logprobs (g : PromptGraphs H P) (max_num_reqs : Nat) (num_plp : Int)
    (prompt_token_ids : List Token) (start_idx num_tokens : Nat) (prompt_lp_hs : Option (List H))
    (in_progress : Option (LogprobsTensors P)) : Option (LogprobsTensors P × Bool) := do
  let num_plp := min num_plp g.max_logprobs
  let num_prompt_tokens := prompt_token_ids.length
  let t ← in_progress.orElse fun _ =>
    LogprobsTensors.empty_cpu (num_prompt_tokens - 1) (num_plp + 1)
  let start_tok := start_idx + 1
  let num_remaining : Int := num_prompt_tokens - start_tok
  let completed := decide (num_remaining < num_tokens)
  let num_logits := if completed then num_remaining else num_tokens
  if num_logits ≤ 0 then return (t, completed)
  else do
    -- "not found in prompt_lp_hs — state inconsistency"
    let hs_cpu ← prompt_lp_hs
    let num_logits := num_logits.toNat
    let t ← g.fill max_num_reqs (num_plp + 1).toNat start_idx num_logits (hs_cpu.take num_logits)
      ((prompt_token_ids.drop start_tok).take num_logits) t
    return (t, completed)

end PromptGraphs

-- The locals of `_get_prompt_logprobs_dict`, with the dict of the batch that it updates.
structure PromptLogprobs (P : Type) where
  in_progress : Dict ReqId (LogprobsTensors P)
  result : Dict ReqId (LogprobsTensors P)
  completed : List ReqId

-- The model runner and `in_progress_prompt_logprobs_cpu` of its batch.
structure PromptRunner (T P : Type) where
  runner : Runner T
  in_progress : Dict ReqId (LogprobsTensors P)

namespace PromptRunner

variable {T : Type} [BlockTable T] {κ H LP P : Type}

def init (memory : InputBatch T) : PromptRunner T P := ⟨Runner.init memory, ∅⟩

-- One request that asks for prompt logprobs. A completed tensor is the same object in both
-- dicts.
def visit (cfg : RunnerConfig) (g : PromptGraphs H P) (rs : Runner T)
    (prompt_lp_hs : Dict Nat (List H)) (so : SchedulerOutput) (s : PromptLogprobs P)
    (entry : Sigma fun _ : ReqId => Int) : Option (PromptLogprobs P) := do
  let req_id := entry.1
  let request ← rs.requests.lookup req_id
  match so.num_scheduled_tokens.lookup req_id with
  | none => return s
  | some num_tokens => do
      let (t, completed) ← g.request_logprobs cfg.max_num_reqs entry.2 request.prompt_token_ids
        request.num_computed_tokens num_tokens
        ((rs.input_batch.req_id_to_index.lookup req_id).bind fun req_idx =>
          prompt_lp_hs.lookup req_idx)
        (s.in_progress.lookup req_id)
      return {
        in_progress := s.in_progress.insert req_id t
        result := if completed then s.result.insert req_id t else s.result
        completed := if completed then s.completed ++ [req_id] else s.completed }

-- `_get_prompt_logprobs_dict`, with the two dicts that it updates.
def get_prompt_logprobs_dict (cfg : RunnerConfig) (g : PromptGraphs H P)
    (s : PromptRunner T P) (prompt_lp_hs : Dict Nat (List H)) (so : SchedulerOutput) :
    Option (Dict ReqId (LogprobsTensors P) × PromptRunner T P) := do
  let l ← s.runner.num_prompt_logprobs.entries.foldlM
    (visit cfg g s.runner prompt_lp_hs so) ⟨s.in_progress, ∅, []⟩
  return (l.result, {
    runner := { s.runner with
      num_prompt_logprobs := Runner.popAll s.runner.num_prompt_logprobs l.completed }
    in_progress := Runner.popAll l.in_progress l.completed })

-- The hidden states that `sample_tokens` saves after one execution.
def save_hidden_states (rs : Runner T) (start_index end_index padded_len : Nat)
    (hidden_states : Nat → Nat → H) (prompt_lp_hs : Dict Nat (List H)) : Dict Nat (List H) :=
  (List.range' start_index (end_index - start_index)).foldl (fun d i =>
    match (rs.input_batch.req_ids[i]?).join with
    | none => d
    | some req_id =>
        if req_id ∈ rs.num_prompt_logprobs then
          d.insert i ((List.range padded_len).map (hidden_states (i - start_index)))
        else d) prompt_lp_hs

-- The loop of `sample_tokens`, with what it saves; the decoder runs on the inputs of
-- `execute_chunk`.
def execute_chunks (cfg : RunnerConfig) (mode : OutOfRange) (model : Model κ H LP)
    (so : SchedulerOutput) (grammar_output : Option GrammarOutput) :
    Nat → Runner T → κ → Nat → Dict Nat (List H) →
      Option (List (Runner.Execution LP) × Dict Nat (List H) × Runner T × κ)
  | 0, rs, k, start_index, prompt_lp_hs =>
      if start_index < rs.input_batch.num_reqs then none else some ([], prompt_lp_hs, rs, k)
  | fuel + 1, rs, k, start_index, prompt_lp_hs =>
      if start_index < rs.input_batch.num_reqs then do
        let (inp, _) ← Runner.prepare_inputs cfg rs so start_index
        let (_, hidden_states) ← model.forward k inp
        let prompt_lp_hs := save_hidden_states rs start_index inp.end_index inp.padded_len
          hidden_states prompt_lp_hs
        let (e, rs, k) ← Runner.execute_chunk cfg mode model so grammar_output rs k start_index
        let (es, prompt_lp_hs, rs, k) ← execute_chunks cfg mode model so grammar_output fuel rs k
          e.end_index prompt_lp_hs
        return (e :: es, prompt_lp_hs, rs, k)
      else some ([], prompt_lp_hs, rs, k)

-- `sample_tokens`, when a scheduler output is pending: the prompt logprobs that it returns.
def sample_scheduled (cfg : RunnerConfig) (mode : OutOfRange) (model : Model κ H LP)
    (g : PromptGraphs H P) (grammar_output : Option GrammarOutput) (s : PromptRunner T P) (k : κ)
    (so : SchedulerOutput) :
    Option (Dict ReqId (LogprobsTensors P) × PromptRunner T P × κ) := do
  let rs := { s.runner with scheduler_output := none }
  -- nothing to concatenate
  guard (0 < rs.input_batch.num_reqs)
  let (es, prompt_lp_hs, rs, k) ← execute_chunks cfg mode model so grammar_output
    rs.input_batch.num_reqs rs k 0 ∅
  let (prompt_logprobs_dict, s) ←
    get_prompt_logprobs_dict cfg g ⟨rs, s.in_progress⟩ prompt_lp_hs so
  let (_, rs) ← Runner.append_tokens cfg s.runner so (es.flatMap Runner.Execution.tokens)
  return (prompt_logprobs_dict, ⟨rs, s.in_progress⟩, k)

-- `_update_states` removes from the batch what is finished and what is not scheduled;
-- `remove_request` drops the tensors of a request with its row.
def dropped_req_ids (b : InputBatch T) (so : SchedulerOutput) : List ReqId :=
  b.req_id_to_index.keys.filter fun id =>
    id ∈ so.finished_req_ids ∨ id ∉ so.num_scheduled_tokens

def execute_model (cfg : RunnerConfig) (sets : SetOrder) (s : PromptRunner T P)
    (so : SchedulerOutput) : Option (PromptRunner T P) := do
  let rs ← Runner.execute_model cfg sets s.runner so
  return ⟨rs, Runner.popAll s.in_progress (dropped_req_ids s.runner.input_batch so)⟩

-- The two calls of one step of the engine.
def iteration (cfg : RunnerConfig) (sets : SetOrder) (mode : OutOfRange) (model : Model κ H LP)
    (g : PromptGraphs H P) (s : PromptRunner T P × κ)
    (op : SchedulerOutput × Option GrammarOutput) :
    Option (Dict ReqId (LogprobsTensors P) × PromptRunner T P × κ) := do
  let mid ← execute_model cfg sets s.1 op.1
  match mid.runner.scheduler_output with
  | none => return (∅, mid, s.2)
  | some so => sample_scheduled cfg mode model g op.2 mid s.2 so

def step (cfg : RunnerConfig) (sets : SetOrder) (mode : OutOfRange) (model : Model κ H LP)
    (g : PromptGraphs H P) (s : PromptRunner T P × κ)
    (op : SchedulerOutput × Option GrammarOutput) : Option (PromptRunner T P × κ) :=
  (iteration cfg sets mode model g s op).map Prod.snd

end PromptRunner

end TTXla.VllmTT
