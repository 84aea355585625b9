import TTXla.VllmTT.AscendScheduler.Types
import TTXla.Lib.Excepts

namespace TTXla.VllmTT.AscendScheduler

open Excepts (ensure get)

variable {K LP : Type}

def Scheduler.setRequest (s : Scheduler K) (kv : K) (id : ReqId) (request : Request) :
    Scheduler K :=
  { s with kv := kv, objs := Function.update s.objs id request }

-- `deque.extendleft`: one element after the other goes to the left end.
def extendleft (l skipped : List ReqId) : List ReqId := skipped.foldl (fun l id => id :: l) l

section Admission

variable (cfg : Config) (base : Base K LP)

-- The requests that wait for remote KVs or for a grammar. Whether the request may go on.
def unblock (kv : K) (id : ReqId) (request : Request) : K × Request × Bool :=
  let (kv, request, ready) :=
    if request.status = .WAITING_FOR_REMOTE_KVS then
      let (kv, num_computed_tokens, is_ready) := base.update_waiting_for_remote_kv kv id request
      let request := { request with num_computed_tokens := num_computed_tokens }
      if is_ready then (kv, { request with status := .WAITING }, true) else (kv, request, false)
    else (kv, request, true)
  if ready ∧ request.status = .WAITING_FOR_FSM then
    if base.grammar_ready kv id then (kv, { request with status := .WAITING }, true)
    else (kv, request, false)
  else (kv, request, ready)

-- Whether scheduling the request would exceed `max_loras`.
def exceeds_loras (scheduled_loras : Finset Nat) (request : Request) : Bool :=
  match cfg.lora_config, request.lora_request with
  | some max_loras, some lora =>
      scheduled_loras.card = max_loras ∧ lora.lora_int_id ∉ scheduled_loras
  | _, _ => false

def record_lora (scheduled_loras : Finset Nat) (request : Request) : Finset Nat :=
  match cfg.lora_config, request.lora_request with
  | some _, some lora => insert lora.lora_int_id scheduled_loras
  | _, _ => scheduled_loras

-- The tokens of a request that are computed already.
structure Computed (K : Type) where
  kv : K
  new_computed_blocks : KVCacheBlocks
  num_new_local_computed_tokens : Nat
  num_external_computed_tokens : Nat
  load_kv_async : Bool
  num_computed_tokens : Nat

def computed_tokens (kv : K) (id : ReqId) (request : Request) :
    Except SchedulerError (Computed K) :=
  if request.num_computed_tokens = 0 then
    let (kv, new_computed_blocks, num_new_local) := base.get_computed_blocks kv id request
    match base.connector with
    | none => .ok ⟨kv, new_computed_blocks, num_new_local, 0, false, num_new_local⟩
    | some connector => do
        let (kv, num_external, load_kv_async) :=
          connector.get_num_new_matched_tokens kv id request num_new_local
        let num_external ← get num_external .external_tokens_type
        return ⟨kv, new_computed_blocks, num_new_local, num_external, load_kv_async,
          num_new_local + num_external⟩
  else .ok ⟨kv, base.create_empty_block_list, 0, 0, false, request.num_computed_tokens⟩

-- `_get_prompt_limit`. The length 0 of a long LoRA counts as absent.
def get_prompt_limit (request : Request) : Except SchedulerError Nat :=
  let prompt_limit := min cfg.max_model_len cfg.max_num_scheduled_tokens
  match request.lora_request.bind LoRARequest.long_lora_max_len with
  | none | some 0 => .ok prompt_limit
  | some long_lora_max_len => do
      ensure (prompt_limit ≤ long_lora_max_len) .long_lora
      return long_lora_max_len

-- `_check_watermark_for_prefill`.
def check_watermark_for_prefill (kv : K) (id : ReqId) (request : Request) (num_new_tokens : Nat)
    (computed_blocks : Option (List KVCacheBlock)) : Bool :=
  let computed_blocks := computed_blocks.getD []
  let watermark_blocks : ℚ := cfg.num_blocks * cfg.watermark
  let num_computed_tokens := request.num_computed_tokens + computed_blocks.length * cfg.block_size
  let num_required_blocks := cdiv (num_new_tokens + num_computed_tokens) cfg.block_size
  let req_blocks := base.get_blocks kv id
  let num_new_blocks : Int := (num_required_blocks : Int) - req_blocks.length -
    computed_blocks.length
  let num_evictable_computed_blocks := computed_blocks.countP fun blk => blk.ref_cnt = 0
  watermark_blocks ≤
    (((base.get_num_free_blocks kv : Int) - num_evictable_computed_blocks - num_new_blocks : Int) : ℚ)

-- What becomes of the request at the head of the waiting queue: it is skipped, finished as too
-- long, left there when the loop ends, put aside while its KV is loaded, or scheduled.
inductive Verdict where
  | skip
  | ignore
  | stop
  | load
  | enter (num_computed_tokens num_new_tokens : Nat) (blocks : KVCacheBlocks)

-- The watermark, and the allocation of the blocks.
def place (id : ReqId) (request : Request) (c : Computed K) (num_new_tokens : Nat)
    (blocks : Option (List KVCacheBlock)) : K × Verdict :=
  if check_watermark_for_prefill cfg base c.kv id request num_new_tokens blocks then
    let (kv, new_blocks) := base.allocate_slots c.kv id request
      (num_new_tokens + c.num_external_computed_tokens) c.num_new_local_computed_tokens
      (some c.new_computed_blocks) cfg.num_lookahead_tokens c.load_kv_async
    match new_blocks with
    | none => (kv, .stop)
    | some new_blocks =>
        let all_blocks := c.new_computed_blocks.add new_blocks
        let kv := match base.connector with
          | none => kv
          | some connector => connector.update_state_after_alloc kv id request all_blocks
              c.num_external_computed_tokens
        if c.load_kv_async then (kv, .load)
        else (kv, .enter c.num_computed_tokens num_new_tokens all_blocks)
  else (c.kv, .skip)

-- The part of an iteration of the prefill loop that decides about the request.
def judge (kv : K) (scheduled_loras : Finset Nat) (token_budget : Int) (id : ReqId)
    (request : Request) : Except SchedulerError (K × Request × Verdict) := do
  let (kv, request, ready) := unblock base kv id request
  if ¬ready then return (kv, request, .skip)
  if exceeds_loras cfg scheduled_loras request then return (kv, request, .skip)
  let c ← computed_tokens base kv id request
  if c.load_kv_async then
    ensure (0 < c.num_external_computed_tokens) .external_tokens
    let (kv, verdict) := place cfg base id request c 0 none
    return (kv, request, verdict)
  let prompt_limit ← get_prompt_limit cfg request
  let num_new_tokens : Int := (request.num_tokens : Int) - c.num_computed_tokens
  let max_tokens_in_kvcache := cfg.num_blocks * cfg.block_size
  let prompt_limit := min prompt_limit max_tokens_in_kvcache
  if (prompt_limit : Int) < num_new_tokens then return (c.kv, request, .ignore)
  if token_budget < num_new_tokens then return (c.kv, request, .skip)
  ensure (0 < num_new_tokens) .num_new_tokens
  let blocks ← get c.new_computed_blocks.head? .block_groups
  let (kv, verdict) := place cfg base id request c num_new_tokens.toNat (some blocks)
  return (kv, request, verdict)

end Admission

namespace Pass

variable (cfg : Config)

def start (s : Scheduler K) : Pass K where
  self := s
  token_budget := cfg.max_num_scheduled_tokens
  scheduled_new_reqs := []
  scheduled_resumed_reqs := []
  scheduled_running_reqs := []
  preempted_reqs := []
  req_to_new_block_ids := ∅
  num_scheduled_tokens := ∅
  scheduled_spec_decode_tokens := ∅
  scheduled_loras := ∅
  skipped_waiting_requests := []

def setRequest (p : Pass K) (kv : K) (id : ReqId) (request : Request) : Pass K :=
  { p with self := p.self.setRequest kv id request }

def setStatus (p : Pass K) (id : ReqId) (status : RequestStatus) : Pass K :=
  p.setRequest p.self.kv id { p.self.objs id with status := status }

def setWaiting (p : Pass K) (waiting : List ReqId) : Pass K :=
  { p with self := { p.self with waiting := waiting } }

-- `skip_cur_request`, as far as the queue of skipped requests goes.
def skip (p : Pass K) (id : ReqId) : Pass K :=
  { p with skipped_waiting_requests := id :: p.skipped_waiting_requests }

-- A request that is too long.
def ignore (p : Pass K) (id : ReqId) : Pass K :=
  let p := p.setStatus id .FINISHED_IGNORED
  { p with self := { p.self with finished_req_ids := p.self.finished_req_ids.insert id } }

-- A request whose KV is loaded asynchronously.
def load (p : Pass K) (id : ReqId) : Pass K :=
  (p.skip id).setStatus id .WAITING_FOR_REMOTE_KVS

-- A request that is scheduled from the waiting queue.
def enter (p : Pass K) (id : ReqId) (num_computed_tokens num_new_tokens : Nat)
    (blocks : KVCacheBlocks) : Except SchedulerError (Pass K) := do
  let request := p.self.objs id
  let p := { p with
    self := { p.self with
      running := p.self.running ++ [id]
      scheduled_req_ids := insert id p.self.scheduled_req_ids } }
  let p ← match request.status with
    | .WAITING => .ok { p with scheduled_new_reqs := p.scheduled_new_reqs ++ [id] }
    | .PREEMPTED => .ok { p with scheduled_resumed_reqs := p.scheduled_resumed_reqs ++ [id] }
    | _ => .error .invalid_status
  let p := { p with
    scheduled_loras := record_lora cfg p.scheduled_loras request
    req_to_new_block_ids := p.req_to_new_block_ids.insert id blocks
    num_scheduled_tokens := p.num_scheduled_tokens.insert id num_new_tokens
    token_budget := p.token_budget - num_new_tokens }
  return p.setRequest p.self.kv id { request with
    status := .RUNNING
    num_computed_tokens := num_computed_tokens
    num_cached_tokens := if request.num_cached_tokens < 0 then num_computed_tokens
      else request.num_cached_tokens }

end Pass

section Loops

variable (cfg : Config) (base : Base K LP)

-- The prefill loop, over what is left of the waiting queue.
def prefill_loop : List ReqId → Pass K → Except SchedulerError (Pass K)
  | [], p => .ok (p.setWaiting [])
  | id :: waiting, p =>
      if 0 < p.token_budget ∧ p.self.forced_mode ≠ some 0 ∧
          p.self.running.length ≠ cfg.max_num_running_reqs then do
        let (kv, request, verdict) ← judge cfg base p.self.kv p.scheduled_loras p.token_budget id
          (p.self.objs id)
        let p := p.setRequest kv id request
        match verdict with
        | .stop => return p.setWaiting (id :: waiting)
        | .skip => prefill_loop waiting (p.skip id)
        | .ignore => prefill_loop waiting (p.ignore id)
        | .load => prefill_loop waiting (p.load id)
        | .enter num_computed_tokens num_new_tokens blocks => do
            let p ← p.enter cfg id num_computed_tokens num_new_tokens blocks
            prefill_loop waiting p
      else .ok (p.setWaiting (id :: waiting))

-- Put back any skipped requests at the head of the waiting queue.
def Pass.putBack (p : Pass K) : Pass K :=
  p.setWaiting (extendleft p.self.waiting p.skipped_waiting_requests)

-- How many tokens a running request gets.
def decode_tokens (p : Pass K) (request : Request) : Except SchedulerError Int := do
  let num_new_tokens : Int := (request.num_tokens_with_spec : Int) - request.num_computed_tokens
  ensure ((request.num_tokens : Int) - request.num_computed_tokens = 1) .decode_tokens
  let num_new_tokens := min num_new_tokens p.token_budget
  let num_new_tokens := min num_new_tokens ((cfg.max_model_len : Int) - request.num_computed_tokens)
  return if exceeds_loras cfg p.scheduled_loras request then 0 else num_new_tokens

-- Preempt the lowest-priority request, which is popped from `running`.
def Pass.preempt (p : Pass K) (running : List ReqId) (id : ReqId) : Pass K :=
  let p := { p with self := { p.self with running := running, kv := base.free p.self.kv id } }
  let p := p.setRequest p.self.kv id
    { p.self.objs id with status := .PREEMPTED, num_computed_tokens := 0 }
  { p with
    self := { p.self with waiting := id :: p.self.waiting }
    preempted_reqs := p.preempted_reqs ++ [id] }

-- The inner loop: allocate, and preempt as long as that fails.
def allocate_or_preempt : Nat → Pass K → ReqId → Int →
    Except SchedulerError (Pass K × Option KVCacheBlocks)
  | 0, _, _, _ => .error .preemption
  | fuel + 1, p, id, num_new_tokens => do
      let (kv, new_blocks) := base.allocate_slots p.self.kv id (p.self.objs id) num_new_tokens 0
        none cfg.num_lookahead_tokens false
      let p := { p with self := { p.self with kv := kv } }
      match new_blocks with
      | some new_blocks => return (p, some new_blocks)
      | none =>
          let preempted_req ← get p.self.running.getLast? .preemption
          let p := p.preempt base p.self.running.dropLast preempted_req
          if preempted_req = id then return (p, none)
          else allocate_or_preempt fuel p id num_new_tokens

-- Schedule a running request.
def Pass.record (p : Pass K) (id : ReqId) (num_new_tokens : Int) (blocks : KVCacheBlocks) :
    Pass K :=
  { p with
    self := { p.self with scheduled_req_ids := insert id p.self.scheduled_req_ids }
    scheduled_running_reqs := p.scheduled_running_reqs ++ [id]
    req_to_new_block_ids := p.req_to_new_block_ids.insert id blocks
    num_scheduled_tokens := p.num_scheduled_tokens.insert id num_new_tokens
    token_budget := p.token_budget - num_new_tokens
    scheduled_loras := record_lora cfg p.scheduled_loras (p.self.objs id) }

-- Speculative decode related: trim the list to the scheduled tokens.
def Pass.trimSpec (p : Pass K) (id : ReqId) (num_new_tokens : Int) : Pass K :=
  let request := p.self.objs id
  let num_scheduled_spec_tokens := num_new_tokens + request.num_computed_tokens -
    request.num_tokens
  if request.spec_token_ids ≠ [] ∧ 0 < num_scheduled_spec_tokens then
    let spec_token_ids := request.spec_token_ids.take num_scheduled_spec_tokens.toNat
    let p := p.setRequest p.self.kv id { request with spec_token_ids := spec_token_ids }
    { p with
      scheduled_spec_decode_tokens := p.scheduled_spec_decode_tokens.insert id spec_token_ids }
  else p

-- The decode loop, from `req_index` on.
def decode_loop : Nat → Nat → Pass K → Except SchedulerError (Pass K)
  | 0, _, p => .ok p
  | fuel + 1, req_index, p =>
      match p.self.running[req_index]? with
      | none => .ok p
      | some id =>
          if p.token_budget ≤ 0 then .ok p
          else if id ∈ p.self.scheduled_req_ids then decode_loop fuel (req_index + 1) p
          else do
            let num_new_tokens ← decode_tokens cfg p (p.self.objs id)
            if num_new_tokens = 0 then decode_loop fuel (req_index + 1) p
            else do
              let (p, new_blocks) ← allocate_or_preempt cfg base p.self.running.length p id
                num_new_tokens
              match new_blocks with
              | none => return p
              | some blocks =>
                  decode_loop fuel (req_index + 1)
                    ((p.record cfg id num_new_tokens blocks).trimSpec id num_new_tokens)

-- Check if the scheduling constraints are satisfied.
def check_constraints (p : Pass K) : Except SchedulerError Unit := do
  let total_num_scheduled_tokens := (p.num_scheduled_tokens.entries.map Sigma.snd).sum
  ensure (total_num_scheduled_tokens ≤ (cfg.max_num_scheduled_tokens : Int)) .total_tokens
  ensure (0 ≤ p.token_budget) .token_budget
  ensure (p.self.running.length ≤ cfg.max_num_running_reqs) .running_reqs
  ensure (p.scheduled_new_reqs.length + p.scheduled_resumed_reqs.length +
    p.scheduled_running_reqs.length ≤ p.self.running.length) .scheduled_reqs

-- `NewRequestData.from_request`.
def Pass.new_request_data (p : Pass K) (id : ReqId) : Except SchedulerError NewRequestData := do
  let request := p.self.objs id
  let blocks ← get (p.req_to_new_block_ids.lookup id) .key
  return {
    req_id := id
    prompt_token_ids := request.prompt_token_ids
    sampling_params := request.sampling_params
    pooling_params := request.pooling_params
    block_ids := blocks.get_block_ids
    num_computed_tokens := request.num_computed_tokens
    lora_request := request.lora_request }

-- Construct the scheduler output.
def Pass.output (p : Pass K) : Except SchedulerError Output := do
  let new_reqs_data ← p.scheduled_new_reqs.mapM p.new_request_data
  let withObj := fun id => (id, p.self.objs id)
  let (cached_reqs_data, resumed_req_ids) := base.make_cached_request_data
    (p.scheduled_running_reqs.map withObj) (p.scheduled_resumed_reqs.map withObj)
    p.num_scheduled_tokens p.scheduled_spec_decode_tokens p.req_to_new_block_ids
  return {
    scheduled_new_reqs := new_reqs_data
    scheduled_cached_reqs := cached_reqs_data
    resumed_req_ids := resumed_req_ids
    num_scheduled_tokens := p.num_scheduled_tokens
    total_num_scheduled_tokens := (p.num_scheduled_tokens.entries.map Sigma.snd).sum
    scheduled_spec_decode_tokens := p.scheduled_spec_decode_tokens
    finished_req_ids := p.self.finished_req_ids }

-- Advance the number of computed tokens after the request is scheduled.
def Scheduler.advance (s : Scheduler K) (num_scheduled_tokens : Dict ReqId Int) :
    Except SchedulerError (Scheduler K) := do
  ensure (∀ id ∈ num_scheduled_tokens.keys, id ∈ s.requests) .key
  return { s with objs := fun id =>
    match num_scheduled_tokens.lookup id with
    | none => s.objs id
    | some n => { s.objs id with
        num_computed_tokens := (((s.objs id).num_computed_tokens : Int) + n).toNat } }

-- The loops of `schedule`.
def run_loops (s : Scheduler K) : Except SchedulerError (Pass K) := do
  let p ← prefill_loop cfg base s.waiting (Pass.start cfg s)
  let p := p.putBack
  if p.self.scheduled_req_ids = ∅ ∧ p.self.forced_mode ≠ some 1 then
    decode_loop cfg base p.self.running.length 0 p
  else return p

def schedule (s : Scheduler K) : Except SchedulerError (Output × Scheduler K) := do
  let p ← run_loops cfg base s
  check_constraints cfg p
  let out ← p.output base
  let kv := match base.connector with
    | none => p.self.kv
    | some connector => connector.build_connector_meta p.self.kv
  let s ← { p.self with kv := kv }.advance out.num_scheduled_tokens
  return (out, { s with finished_req_ids := [] })

end Loops

-- `set_forced_mode`.
def set_forced_mode (s : Scheduler K) (mode : Option Nat) : Option (Scheduler K) := do
  guard (mode = none ∨ mode = some 0 ∨ mode = some 1)
  return { s with forced_mode := mode }

-- The loop of `finish_requests`, before the base class does the rest.
def discard_running (s : Scheduler K) (ids : List ReqId) : Scheduler K :=
  ids.foldl (fun s id =>
    if id ∈ s.requests ∧ (s.objs id).status = .RUNNING then
      { s with scheduled_req_ids := s.scheduled_req_ids.erase id }
    else s) s

def finish_requests (base : Base K LP) (s : Scheduler K) (request_ids : RequestIds)
    (finished_status : RequestStatus) : Option (Scheduler K) :=
  base.finish_requests (discard_running s request_ids.traverse) request_ids.rest finished_status

def update_from_output (base : Base K LP) (s : Scheduler K) (out : Output)
    (model_runner_output : ModelRunnerOutput LP) : Option (Scheduler K) :=
  let scheduled_req_ids := s.running.foldl (fun ids id =>
    if (out.num_scheduled_tokens.lookup id).getD 0 = 0 then ids else ids.erase id)
    s.scheduled_req_ids
  base.update_from_output { s with scheduled_req_ids := scheduled_req_ids } out
    model_runner_output

end TTXla.VllmTT.AscendScheduler
