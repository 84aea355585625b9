import TTXla.VllmTT.AscendScheduler.Calls
import TTXla.Lib.Run

-- Runs of an engine that calls the scheduler.
namespace TTXla.VllmTT.AscendScheduler

variable {K LP : Type}

-- The ids name a registered request that is not finished.
def Scheduler.Hits (s : Scheduler K) (ids : List ReqId) (id : ReqId) : Prop :=
  id ∈ ids ∧ id ∈ s.requests ∧ ¬(s.objs id).status.is_finished

instance (s : Scheduler K) (ids : List ReqId) (id : ReqId) : Decidable (s.Hits ids id) :=
  inferInstanceAs (Decidable (_ ∧ _ ∧ _))

-- What the base class documents of `add_request`.
structure AddedTo (s s' : Scheduler K) (id : ReqId) (request : Request) : Prop where
  waiting : s'.waiting = s.waiting ++ [id]
  running : s'.running = s.running
  requests : s'.requests = insert id s.requests
  objs : s'.objs = Function.update s.objs id request
  scheduled : s'.scheduled_req_ids = s.scheduled_req_ids
  mode : s'.forced_mode = s.forced_mode

-- Of `finish_requests`: the requests that the ids name leave the queues with the given status.
-- They may stay registered until their blocks are freed.
structure FinishedBy (s s' : Scheduler K) (ids : List ReqId) (status : RequestStatus) :
    Prop where
  waiting : s'.waiting = s.waiting.filter fun id => ¬s.Hits ids id
  running : s'.running = s.running.filter fun id => ¬s.Hits ids id
  registered : ∀ id ∈ s.requests, ¬s.Hits ids id → id ∈ s'.requests
  requests : s'.requests ⊆ s.requests
  objs : ∀ id, s'.objs id =
    if s.Hits ids id then { s.objs id with status := status } else s.objs id
  scheduled : s'.scheduled_req_ids = s.scheduled_req_ids
  mode : s'.forced_mode = s.forced_mode

-- The tokens that the model runner returns for a request.
def generated (model_runner_output : ModelRunnerOutput LP) (id : ReqId) : List Token :=
  ((model_runner_output.req_id_to_index.lookup id).bind
    (model_runner_output.sampled_token_ids[·]?)).getD []

-- Of `update_from_output`: some of the scheduled requests stop and leave the queues, and the
-- others get their tokens. A request that goes on is shorter than the model allows.
structure UpdatedBy (cfg : Config) (s s' : Scheduler K) (out : Output)
    (model_runner_output : ModelRunnerOutput LP) (stopped : Finset ReqId) : Prop where
  stopped_scheduled : ∀ id ∈ stopped, id ∈ out.num_scheduled_tokens
  stopped_status : ∀ id ∈ stopped, (s'.objs id).status.is_finished
  waiting : s'.waiting = s.waiting.filter fun id => id ∉ stopped
  running : s'.running = s.running.filter fun id => id ∉ stopped
  registered : ∀ id ∈ s.requests, ¬(s.objs id).status.is_finished → id ∉ stopped →
    id ∈ s'.requests
  requests : s'.requests ⊆ s.requests
  status : ∀ id ∉ stopped, (s'.objs id).status = (s.objs id).status
  scheduled : s'.scheduled_req_ids = s.scheduled_req_ids
  mode : s'.forced_mode = s.forced_mode
  other : ∀ id, id ∉ out.num_scheduled_tokens → s'.objs id = s.objs id
  tokens : ∀ id ∈ s.running, id ∈ out.num_scheduled_tokens → id ∉ stopped →
    (s'.objs id).prompt_token_ids = (s.objs id).prompt_token_ids ∧
    (s'.objs id).output_token_ids =
      (s.objs id).output_token_ids ++ generated model_runner_output id
  -- only rejected speculative tokens are computed again
  computed : ∀ id, out.scheduled_spec_decode_tokens.lookup id = none →
    (s'.objs id).num_computed_tokens = (s.objs id).num_computed_tokens ∧
    (s'.objs id).spec_token_ids = (s.objs id).spec_token_ids
  shorter : ∀ id ∈ s.running, id ∈ out.num_scheduled_tokens → id ∉ stopped →
    generated model_runner_output id ≠ [] → (s'.objs id).num_tokens < cfg.max_model_len

-- What the scheduler relies on of vLLM, in a consistent state.
structure Base.Lawful (base : Base K LP) (cfg : Config) : Prop where
  add_request : ∀ s id request, Consistent s → id ∉ s.waiting → id ∉ s.running →
    AddedTo s (base.add_request s id request) id request
  finish_requests : ∀ s request_ids status, Consistent s → status.is_finished →
    ∃ s', base.finish_requests s request_ids status = some s' ∧
      FinishedBy s s' request_ids.named status
  update_from_output : ∀ s s' out model_runner_output, Consistent s →
    base.update_from_output s out model_runner_output = some s' →
    ∃ stopped, UpdatedBy cfg s s' out model_runner_output stopped
  cached_req_ids : ∀ running resumed counts spec blocks,
    (base.make_cached_request_data running resumed counts spec blocks).1.map
      CachedRequestData.req_id = (running ++ resumed).map Prod.fst

-- The scheduler, the outputs it has returned, and which of them were passed back with the
-- results of the model.
structure Engine (K : Type) where
  scheduler : Scheduler K
  issued : List Output
  updated : Finset Nat

inductive Op (K LP : Type) where
  | add_request (id : ReqId) (request : Request)
  | schedule
  | update_from_output (i : Nat) (model_runner_output : ModelRunnerOutput LP)
  | finish_requests (request_ids : RequestIds) (status : RequestStatus)
  | set_forced_mode (mode : Option Nat)
  -- transfers and grammars go on between the calls
  | progress (kv : K)

namespace Engine

def init (kv : K) (objs : ReqId → Request) : Engine K where
  scheduler := {
    waiting := []
    running := []
    requests := ∅
    objs := objs
    scheduled_req_ids := ∅
    finished_req_ids := []
    forced_mode := none
    kv := kv }
  issued := []
  updated := ∅

def step (cfg : Config) (base : Base K LP) (e : Engine K) : Op K LP → Option (Engine K)
  | .add_request id request =>
      some { e with scheduler := base.add_request e.scheduler id request }
  | .schedule =>
      match schedule cfg base e.scheduler with
      | .ok (out, s) => some { e with scheduler := s, issued := e.issued ++ [out] }
      | .error _ => none
  | .update_from_output i model_runner_output => do
      let out ← e.issued[i]?
      let s ← update_from_output base e.scheduler out model_runner_output
      return { e with scheduler := s, updated := insert i e.updated }
  | .finish_requests request_ids status => do
      let s ← finish_requests base e.scheduler request_ids status
      return { e with scheduler := s }
  | .set_forced_mode mode => do
      let s ← set_forced_mode e.scheduler mode
      return { e with scheduler := s }
  | .progress kv => some { e with scheduler := { e.scheduler with kv := kv } }

-- How an engine calls the scheduler: a new request has an id that no unfinished request has,
-- each output is passed back once, and requests are finished with such a status.
def Allowed (e : Engine K) : Op K LP → Prop
  | .add_request id request => request.status.is_waiting ∧
      (id ∈ e.scheduler.requests → (e.scheduler.objs id).status.is_finished)
  | .update_from_output i _ => i ∉ e.updated
  | .finish_requests _ status => status.is_finished
  | .schedule | .set_forced_mode _ | .progress _ => True

instance (e : Engine K) : (op : Op K LP) → Decidable (Allowed e op)
  | .add_request id request => inferInstanceAs (Decidable (request.status.is_waiting ∧
      (id ∈ e.scheduler.requests → (e.scheduler.objs id).status.is_finished)))
  | .update_from_output i _ => inferInstanceAs (Decidable (i ∉ e.updated))
  | .finish_requests _ status => inferInstanceAs (Decidable (status.is_finished))
  | .schedule | .set_forced_mode _ | .progress _ => inferInstanceAs (Decidable True)

end Engine

section Steps

variable {cfg : Config} {base : Base K LP} {s s' : Scheduler K}

theorem AddedTo.consistent {id : ReqId} {request : Request} (h : AddedTo s s' id request)
    (hc : Consistent s) (hw : id ∉ s.waiting) (hr : id ∉ s.running)
    (hstatus : request.status.is_waiting) : Consistent s' := by
  have hother : ∀ id', id' ≠ id → s'.objs id' = s.objs id' := fun id' hne => by
    rw [h.objs, Function.update_of_ne hne]
  have hself : s'.objs id = request := by rw [h.objs, Function.update_self]
  have hne : ∀ id' ∈ s.waiting ++ s.running, id' ≠ id := by
    rintro id' hid' rfl
    rcases List.mem_append.mp hid' with hm | hm
    · exact hw hm
    · exact hr hm
  have hmem : ∀ id', id' ∈ s'.waiting ++ s'.running ↔
      id' ∈ s.waiting ++ s.running ∨ id' = id := by
    intro id'
    rw [h.waiting, h.running]
    simp only [List.mem_append, List.mem_singleton]
    tauto
  refine ⟨?_, fun id' hid' => ?_, fun id' hid' => ?_, fun id' hid' => ?_, fun id' hid' hf => ?_⟩
  · rw [h.waiting, h.running, List.append_assoc, List.singleton_append, List.nodup_middle,
      List.nodup_cons]
    exact ⟨fun hm => hne id hm rfl, hc.nodup⟩
  · rw [h.requests, Finset.mem_insert]
    rcases (hmem id').mp hid' with hm | rfl
    · exact Or.inr (hc.registered id' hm)
    · exact Or.inl rfl
  · rw [h.waiting] at hid'
    rcases List.mem_append.mp hid' with hm | hm
    · rw [hother id' (hne id' (List.mem_append_left _ hm))]
      exact hc.waiting_status id' hm
    · rw [List.mem_singleton.mp hm, hself]
      exact hstatus
  · rw [h.running] at hid'
    rw [hother id' (hne id' (List.mem_append_right _ hid'))]
    exact hc.running_status id' hid'
  · rw [hmem]
    by_cases he : id' = id
    · exact Or.inr he
    · rw [h.requests, Finset.mem_insert] at hid'
      rw [hother id' he] at hf
      exact Or.inl (hc.complete id' (hid'.resolve_left he) hf)

-- Requests leave the queues because they are finished.
theorem consistent_filter {keep : ReqId → Prop} [DecidablePred keep] (hc : Consistent s)
    (hw : s'.waiting = s.waiting.filter fun id => keep id)
    (hr : s'.running = s.running.filter fun id => keep id)
    (hregistered : ∀ id ∈ s.requests, ¬(s.objs id).status.is_finished → keep id →
      id ∈ s'.requests)
    (hrequests : s'.requests ⊆ s.requests)
    (hstatus : ∀ id, keep id → (s'.objs id).status = (s.objs id).status)
    (hfin : ∀ id ∈ s.requests, ¬keep id → (s'.objs id).status.is_finished) : Consistent s' := by
  have happend : s'.waiting ++ s'.running = (s.waiting ++ s.running).filter fun id => keep id := by
    rw [hw, hr, List.filter_append]
  have hmem : ∀ id, id ∈ s'.waiting ++ s'.running ↔ id ∈ s.waiting ++ s.running ∧ keep id := by
    intro id
    rw [happend, List.mem_filter, decide_eq_true_iff]
  refine ⟨?_, fun id hid => ?_, fun id hid => ?_, fun id hid => ?_, fun id hid hf => ?_⟩
  · rw [happend]
    exact hc.nodup.filter _
  · obtain ⟨hm, hk⟩ := (hmem id).mp hid
    exact hregistered id (hc.registered id hm) (hc.unfinished hm) hk
  · rw [hw, List.mem_filter, decide_eq_true_iff] at hid
    rw [hstatus id hid.2]
    exact hc.waiting_status id hid.1
  · rw [hr, List.mem_filter, decide_eq_true_iff] at hid
    rw [hstatus id hid.2]
    exact hc.running_status id hid.1
  · have hin := hrequests hid
    have hk : keep id := by
      by_contra hk
      exact hf (hfin id hin hk)
    rw [hstatus id hk] at hf
    exact (hmem id).mpr ⟨hc.complete id hin hf, hk⟩

theorem FinishedBy.consistent {ids : List ReqId} {status : RequestStatus}
    (h : FinishedBy s s' ids status) (hc : Consistent s) (hstatus : status.is_finished) :
    Consistent s' := by
  apply consistent_filter hc h.waiting h.running
  · exact fun id hid _ hk => h.registered id hid hk
  · exact h.requests
  · intro id hk
    rw [h.objs, if_neg hk]
  · intro id _ hk
    rw [h.objs, if_pos (not_not.mp hk)]
    exact hstatus

theorem UpdatedBy.consistent {out : Output} {model_runner_output : ModelRunnerOutput LP}
    {stopped : Finset ReqId} (h : UpdatedBy cfg s s' out model_runner_output stopped)
    (hc : Consistent s) : Consistent s' := by
  apply consistent_filter hc h.waiting h.running
  · exact h.registered
  · exact h.requests
  · exact h.status
  · intro id _ hk
    exact h.stopped_status id (not_not.mp hk)

-- The sets that the plugin keeps do not matter to the queues.
theorem Consistent.setScheduled (hc : Consistent s) (ids : Finset ReqId) :
    Consistent { s with scheduled_req_ids := ids } :=
  hc.congr rfl rfl (fun _ => rfl) (.refl _)

namespace Engine

variable {e e' : Engine K} {op : Op K LP}

-- The scheduler is consistent, and not more requests run than may.
structure Sound (cfg : Config) (e : Engine K) : Prop where
  consistent : Consistent e.scheduler
  room : e.scheduler.running.length ≤ cfg.max_num_running_reqs
  updated : ∀ i ∈ e.updated, i < e.issued.length

theorem fresh_of_allowed {id : ReqId} {request : Request} (h : Consistent e.scheduler)
    (hok : Allowed e (.add_request id request : Op K LP)) :
    id ∉ e.scheduler.waiting ∧ id ∉ e.scheduler.running := by
  have hnot : id ∉ e.scheduler.waiting ++ e.scheduler.running := fun hm =>
    h.unfinished hm (hok.2 (h.registered id hm))
  rw [List.mem_append, not_or] at hnot
  exact hnot

-- What each call does, in a consistent state.
inductive Steps (cfg : Config) (base : Base K LP) (e : Engine K) : Op K LP → Engine K → Prop
  | add_request {id : ReqId} {request : Request} {s : Scheduler K}
      (hw : id ∉ e.scheduler.waiting) (hr : id ∉ e.scheduler.running)
      (hstatus : request.status.is_waiting) (h : AddedTo e.scheduler s id request) :
      Steps cfg base e (.add_request id request) { e with scheduler := s }
  | schedule {out : Output} {s : Scheduler K}
      (h : AscendScheduler.schedule cfg base e.scheduler = .ok (out, s)) :
      Steps cfg base e .schedule { e with scheduler := s, issued := e.issued ++ [out] }
  | update_from_output {i : Nat} {model_runner_output : ModelRunnerOutput LP} {out : Output}
      {ids : Finset ReqId} {s : Scheduler K} {stopped : Finset ReqId}
      (hi : i ∉ e.updated) (hout : e.issued[i]? = some out)
      (hids : ∀ id, id ∈ ids ↔ id ∈ e.scheduler.scheduled_req_ids ∧
        ¬(id ∈ e.scheduler.running ∧ (out.num_scheduled_tokens.lookup id).getD 0 ≠ 0))
      (h : UpdatedBy cfg { e.scheduler with scheduled_req_ids := ids } s out model_runner_output
        stopped) :
      Steps cfg base e (.update_from_output i model_runner_output)
        { e with scheduler := s, updated := insert i e.updated }
  | finish_requests {request_ids : RequestIds} {status : RequestStatus} {ids : Finset ReqId}
      {s : Scheduler K} (hstatus : status.is_finished)
      (hids : ∀ id, id ∈ ids ↔ id ∈ e.scheduler.scheduled_req_ids ∧
        ¬(id ∈ request_ids.traverse ∧ id ∈ e.scheduler.requests ∧
          (e.scheduler.objs id).status = .RUNNING))
      (h : FinishedBy { e.scheduler with scheduled_req_ids := ids } s request_ids.rest.named
        status) :
      Steps cfg base e (.finish_requests request_ids status) { e with scheduler := s }
  | set_forced_mode {mode : Option Nat} :
      Steps cfg base e (.set_forced_mode mode)
        { e with scheduler := { e.scheduler with forced_mode := mode } }
  | progress {kv : K} :
      Steps cfg base e (.progress kv) { e with scheduler := { e.scheduler with kv := kv } }

theorem steps_of_step (hl : base.Lawful cfg) (h : Consistent e.scheduler) (hok : Allowed e op)
    (hstep : step cfg base e op = some e') : Steps cfg base e op e' := by
  cases op with
  | add_request id request =>
      cases hstep
      obtain ⟨hw, hr⟩ := fresh_of_allowed h hok
      exact .add_request hw hr hok.1 (hl.add_request _ id request h hw hr)
  | schedule =>
      simp only [step] at hstep
      split at hstep
      · rename_i out s hs
        cases hstep
        exact .schedule hs
      · cases hstep
  | update_from_output i model_runner_output =>
      obtain ⟨out, hout, hstep⟩ := Option.bind_eq_some_iff.mp hstep
      obtain ⟨s, hs, hstep⟩ := Option.bind_eq_some_iff.mp hstep
      cases hstep
      obtain ⟨stopped, hu⟩ := hl.update_from_output _ _ _ _ (h.setScheduled _) hs
      exact .update_from_output hok hout (fun _ => mem_update_scheduled) hu
  | finish_requests request_ids status =>
      obtain ⟨s, hs, hstep⟩ := Option.bind_eq_some_iff.mp hstep
      cases hstep
      unfold AscendScheduler.finish_requests at hs
      rw [discard_running_eq] at hs
      obtain ⟨s', hs', hf⟩ := hl.finish_requests _ request_ids.rest status
        (h.setScheduled (discard_running e.scheduler request_ids.traverse).scheduled_req_ids) hok
      obtain rfl := Option.some.inj (hs'.symm.trans hs)
      exact .finish_requests hok (fun _ => mem_discard_running) hf
  | set_forced_mode mode =>
      obtain ⟨s, hs, hstep⟩ := Option.bind_eq_some_iff.mp hstep
      cases hstep
      obtain ⟨u, -, hs⟩ := Option.bind_eq_some_iff.mp hs
      cases hs
      exact .set_forced_mode
  | progress kv =>
      cases hstep
      exact .progress

theorem Sound.step (h : Sound cfg e) (hs : Steps cfg base e op e') : Sound cfg e' := by
  cases hs with
  | add_request hw hr hstatus ha =>
      refine ⟨ha.consistent h.consistent hw hr hstatus, ?_, h.updated⟩
      rw [ha.running]
      exact h.room
  | schedule hs =>
      obtain ⟨hc, hroom⟩ := schedule_consistent h.consistent h.room hs
      refine ⟨hc, hroom, fun i hi => ?_⟩
      have := h.updated i hi
      rw [List.length_append]
      omega
  | update_from_output hi hout hids hu =>
      refine ⟨hu.consistent (h.consistent.setScheduled _), ?_, fun j hj => ?_⟩
      · rw [hu.running]
        exact (List.length_filter_le _ _).trans h.room
      · rcases Finset.mem_insert.mp hj with rfl | hj
        · exact (List.getElem?_eq_some_iff.mp hout).1
        · exact h.updated j hj
  | finish_requests hstatus hids hf =>
      refine ⟨hf.consistent (h.consistent.setScheduled _) hstatus, ?_, h.updated⟩
      rw [hf.running]
      exact (List.length_filter_le _ _).trans h.room
  | set_forced_mode | progress =>
      exact ⟨h.consistent.congr rfl rfl (fun _ => rfl) (.refl _), h.room, h.updated⟩

theorem sound_init (kv : K) (objs : ReqId → Request) : Sound cfg (init kv objs) where
  consistent := ⟨List.nodup_nil, by simp [init], by simp [init], by simp [init], by simp [init]⟩
  room := Nat.zero_le _
  updated := by simp [init]

theorem sound_reachable (hl : base.Lawful cfg) {kv : K} {objs : ReqId → Request}
    (h : Run.Reachable (step cfg base) Allowed (init kv objs) e) : Sound cfg e :=
  h.invariant (Sound cfg) (sound_init kv objs) fun _ _ _ hinv hok hstep =>
    hinv.step (steps_of_step hl hinv.consistent hok hstep)

end Engine

end Steps

section Pool

-- A cache manager with one group and no prefix cache: how many blocks are free, and how many
-- each request holds.
structure Pool where
  free : Nat
  held : ReqId → Nat

def Pool.allocate (pool : Pool) (id : ReqId) (needed : Nat) : Pool × Option KVCacheBlocks :=
  let num_new_blocks := needed - pool.held id
  if num_new_blocks ≤ pool.free then
    ({ free := pool.free - num_new_blocks
       held := Function.update pool.held id (pool.held id + num_new_blocks) },
      some [List.replicate num_new_blocks ⟨1, 1⟩])
  else (pool, none)

def Pool.release (pool : Pool) (id : ReqId) : Pool where
  free := pool.free + pool.held id
  held := Function.update pool.held id 0

-- The requests of an output that stop with their next token.
def stops (cfg : Config) (s : Scheduler Pool) (out : Output)
    (model_runner_output : ModelRunnerOutput Unit) : Finset ReqId :=
  (out.num_scheduled_tokens.keys.filter fun id => id ∈ s.running ∧
    cfg.max_model_len ≤ (s.objs id).num_tokens + (generated model_runner_output id).length).toFinset

-- The base class with this cache manager; a request stops at the length of the model.
def poolBase (cfg : Config) : Base Pool Unit where
  get_computed_blocks := fun pool _ _ => (pool, [[]], 0)
  create_empty_block_list := [[]]
  allocate_slots := fun pool id request n _ _ _ _ =>
    pool.allocate id (cdiv (request.num_computed_tokens + n.toNat) cfg.block_size)
  free := Pool.release
  get_blocks := fun pool id => [List.replicate (pool.held id) ⟨1, 1⟩]
  get_num_free_blocks := Pool.free
  connector := none
  update_waiting_for_remote_kv := fun pool _ request => (pool, request.num_computed_tokens, false)
  grammar_ready := fun _ _ => true
  make_cached_request_data := fun running resumed _ _ blocks =>
    ((running ++ resumed).map fun (id, request) =>
      { req_id := id
        new_block_ids := (blocks.lookup id).map KVCacheBlocks.get_block_ids
        num_computed_tokens := request.num_computed_tokens },
      (resumed.map Prod.fst).toFinset)
  add_request := fun s id request => { s with
    waiting := s.waiting ++ [id]
    requests := insert id s.requests
    objs := Function.update s.objs id request }
  finish_requests := fun s request_ids status =>
    if status.is_finished then
      let ids := request_ids.named.filter fun id => s.Hits request_ids.named id
      some { s with
        waiting := s.waiting.filter fun id => ¬s.Hits request_ids.named id
        running := s.running.filter fun id => ¬s.Hits request_ids.named id
        requests := s.requests.filter fun id => ¬s.Hits request_ids.named id
        objs := fun id => if s.Hits request_ids.named id then { s.objs id with status := status }
          else s.objs id
        finished_req_ids := ids.foldl (fun l id => l.insert id) s.finished_req_ids
        kv := ids.foldl Pool.release s.kv }
    else none
  update_from_output := fun s out model_runner_output =>
    let stopped := stops cfg s out model_runner_output
    let ids := s.running.filter fun id => id ∈ stopped
    some { s with
      waiting := s.waiting.filter fun id => id ∉ stopped
      running := s.running.filter fun id => id ∉ stopped
      requests := s.requests.filter fun id => id ∉ stopped
      objs := fun id =>
        if id ∈ s.running ∧ id ∈ out.num_scheduled_tokens then { s.objs id with
          output_token_ids := (s.objs id).output_token_ids ++ generated model_runner_output id
          status := if id ∈ stopped then .FINISHED_LENGTH_CAPPED else (s.objs id).status }
        else s.objs id
      finished_req_ids := ids.foldl (fun l id => l.insert id) s.finished_req_ids
      kv := ids.foldl Pool.release s.kv }

theorem mem_stops {cfg : Config} {s : Scheduler Pool} {out : Output}
    {model_runner_output : ModelRunnerOutput Unit} {id : ReqId} :
    id ∈ stops cfg s out model_runner_output ↔ id ∈ out.num_scheduled_tokens ∧ id ∈ s.running ∧
      cfg.max_model_len ≤
        (s.objs id).num_tokens + (generated model_runner_output id).length := by
  rw [stops, List.mem_toFinset, List.mem_filter, decide_eq_true_iff, AList.mem_keys]

theorem poolBase_lawful (cfg : Config) : (poolBase cfg).Lawful cfg where
  add_request := fun s id request _ _ _ => ⟨rfl, rfl, rfl, rfl, rfl, rfl⟩
  finish_requests := fun s request_ids status _ hstatus => by
    refine ⟨_, if_pos hstatus, rfl, rfl, fun id hid hk => ?_, Finset.filter_subset _ _,
      fun id => rfl, rfl, rfl⟩
    exact Finset.mem_filter.mpr ⟨hid, hk⟩
  update_from_output := fun s s' out model_runner_output hc hs => by
    cases hs
    refine ⟨stops cfg s out model_runner_output, fun id hid => (mem_stops.mp hid).1,
      fun id hid => ?_, rfl, rfl, fun id hid _ hk => ?_, Finset.filter_subset _ _, fun id hid => ?_,
      rfl, rfl, fun id hid => ?_, fun id hr hid hk => ?_, fun id _ => ?_,
      fun id hr hid hk _ => ?_⟩
    · obtain ⟨hkey, hr, -⟩ := mem_stops.mp hid
      simp [hkey, hr, hid, RequestStatus.is_finished]
    · exact Finset.mem_filter.mpr ⟨hid, hk⟩
    · dsimp only
      split
      · simp
      · rfl
    · simp [hid]
    · simp [hr, hid]
    · dsimp only
      split <;> exact ⟨rfl, rfl⟩
    · have hlt : ¬cfg.max_model_len ≤
          (s.objs id).num_tokens + (generated model_runner_output id).length := fun hle =>
        hk (mem_stops.mpr ⟨hid, hr, hle⟩)
      simp only [hr, hid, and_self, ite_true, Request.num_tokens, List.length_append] at hlt ⊢
      omega
  cached_req_ids := fun running resumed counts spec blocks => by
    simp only [poolBase, List.map_map]
    rfl

def smallPool : Config where
  max_num_scheduled_tokens := 8
  max_num_running_reqs := 2
  max_model_len := 64
  block_size := 16
  num_blocks := 4
  num_lookahead_tokens := 0
  watermark := 0
  lora_config := none

def newRequest (prompt_token_ids : List Token) : Request where
  status := .WAITING
  prompt_token_ids := prompt_token_ids
  output_token_ids := []
  spec_token_ids := []
  num_computed_tokens := 0
  num_cached_tokens := -1
  sampling_params := none
  pooling_params := none
  lora_request := none

def Engine.start : Engine Pool := Engine.init ⟨3, fun _ => 0⟩ fun _ => newRequest []

end Pool

end TTXla.VllmTT.AscendScheduler
