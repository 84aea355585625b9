import TTXla.VllmTT.AscendScheduler.Conservation

-- Whether a request that has run can be dropped as too long.
namespace TTXla.VllmTT.AscendScheduler

open Excepts (bind_eq_ok ensure_eq_ok)

variable {K LP : Type} {cfg : Config} {base : Base K LP}

section Limits

theorem unblock_lora {kv kv' : K} {id : ReqId} {r r' : Request} {ready : Bool}
    (h : unblock base kv id r = (kv', r', ready)) : r'.lora_request = r.lora_request := by
  unfold unblock at h
  by_cases hremote : r.status = .WAITING_FOR_REMOTE_KVS
  · rw [if_pos hremote] at h
    dsimp only at h
    cases hready : (base.update_waiting_for_remote_kv kv id r).2.2 with
    | true =>
        simp only [hready, ite_true, reduceCtorEq, and_false, ite_false, Prod.mk.injEq] at h
        obtain ⟨-, rfl, -⟩ := h
        rfl
    | false =>
        simp only [hready, Bool.false_eq_true, ite_false, false_and, Prod.mk.injEq] at h
        obtain ⟨-, rfl, -⟩ := h
        rfl
  · rw [if_neg hremote] at h
    simp only [true_and] at h
    split at h
    · split at h
      · cases h
        rfl
      · cases h
        rfl
    · cases h
      rfl

theorem get_prompt_limit_congr {r r' : Request} (h : r'.lora_request = r.lora_request) :
    get_prompt_limit cfg r' = get_prompt_limit cfg r := by
  unfold get_prompt_limit
  rw [h]

-- What the limit has to do with a verdict.
structure Limited (cfg : Config) (limit : Nat) (r : Request) (v : Verdict) : Prop where
  prompt_limit : get_prompt_limit cfg r = .ok limit
  ignore : v = .ignore → min limit (cfg.num_blocks * cfg.block_size) < r.num_tokens
  enter : ∀ c n b, v = .enter c n b → n ≤ min limit (cfg.num_blocks * cfg.block_size)

-- A request is found too long, or is scheduled, by its limit only.
theorem judge_limited {kv kv' : K} {loras : Finset Nat} {token_budget : Int} {id : ReqId}
    {r r' : Request} {v : Verdict}
    (h : judge cfg base kv loras token_budget id r = .ok (kv', r', v))
    (hv : v = .ignore ∨ ∃ c n b, v = .enter c n b) : ∃ limit, Limited cfg limit r v := by
  have htokens := (judge_spec h).tokens.num_tokens
  unfold judge at h
  split at h
  rename_i kv₁ r₁ ready hu
  have hlora := unblock_lora hu
  have htokens₁ := (unblock_spec hu).1.num_tokens
  split at h
  · cases h
    simp at hv
  split at h
  · cases h
    simp at hv
  obtain ⟨c, -, h⟩ := bind_eq_ok.mp h
  split at h
  · rename_i hasync
    obtain ⟨-, -, h⟩ := bind_eq_ok.mp h
    cases h
    rcases hv with hv | ⟨c', n, b, hv⟩
    · exact absurd hv place_ne_ignore
    · have := (place_enter hv).1
      rw [this] at hasync
      cases hasync
  obtain ⟨limit, hlimit, h⟩ := bind_eq_ok.mp h
  rw [get_prompt_limit_congr hlora] at hlimit
  dsimp only at h
  split at h
  · rename_i hlong
    cases h
    exact ⟨limit, hlimit, fun _ => by omega, by simp⟩
  rename_i hshort
  split at h
  · cases h
    simp at hv
  obtain ⟨u, -, h⟩ := bind_eq_ok.mp h
  obtain ⟨blocks, -, h⟩ := bind_eq_ok.mp h
  cases h
  refine ⟨limit, hlimit, fun hv => absurd hv place_ne_ignore, fun c' n b hv => ?_⟩
  obtain ⟨-, rfl, rfl⟩ := place_enter hv
  omega

end Limits

section Schedule

variable {s s' : Scheduler K} {out : Output}

theorem PrefillStep.pending {q q' : List ReqId × Pass K} (h : PrefillStep cfg base q q')
    (hnodup : q.1.Nodup) {id : ReqId} (hid : id ∈ q'.1) :
    id ∈ q.1 ∧ q'.2.self.objs id = q.2.self.objs id := by
  have hne : ∀ {id₀ : ReqId} {w : List ReqId}, (id₀ :: w).Nodup → id ∈ w → id ≠ id₀ := by
    rintro id₀ w hn hm rfl
    exact (List.nodup_cons.mp hn).1 hm
  cases h with
  | skip hd =>
      refine ⟨List.mem_cons_of_mem _ hid, ?_⟩
      exact Function.update_of_ne (hne hnodup hid) _ _
  | ignore hd | load hd =>
      refine ⟨List.mem_cons_of_mem _ hid, ?_⟩
      exact (Function.update_of_ne (hne hnodup hid) _ _).trans
        (Function.update_of_ne (hne hnodup hid) _ _)
  | enter hd henter =>
      refine ⟨List.mem_cons_of_mem _ hid, ?_⟩
      exact ((enter_spec henter).other id (hne hnodup hid)).trans
        (Function.update_of_ne (hne hnodup hid) _ _)

-- The requests that are left of the queue are as they were.
theorem prefillSteps_pending {q : List ReqId × Pass K} (hc : Consistent s)
    (hroom : s.running.length ≤ cfg.max_num_running_reqs)
    (h : PrefillSteps cfg base (s.waiting, Pass.start cfg s) q) {id : ReqId} (hid : id ∈ q.1) :
    id ∈ s.waiting ∧ q.2.self.objs id = s.objs id := by
  induction h with
  | refl => exact ⟨hid, rfl⟩
  | tail hsteps hstep ih =>
      have hnodup := ((prefilling_start hc hroom).steps hsteps).queued.nodup
      have hrest := (List.nodup_append.mp (List.nodup_append.mp hnodup).1).2.1
      obtain ⟨h1, h2⟩ := hstep.pending hrest hid
      obtain ⟨h3, h4⟩ := ih h1
      exact ⟨h3, h2.trans h4⟩

-- A request that the steps drop was dropped by one of them.
theorem prefillSteps_dropped (hc : Consistent s)
    (hroom : s.running.length ≤ cfg.max_num_running_reqs) {q : List ReqId × Pass K}
    (h : PrefillSteps cfg base (s.waiting, Pass.start cfg s) q) {id : ReqId}
    (hbefore : (s.objs id).status ≠ .FINISHED_IGNORED)
    (hafter : (q.2.self.objs id).status = .FINISHED_IGNORED) :
    ∃ w p kv request, PrefillSteps cfg base (s.waiting, Pass.start cfg s) (id :: w, p) ∧
      Decides cfg base p id kv request .ignore := by
  induction h with
  | refl => exact absurd hafter hbefore
  | tail hsteps hstep ih =>
      have hp' := ((prefilling_start hc hroom).steps hsteps).step hstep
      cases hstep with
      | @ignore id' w p kv request hd =>
          by_cases he : id = id'
          · subst he
            exact ⟨w, p, kv, request, hsteps, hd⟩
          · apply ih
            change (Function.update (Function.update p.self.objs id' request) id' _ id).status = _
              at hafter
            rwa [Function.update_of_ne he, Function.update_of_ne he] at hafter
      | @skip id' w p kv request hd =>
          by_cases he : id = id'
          · subst he
            refine absurd ?_ (hp'.queued.unfinished (show id ∈ _ by simp [Pass.skip]))
            rw [hafter]
            rfl
          · apply ih
            change (Function.update p.self.objs id' request id).status = _ at hafter
            rwa [Function.update_of_ne he] at hafter
      | @load id' w p kv request hd =>
          by_cases he : id = id'
          · subst he
            refine absurd ?_ (hp'.queued.unfinished (show id ∈ _ by simp [Pass.load, Pass.skip,
              Pass.setStatus, Pass.setRequest]))
            rw [hafter]
            rfl
          · apply ih
            change (Function.update (Function.update p.self.objs id' request) id' _ id).status = _
              at hafter
            rwa [Function.update_of_ne he, Function.update_of_ne he] at hafter
      | @enter id' w p p' kv request c n blocks hd henter =>
          by_cases he : id = id'
          · subst he
            rw [(enter_spec henter).status] at hafter
            cases hafter
          · apply ih
            rw [(enter_spec henter).other id he] at hafter
            change (Function.update p.self.objs id' request id).status = _ at hafter
            rwa [Function.update_of_ne he] at hafter

-- A request that a call drops was waiting, and longer than its limit.
theorem dropped_spec (hc : Consistent s) (hroom : s.running.length ≤ cfg.max_num_running_reqs)
    (hs : schedule cfg base s = .ok (out, s')) {id : ReqId}
    (hbefore : (s.objs id).status ≠ .FINISHED_IGNORED)
    (hafter : (s'.objs id).status = .FINISHED_IGNORED) :
    s.forced_mode ≠ some 0 ∧ id ∈ s.waiting ∧ ∃ limit,
      get_prompt_limit cfg (s.objs id) = .ok limit ∧
      min limit (cfg.num_blocks * cfg.block_size) < (s.objs id).num_tokens := by
  obtain ⟨p, hsched⟩ := schedule_spec hs
  obtain ⟨w, p₀, p₁, hsteps, hp₁, hends, hstatus⟩ := run_loops_status hsched.loops
  have hp := (prefilling_start hc hroom).steps hsteps
  have h₁ : (p₁.self.objs id).status = .FINISHED_IGNORED := by
    rw [hsched.status] at hafter
    rcases hstatus id with h | ⟨-, h⟩
    · rw [← h, hafter]
    · rw [h] at hafter
      cases hafter
  have h₀ : (p₀.self.objs id).status = .FINISHED_IGNORED := by
    by_cases hw : id ∈ w
    · refine absurd ?_ ((hp.ends hends).1.queued.unfinished (show id ∈ _ by simp [hw]))
      rw [h₁]
      rfl
    · rwa [← hends.other hw]
  obtain ⟨w', q, kv, request, hsteps', hd⟩ := prefillSteps_dropped hc hroom hsteps hbefore h₀
  have hq := (prefilling_start hc hroom).steps hsteps'
  obtain ⟨hmem, hobj⟩ := prefillSteps_pending hc hroom hsteps' (show id ∈ _ by simp)
  obtain ⟨limit, hlimited⟩ := judge_limited hd.judge (.inl rfl)
  rw [hobj] at hlimited
  refine ⟨?_, hmem, limit, hlimited.prompt_limit, hlimited.ignore rfl⟩
  rw [← hq.mode]
  exact hd.mode

-- The loops leave the tokens of all requests.
theorem schedule_num_tokens (hc : Consistent s)
    (hroom : s.running.length ≤ cfg.max_num_running_reqs)
    (hs : schedule cfg base s = .ok (out, s')) (id : ReqId) :
    (s'.objs id).num_tokens = (s.objs id).num_tokens := by
  obtain ⟨p, hsched⟩ := schedule_spec hs
  rw [(hsched.tokens id).num_tokens]
  obtain ⟨-, ⟨w, hp⟩ | ⟨i, hd⟩⟩ := run_loops_spec hc hroom hsched.loops
  · exact (hp.tokens id).num_tokens
  · exact hd.num_tokens id

theorem schedule_requests (hc : Consistent s)
    (hroom : s.running.length ≤ cfg.max_num_running_reqs)
    (hs : schedule cfg base s = .ok (out, s')) : s'.requests = s.requests := by
  obtain ⟨p, hsched⟩ := schedule_spec hs
  rw [hsched.requests]
  obtain ⟨-, ⟨w, hp⟩ | ⟨i, hd⟩⟩ := run_loops_spec hc hroom hsched.loops
  · exact hp.requests
  · exact hd.requests

-- A call puts no request into a queue that was in none.
theorem schedule_queued (hc : Consistent s)
    (hroom : s.running.length ≤ cfg.max_num_running_reqs)
    (hs : schedule cfg base s = .ok (out, s')) {id : ReqId}
    (hid : id ∈ s'.waiting ++ s'.running) : id ∈ s.waiting ++ s.running := by
  obtain ⟨hc', -⟩ := schedule_consistent hc hroom hs
  have hunfinished := hc'.unfinished hid
  apply hc.complete id
  · rw [← schedule_requests hc hroom hs]
    exact hc'.registered id hid
  · intro hf
    apply hunfinished
    have hnot : id ∉ s.waiting := fun hw =>
      RequestStatus.not_finished_of_waiting (hc.waiting_status id hw) hf
    obtain ⟨p, hsched⟩ := schedule_spec hs
    obtain ⟨w, p₀, p₁, hsteps, hp₁, hends, hstatus⟩ := run_loops_status hsched.loops
    obtain ⟨h1, h2⟩ := prefillSteps_other hsteps hnot
    have hobj : p₁.self.objs id = s.objs id := (hends.other h2).trans h1
    rw [hsched.status]
    rcases hstatus id with h | ⟨h, -⟩
    · rwa [h, hobj]
    · obtain ⟨w', hpref, -⟩ := prefill_loop_spec hc hroom hp₁
      have hrun : (p₁.self.objs id).status = .RUNNING := hpref.queued.running_status id h
      rw [hobj] at hrun
      rw [hrun] at hf
      cases hf

end Schedule

-- A request that goes on after an update is no longer than the model allows, if it grew.
def Base.Caps (base : Base K LP) (cfg : Config) : Prop :=
  ∀ s s' out model_runner_output, Consistent s →
    base.update_from_output s out model_runner_output = some s' →
    ∀ id ∈ s'.waiting ++ s'.running, (s'.objs id).num_tokens = (s.objs id).num_tokens ∨
      (s'.objs id).num_tokens ≤ cfg.max_model_len

-- The request may be prefilled in one step, into the whole cache.
def Resumable (cfg : Config) (r : Request) : Prop :=
  r.num_tokens ≤ cfg.num_blocks * cfg.block_size ∧
    (r.num_tokens ≤ cfg.max_num_scheduled_tokens ∨
      ∃ len ∈ r.lora_request.bind LoRARequest.long_lora_max_len, r.num_tokens ≤ len)

instance (cfg : Config) (r : Request) : Decidable (Resumable cfg r) :=
  inferInstanceAs (Decidable (_ ∧ (_ ∨ _)))

-- An engine with its history: the requests that have run since they were added, and those of
-- them that a call of `schedule` has finished as too long.
structure Watched (K : Type) where
  engine : Engine K
  ran : Finset ReqId
  dropped : Finset ReqId

namespace Watched

def init (kv : K) (objs : ReqId → Request) : Watched K := ⟨Engine.init kv objs, ∅, ∅⟩

-- An id that is added again belongs to another request.
def ran_after (t : Watched K) : Op K LP → Finset ReqId
  | .add_request id _ => t.ran.erase id
  | _ => t.ran

def dropped_by (t : Watched K) (s : Scheduler K) : Op K LP → Finset ReqId
  | .schedule => t.ran.filter fun id => (t.engine.scheduler.objs id).status ≠ .FINISHED_IGNORED ∧
      (s.objs id).status = .FINISHED_IGNORED
  | _ => ∅

def step (cfg : Config) (base : Base K LP) (t : Watched K) (op : Op K LP) : Option (Watched K) :=
  (t.engine.step cfg base op).map fun e =>
    { engine := e
      ran := t.ran_after op ∪ e.scheduler.running.toFinset
      dropped := t.dropped ∪ t.dropped_by e.scheduler op }

-- The engine adds no request that is longer than the model allows.
def Admissible (cfg : Config) : Op K LP → Prop
  | .add_request _ request => request.num_tokens ≤ cfg.max_model_len
  | _ => True

-- When requests are taken from the queue, those among them that have run can be resumed.
def Resumes (cfg : Config) (t : Watched K) : Op K LP → Prop
  | .schedule => t.engine.scheduler.forced_mode ≠ some 0 →
      ∀ id ∈ t.engine.scheduler.waiting, id ∈ t.ran → Resumable cfg (t.engine.scheduler.objs id)
  | _ => True

structure Allowed (cfg : Config) (t : Watched K) (op : Op K LP) : Prop where
  engine : Engine.Allowed t.engine op
  admissible : Admissible cfg op
  resumes : Resumes cfg t op

variable {t t' : Watched K} {op : Op K LP}

structure Sound (cfg : Config) (t : Watched K) : Prop where
  engine : Engine.Sound cfg t.engine
  short : ∀ id ∈ t.engine.scheduler.waiting ++ t.engine.scheduler.running,
    (t.engine.scheduler.objs id).num_tokens ≤ cfg.max_model_len
  dropped : t.dropped = ∅

-- Only an arrival and an update make a request in a queue longer.
theorem Sound.short_step {e' : Engine K} (h : Sound cfg t) (hl : base.Lawful cfg)
    (hcap : base.Caps cfg) (hok : Allowed cfg t op)
    (hstep : t.engine.step cfg base op = some e') :
    ∀ id ∈ e'.scheduler.waiting ++ e'.scheduler.running,
      (e'.scheduler.objs id).num_tokens ≤ cfg.max_model_len := by
  have hc := h.engine.consistent
  have hroom := h.engine.room
  intro id hid
  have hsteps := Engine.steps_of_step hl hc hok.engine hstep
  cases hsteps with
  | @add_request id₀ request s' hw hr hstatus ha =>
      dsimp only at hid ⊢
      rw [ha.objs]
      by_cases he : id = id₀
      · subst he
        rw [Function.update_self]
        exact hok.admissible
      · rw [Function.update_of_ne he]
        apply h.short id
        rw [ha.waiting, ha.running] at hid
        simp only [List.mem_append, List.mem_singleton, he, or_false] at hid ⊢
        exact hid
  | schedule hs =>
      dsimp only at hid ⊢
      rw [schedule_num_tokens hc hroom hs]
      exact h.short id (schedule_queued hc hroom hs hid)
  | @update_from_output i model_runner_output out ids s' stopped hi hout hids hu =>
      obtain ⟨out', -, hupdate⟩ := Option.bind_eq_some_iff.mp hstep
      obtain ⟨s₁, hs₁, he⟩ := Option.bind_eq_some_iff.mp hupdate
      cases he
      dsimp only at hid ⊢
      rcases hcap _ _ out' model_runner_output (hc.setScheduled _) hs₁ id hid with heq | hle
      · rw [heq]
        apply h.short id
        rw [hu.waiting, hu.running, ← List.filter_append] at hid
        exact (List.mem_filter.mp hid).1
      · exact hle
  | finish_requests hstatus hids hf =>
      dsimp only at hid ⊢
      rw [hf.waiting, hf.running, ← List.filter_append] at hid
      obtain ⟨hmem, hkeep⟩ := List.mem_filter.mp hid
      rw [hf.objs, if_neg (by simpa using hkeep)]
      exact h.short id hmem
  | set_forced_mode | progress => exact h.short id hid

-- No call drops a request that can be resumed: it is not longer than the model allows, so
-- that the budget and the cache are all there is to the limit.
theorem Sound.keeps {s' : Scheduler K} {out : Output} (h : Sound cfg t)
    (hok : Allowed cfg t (.schedule : Op K LP))
    (hs : schedule cfg base t.engine.scheduler = .ok (out, s')) :
    t.dropped_by s' (.schedule : Op K LP) = ∅ := by
  apply Finset.filter_eq_empty_iff.mpr
  rintro id hran ⟨hbefore, hafter⟩
  obtain ⟨hmode, hwaiting, limit, hlimit, hlong⟩ :=
    dropped_spec h.engine.consistent h.engine.room hs hbefore hafter
  obtain ⟨hcache, hbudget⟩ := hok.resumes hmode id hwaiting hran
  have hshort := h.short id (List.mem_append_left _ hwaiting)
  generalize t.engine.scheduler.objs id = r at *
  unfold get_prompt_limit at hlimit
  dsimp only at hlimit
  split at hlimit
  · rename_i hnone
    cases hlimit
    rw [hnone] at hbudget
    simp only [Option.mem_def, reduceCtorEq, false_and, exists_false, or_false] at hbudget
    omega
  · rename_i hzero
    cases hlimit
    rw [hzero] at hbudget
    simp only [Option.mem_def, Option.some.injEq, exists_eq_left'] at hbudget
    omega
  · rename_i len hne hlen
    obtain ⟨u, hge, hlimit⟩ := bind_eq_ok.mp hlimit
    have hge := ensure_eq_ok.mp hge
    cases hlimit
    rw [hlen] at hbudget
    simp only [Option.mem_def, Option.some.injEq, exists_eq_left'] at hbudget
    omega

theorem Sound.step (h : Sound cfg t) (hl : base.Lawful cfg) (hcap : base.Caps cfg)
    (hok : Allowed cfg t op) (hstep : t.step cfg base op = some t') : Sound cfg t' := by
  obtain ⟨e', he', rfl⟩ := Option.map_eq_some_iff.mp hstep
  have hsteps := Engine.steps_of_step hl h.engine.consistent hok.engine he'
  refine ⟨h.engine.step hsteps, h.short_step hl hcap hok he', ?_⟩
  dsimp only
  rw [h.dropped, Finset.empty_union]
  cases hsteps with
  | schedule hs => exact h.keeps hok hs
  | add_request | update_from_output | finish_requests | set_forced_mode | progress => rfl

theorem sound_init (kv : K) (objs : ReqId → Request) : Sound cfg (init kv objs) where
  engine := Engine.sound_init kv objs
  short := by simp [init, Engine.init]
  dropped := rfl

-- In every run in which the requests that have run can be resumed when requests are taken from
-- the queue, none of them is dropped as too long.
theorem none_dropped (hl : base.Lawful cfg) (hcap : base.Caps cfg) {kv : K}
    {objs : ReqId → Request}
    (h : Run.Reachable (step cfg base) (Allowed cfg) (init kv objs) t) : t.dropped = ∅ := by
  have hsound : Sound cfg t := h.invariant (Sound cfg) (sound_init kv objs) fun _ _ _ hinv hok hs =>
    hinv.step hl hcap hok hs
  exact hsound.dropped

section Example

instance (cfg : Config) : (op : Op K LP) → Decidable (Admissible cfg op)
  | .add_request _ request => inferInstanceAs (Decidable (request.num_tokens ≤ cfg.max_model_len))
  | .schedule | .update_from_output _ _ | .finish_requests _ _ | .set_forced_mode _
  | .progress _ => inferInstanceAs (Decidable True)

instance (cfg : Config) (t : Watched K) : (op : Op K LP) → Decidable (Resumes cfg t op)
  | .schedule => inferInstanceAs (Decidable (_ → ∀ id ∈ t.engine.scheduler.waiting, _ → _))
  | .add_request _ _ | .update_from_output _ _ | .finish_requests _ _ | .set_forced_mode _
  | .progress _ => inferInstanceAs (Decidable True)

instance (cfg : Config) (t : Watched K) (op : Op K LP) : Decidable (Allowed cfg t op) :=
  decidable_of_iff (Engine.Allowed t.engine op ∧ Admissible cfg op ∧ Resumes cfg t op)
    ⟨fun h => ⟨h.1, h.2.1, h.2.2⟩, fun h => ⟨h.1, h.2, h.3⟩⟩

theorem poolBase_caps (cfg : Config) : (poolBase cfg).Caps cfg := by
  intro s s' out model_runner_output hc hs id hid
  cases hs
  simp only [← List.filter_append, List.mem_filter, decide_eq_true_eq] at hid
  dsimp only
  split
  · rename_i hrun
    right
    have hlt : ¬cfg.max_model_len ≤
        (s.objs id).num_tokens + (generated model_runner_output id).length := fun hle =>
      hid.2 (mem_stops.mpr ⟨hrun.2, hrun.1, hle⟩)
    simp only [Request.num_tokens, List.length_append] at hlt ⊢
    omega
  · exact .inl rfl

-- Two prompts of as many tokens as a step takes, in a cache of four blocks of four tokens.
def twoFull (max_num_scheduled_tokens : Nat) : Config where
  max_num_scheduled_tokens := max_num_scheduled_tokens
  max_num_running_reqs := 2
  max_model_len := 64
  block_size := 4
  num_blocks := 5
  num_lookahead_tokens := 0
  watermark := 0
  lora_config := none

def sampledFor (id : ReqId) : ModelRunnerOutput Unit where
  req_ids := [id]
  req_id_to_index := (∅ : Dict ReqId Nat).insert id 0
  sampled_token_ids := [[7]]
  logprobs := none

-- Both are prefilled and get a token; then the second one is preempted, and taken again.
def preemptSecond : List (Op Pool Unit) := [
  .add_request "A" (newRequest (List.replicate 8 1)),
  .add_request "B" (newRequest (List.replicate 8 1)),
  .schedule, .schedule,
  .update_from_output 0 (sampledFor "A"),
  .update_from_output 1 (sampledFor "B"),
  .schedule,
  .schedule]

def start : Watched Pool := init ⟨4, fun _ => 0⟩ fun _ => newRequest []

def afterDrop : Watched Pool :=
  (Run.exec (step (twoFull 8) (poolBase (twoFull 8)))
    (fun t op => Engine.Allowed t.engine op ∧ Admissible (twoFull 8) op) start
    preemptSecond).get (by decide +kernel)

-- The second request has a ninth token by then, and is lost.
theorem afterDrop_dropped :
    Run.Reachable (step (twoFull 8) (poolBase (twoFull 8)))
      (fun t op => Engine.Allowed t.engine op ∧ Admissible (twoFull 8) op) start afterDrop ∧
    "B" ∈ afterDrop.dropped ∧
    ((afterDrop.engine.scheduler.objs "B").status = .FINISHED_IGNORED ∧
      (afterDrop.engine.scheduler.objs "B").output_token_ids = [7]) := by
  refine ⟨.of_exec preemptSecond .start (Option.some_get _).symm, ?_, ?_⟩
  · decide +kernel
  · decide +kernel

-- A step of nine tokens takes it back when there is room.
def resumeSecond : List (Op Pool Unit) :=
  preemptSecond ++ [.finish_requests (.collection ["A"]) .FINISHED_ABORTED, .schedule]

def afterResume : Watched Pool :=
  (Run.exec (step (twoFull 9) (poolBase (twoFull 9))) (Allowed (twoFull 9)) start
    resumeSecond).get (by decide +kernel)

theorem afterResume_none_dropped : afterResume.dropped = ∅ ∧
    afterResume.engine.scheduler.running = ["B"] :=
  ⟨none_dropped (poolBase_lawful (twoFull 9)) (poolBase_caps (twoFull 9))
    (.of_exec resumeSecond .start (Option.some_get _).symm), by decide +kernel⟩

end Example

end Watched

end TTXla.VllmTT.AscendScheduler
