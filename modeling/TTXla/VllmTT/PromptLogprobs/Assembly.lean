import TTXla.VllmTT.PromptLogprobs.Steps

-- The prompt logprobs of a request over the steps of its prefill.
namespace TTXla.VllmTT.PromptRunner

variable {T : Type} [BlockTable T] {κ H LP P : Type} {cfg : RunnerConfig} {sets : SetOrder}
  {mode : OutOfRange} {model : Model κ H LP} {g : PromptGraphs H P} {so : SchedulerOutput}
  {grammar_output : Option GrammarOutput}

-- What a scheduler promises: the total counts the scheduled requests.
@[mk_iff] structure Promised (s : PromptRunner T P × κ)
    (op : SchedulerOutput × Option GrammarOutput) : Prop
    extends Runner.Promised s.1.runner op.1 where
  total : op.1.num_scheduled_tokens.keys ≠ [] → 0 < op.1.total_num_scheduled_tokens

instance (s : PromptRunner T P × κ) (op : SchedulerOutput × Option GrammarOutput) :
    Decidable (Promised s op) :=
  decidable_of_iff _ (promised_iff s op).symm

-- The hidden states that a step computes for a request.
def row_states (cfg : RunnerConfig) (mode : OutOfRange) (model : Model κ H LP)
    (grammar_output : Option GrammarOutput) (rs : Runner T) (k : κ) (so : SchedulerOutput)
    (id : ReqId) : Option (List H) := do
  let i ← rs.input_batch.req_id_to_index.lookup id
  decoded cfg mode model so grammar_output rs.input_batch.num_reqs
    { rs with scheduler_output := none } k 0 i

-- The tensors that stay are of requests in the batch.
structure Sound (cfg : RunnerConfig) (s : PromptRunner T P) : Prop where
  tracked : Runner.Tracked cfg s.runner
  held : ∀ id, id ∈ s.in_progress → id ∈ s.runner.input_batch.req_id_to_index

theorem sound_init (cfg : RunnerConfig) (memory : InputBatch T) :
    Sound cfg (init memory : PromptRunner T P) where
  tracked := Runner.tracked_init cfg memory
  held := fun id hid => by simp [init] at hid

section Execute

variable {s mid : PromptRunner T P}

-- The state after `execute_model`.
theorem execute_model_eq (h : Runner.Tracked cfg s.runner) (hso : Runner.Fits s.runner so)
    (hr : execute_model cfg sets s so = some mid) :
    ∃ up, Runner.update_states cfg sets s.runner so = some up ∧
      mid.runner = { up with scheduler_output :=
        if so.total_num_scheduled_tokens = 0 then none else some so } ∧
      mid.in_progress = Runner.popAll s.in_progress (dropped_req_ids s.runner.input_batch so) := by
  obtain ⟨rs, hrs, hr⟩ := Option.bind_eq_some_iff.mp hr
  cases hr
  unfold Runner.execute_model at hrs
  simp only [Option.bind_eq_bind, Option.bind_eq_some_iff, Options.guard_eq_some] at hrs
  obtain ⟨-, hnone, up, hup, hrs⟩ := hrs
  refine ⟨up, hup, ?_, rfl⟩
  split at hrs
  · rename_i htotal
    obtain rfl : up = rs := Option.some.inj hrs
    obtain ⟨_, _, _, _, _, hframe⟩ :=
      (Runner.update_states_spec cfg sets h.toConsistent hso hup).frame
    have hidle : up.scheduler_output = none := by
      rw [hframe]
      exact Option.isNone_iff_eq_none.mp hnone
    rw [if_pos htotal, ← hidle]
  · rename_i htotal
    cases hrs
    rw [if_neg htotal]

omit [BlockTable T] in
theorem mem_dropped (b : InputBatch T) (so : SchedulerOutput) (id : ReqId) :
    id ∈ dropped_req_ids b so ↔ id ∈ b.req_id_to_index ∧
      (id ∈ so.finished_req_ids ∨ id ∉ so.num_scheduled_tokens) := by
  rw [dropped_req_ids, List.mem_filter, decide_eq_true_iff]
  exact and_congr_left' AList.mem_keys.symm

-- A request that is not scheduled, or is finished, has no tensors in progress any more.
theorem lookup_dropped (h : Sound cfg s) (hso : Runner.Fits s.runner so)
    (hr : execute_model cfg sets s so = some mid) (id : ReqId) :
    mid.in_progress.lookup id =
      if id ∈ so.finished_req_ids ∨ id ∉ so.num_scheduled_tokens then none
      else s.in_progress.lookup id := by
  obtain ⟨up, -, -, hdropped⟩ := execute_model_eq h.tracked hso hr
  rw [hdropped, Runner.lookup_popAll]
  simp only [mem_dropped]
  by_cases hid : id ∈ s.runner.input_batch.req_id_to_index
  · simp only [hid, true_and]
  · have hnone : s.in_progress.lookup id = none :=
      AList.lookup_eq_none.mpr fun hmem => hid (h.held id hmem)
    rw [hnone, ite_self, ite_self]

theorem sound_execute_model (h : Sound cfg s) (hso : Runner.Promised s.runner so)
    (hr : execute_model cfg sets s so = some mid) : Sound cfg mid := by
  obtain ⟨rs, hrs, he⟩ := Option.bind_eq_some_iff.mp hr
  obtain ⟨up, hup, hmid, -⟩ := execute_model_eq h.tracked hso.toFits hr
  refine ⟨?_, fun id hid => ?_⟩
  · cases he
    exact Runner.tracked_execute_model cfg sets h.tracked hso hrs
  · have hscheduled :=
      (Runner.update_states_spec cfg sets h.tracked.toConsistent hso.toFits hup).scheduled id
    obtain ⟨t, ht⟩ := (Dict.mem_iff _ _).mp hid
    rw [lookup_dropped h hso.toFits hr] at ht
    split at ht
    · cases ht
    · rename_i hstays
      rw [not_or, not_not] at hstays
      rw [hmid]
      exact hscheduled.mpr hstays.2

end Execute

section Sample

variable {s s' : PromptRunner T P} {k k' : κ} {dict : Dict ReqId (LogprobsTensors P)}

theorem Sound.idle (h : Sound cfg s) :
    Sound cfg { s with runner := { s.runner with scheduler_output := none } } :=
  ⟨h.tracked.idle, h.held⟩

-- The requests that asked for prompt logprobs get theirs from the hidden states of their rows.
structure Sampled (cfg : RunnerConfig) (mode : OutOfRange) (model : Model κ H LP)
    (g : PromptGraphs H P) (grammar_output : Option GrammarOutput) (s : PromptRunner T P) (k : κ)
    (so : SchedulerOutput) (dict : Dict ReqId (LogprobsTensors P)) (s' : PromptRunner T P) :
    Prop where
  tracked : Runner.Tracked cfg s'.runner
  rows : s'.runner.requests = s.runner.requests ∧
    s'.runner.input_batch.req_id_to_index = s.runner.input_batch.req_id_to_index
  states : ∀ id, id ∈ so.num_scheduled_tokens →
    ∃ hs, row_states cfg mode model grammar_output s.runner k so id = some hs
  unchanged : ∀ id, s.runner.num_prompt_logprobs.lookup id = none ∨
      so.num_scheduled_tokens.lookup id = none →
    dict.lookup id = none ∧ s'.in_progress.lookup id = s.in_progress.lookup id ∧
      s'.runner.num_prompt_logprobs.lookup id = s.runner.num_prompt_logprobs.lookup id
  advanced : ∀ id num_plp n, s.runner.num_prompt_logprobs.lookup id = some num_plp →
    so.num_scheduled_tokens.lookup id = some n →
    ∃ request t completed, s.runner.requests.lookup id = some request ∧
      g.request_logprobs cfg.max_num_reqs num_plp request.prompt_token_ids
        request.num_computed_tokens n (row_states cfg mode model grammar_output s.runner k so id)
        (s.in_progress.lookup id) = some (t, completed) ∧
      dict.lookup id = (if completed then some t else none) ∧
      s'.in_progress.lookup id = (if completed then none else some t) ∧
      s'.runner.num_prompt_logprobs.lookup id = if completed then none else some num_plp

theorem sample_scheduled_spec (h : Runner.Tracked cfg s.runner)
    (hso : s.runner.scheduler_output = some so)
    (hr : sample_scheduled cfg mode model g grammar_output s k so = some (dict, s', k')) :
    Sampled cfg mode model g grammar_output s k so dict s' := by
  unfold sample_scheduled at hr
  simp only [Option.bind_eq_bind, Option.bind_eq_some_iff, Options.guard_eq_some] at hr
  obtain ⟨-, -, ⟨es, prompt_lp_hs, rs₁, k₁⟩, hchunks, ⟨dict', mid⟩, hdict, ⟨valid, rs₂⟩, happend,
    hr⟩ := hr
  cases hr
  obtain ⟨hsame, hplp, -, hdecoded⟩ := execute_chunks_spec _ hchunks
  have hrows := Runner.append_tokens_sameRows happend
  have hframe : mid.runner = { rs₁ with num_prompt_logprobs := mid.runner.num_prompt_logprobs } := by
    obtain ⟨l, -, hl⟩ := Option.bind_eq_some_iff.mp hdict
    cases hl
    rfl
  have hmid : Runner.SameRequests rs₁ mid.runner := by
    rw [hframe]
    constructor <;> rfl
  have hindex := hrows.index.trans (hmid.index.trans hsame.index)
  have hrequests := hrows.requests.trans (hmid.requests.trans hsame.requests)
  obtain ⟨hscheduled, hcounts⟩ := h.pending so hso
  -- the row of a scheduled request, and its hidden states
  have hstates : ∀ id, id ∈ so.num_scheduled_tokens → ∃ hs,
      row_states cfg mode model grammar_output s.runner k so id = some hs ∧
      (id ∈ s.runner.num_prompt_logprobs → saved_for rs₁ prompt_lp_hs id = some hs) := by
    intro id hid
    obtain ⟨i, hi⟩ := (Dict.mem_iff _ _).mp ((hscheduled id).mpr hid)
    obtain ⟨hs, hhs, hsaved⟩ := hdecoded i id (Nat.zero_le _) (h.full.lt_num_reqs hi)
      ((h.full.indexed.inverse id i).mp hi)
    refine ⟨hs, Option.bind_eq_some_iff.mpr ⟨i, hi, hhs⟩, fun hwanted => ?_⟩
    unfold saved_for
    rw [hsame.index]
    exact Option.bind_eq_some_iff.mpr ⟨i, hi, hsaved hwanted⟩
  refine ⟨?_, ⟨hrequests, hindex⟩, fun id hid => ?_, fun id hid => ?_,
    fun id num_plp n hid hn => ?_⟩
  · have htracked := hmid.tracked (hsame.tracked h.idle)
    refine (Runner.append_tokens_spec htracked
      (hmid.scheduler_output.trans hsame.scheduler_output) ?_ happend).1
    rw [hmid.requests, hmid.outs, hsame.requests, hsame.outs]
    exact hcounts
  · obtain ⟨hs, hhs, -⟩ := hstates id hid
    exact ⟨hs, hhs⟩
  · dsimp only at hplp
    rw [hrows.num_prompt_logprobs, ← hplp]
    rw [← hplp] at hid
    exact dict_unchanged hdict hid
  · dsimp only at hplp
    obtain ⟨hs, hhs, hsaved⟩ := hstates id ((Dict.mem_iff _ _).mpr ⟨n, hn⟩)
    obtain ⟨request, t, completed, hrequest, ht, h1, h2, h3⟩ :=
      dict_advanced hdict (by rw [hplp]; exact hid) hn
    dsimp only at hrequest ht
    rw [hsaved ((Dict.mem_iff _ _).mpr ⟨num_plp, hid⟩), ← hhs] at ht
    rw [hsame.requests] at hrequest
    refine ⟨request, t, completed, hrequest, ht, h1, h2, ?_⟩
    rw [hrows.num_prompt_logprobs]
    exact h3

theorem Sampled.sound (h : Sampled cfg mode model g grammar_output s k so dict s')
    (hs : Sound cfg s) (hso : s.runner.scheduler_output = some so) : Sound cfg s' := by
  refine ⟨h.tracked, fun id hid => ?_⟩
  rw [h.rows.2]
  by_cases hscheduled : id ∈ so.num_scheduled_tokens
  · exact ((hs.tracked.pending so hso).1 id).mpr hscheduled
  · obtain ⟨t, ht⟩ := (Dict.mem_iff _ _).mp hid
    rw [(h.unchanged id (Or.inr (AList.lookup_eq_none.mpr hscheduled))).2.1] at ht
    exact hs.held id ((Dict.mem_iff _ _).mpr ⟨t, ht⟩)

end Sample

section Iteration

variable {s s' : PromptRunner T P × κ} {op : SchedulerOutput × Option GrammarOutput}
  {dict : Dict ReqId (LogprobsTensors P)}

-- The part of a step that concerns one request: its tokens, and the hidden states they get.
def chunk_of (cfg : RunnerConfig) (sets : SetOrder) (mode : OutOfRange) (model : Model κ H LP)
    (s : PromptRunner T P × κ) (op : SchedulerOutput × Option GrammarOutput) (id : ReqId) :
    Option (Nat × List H) := do
  let rs ← Runner.execute_model cfg sets s.1.runner op.1
  let n ← op.1.num_scheduled_tokens.lookup id
  let hs ← row_states cfg mode model op.2 rs s.2 op.1 id
  return (n, hs)

-- One step, as one request sees it.
structure Iterated (cfg : RunnerConfig) (sets : SetOrder) (mode : OutOfRange)
    (model : Model κ H LP) (g : PromptGraphs H P) (s : PromptRunner T P × κ)
    (op : SchedulerOutput × Option GrammarOutput) (dict : Dict ReqId (LogprobsTensors P))
    (s' : PromptRunner T P × κ) (up : Runner T) : Prop where
  update : Runner.update_states cfg sets s.1.runner op.1 = some up
  sound : Sound cfg s'.1
  requests : s'.1.runner.requests = up.requests
  -- the request is not scheduled
  paused : ∀ id, op.1.num_scheduled_tokens.lookup id = none →
    chunk_of cfg sets mode model s op id = none ∧ dict.lookup id = none ∧
      s'.1.in_progress.lookup id = none ∧
      s'.1.runner.num_prompt_logprobs.lookup id = up.num_prompt_logprobs.lookup id
  -- it asks for no prompt logprobs
  silent : ∀ id, up.num_prompt_logprobs.lookup id = none →
    dict.lookup id = none ∧ s'.1.runner.num_prompt_logprobs.lookup id = none
  scheduled : ∀ id n, op.1.num_scheduled_tokens.lookup id = some n →
    ∃ hs, chunk_of cfg sets mode model s op id = some (n, hs) ∧
      ∀ num_plp, up.num_prompt_logprobs.lookup id = some num_plp →
      ∃ request t completed, up.requests.lookup id = some request ∧
        g.request_logprobs cfg.max_num_reqs num_plp request.prompt_token_ids
          request.num_computed_tokens n (some hs)
          (if id ∈ op.1.finished_req_ids then none else s.1.in_progress.lookup id) =
            some (t, completed) ∧
        dict.lookup id = (if completed then some t else none) ∧
        s'.1.in_progress.lookup id = (if completed then none else some t) ∧
        s'.1.runner.num_prompt_logprobs.lookup id = if completed then none else some num_plp

theorem iteration_spec (h : Sound cfg s.1) (hop : Promised s op)
    (hr : iteration cfg sets mode model g s op = some (dict, s')) :
    ∃ up, Iterated cfg sets mode model g s op dict s' up := by
  obtain ⟨mid, hmid, hr⟩ := Option.bind_eq_some_iff.mp hr
  have hfits := hop.toFits
  obtain ⟨up, hup, hrunner, -⟩ := execute_model_eq h.tracked hfits hmid
  have hsound := sound_execute_model h hop.toPromised hmid
  have hdropped := lookup_dropped h hfits hmid
  have hplp : mid.runner.num_prompt_logprobs = up.num_prompt_logprobs := by rw [hrunner]
  have hrequests : mid.runner.requests = up.requests := by rw [hrunner]
  obtain ⟨rs, hrs, he⟩ := Option.bind_eq_some_iff.mp hmid
  cases he
  dsimp only at hrunner hplp hrequests hdropped hr
  refine ⟨up, ?_⟩
  have hchunk : ∀ id, op.1.num_scheduled_tokens.lookup id = none →
      chunk_of cfg sets mode model s op id = none := by
    intro id hid
    unfold chunk_of
    rw [hrs, Option.bind_eq_bind, Option.bind_some, hid]
    rfl
  have hpaused : ∀ id, op.1.num_scheduled_tokens.lookup id = none →
      (Runner.popAll s.1.in_progress (dropped_req_ids s.1.runner.input_batch op.1)).lookup id =
        none := by
    intro id hid
    rw [hdropped, if_pos (Or.inr (AList.lookup_eq_none.mp hid))]
  split at hr
  · rename_i hidle
    cases hr
    have htotal : op.1.total_num_scheduled_tokens = 0 := by
      by_contra htotal
      rw [hrunner, if_neg htotal] at hidle
      cases hidle
    have hnone : ∀ id, op.1.num_scheduled_tokens.lookup id = none := by
      intro id
      apply AList.lookup_eq_none.mpr
      intro hid
      have := hop.total (List.ne_nil_of_mem (AList.mem_keys.mp hid))
      omega
    refine ⟨hup, hsound, hrequests, fun id hid => ?_, fun id hid => ?_, fun id n hn => ?_⟩
    · exact ⟨hchunk id hid, AList.lookup_empty _, hpaused id hid, by rw [hplp]⟩
    · exact ⟨AList.lookup_empty _, by rw [hplp]; exact hid⟩
    · rw [hnone id] at hn
      cases hn
  · rename_i so hpending
    have hso : so = op.1 := by
      rw [hrunner] at hpending
      dsimp only at hpending
      split at hpending
      · cases hpending
      · exact (Option.some.inj hpending).symm
    subst hso
    have hsampled := sample_scheduled_spec hsound.tracked hpending hr
    refine ⟨hup, hsampled.sound hsound hpending, hsampled.rows.1.trans hrequests,
      fun id hid => ?_, fun id hid => ?_, fun id n hn => ?_⟩
    · obtain ⟨h1, h2, h3⟩ := hsampled.unchanged id (Or.inr hid)
      exact ⟨hchunk id hid, h1, h2.trans (hpaused id hid), by rw [h3, hplp]⟩
    · rw [← hplp] at hid
      obtain ⟨h1, -, h3⟩ := hsampled.unchanged id (Or.inl hid)
      exact ⟨h1, h3.trans hid⟩
    · have hmem : id ∈ op.1.num_scheduled_tokens := (Dict.mem_iff _ _).mpr ⟨n, hn⟩
      obtain ⟨hs, hhs⟩ := hsampled.states id hmem
      refine ⟨hs, ?_, fun num_plp hid => ?_⟩
      · unfold chunk_of
        rw [hrs, Option.bind_eq_bind, Option.bind_some, hn, Option.bind_eq_bind, Option.bind_some]
        exact Option.bind_eq_some_iff.mpr ⟨hs, hhs, rfl⟩
      · obtain ⟨request, t, completed, hrequest, ht, hrest⟩ :=
          hsampled.advanced id num_plp n (by rw [hplp]; exact hid) hn
        rw [hhs, hdropped] at ht
        rw [hrequests] at hrequest
        refine ⟨request, t, completed, hrequest, ?_, hrest⟩
        rw [← ht]
        simp only [hmem, not_true_eq_false, or_false]

theorem sound_reachable {memory : InputBatch T} {k₀ : κ}
    (h : Run.Reachable (step cfg sets mode model g) Promised (init memory, k₀) s) :
    Sound cfg s.1 := by
  refine h.invariant (fun s => Sound cfg s.1) (sound_init cfg memory) ?_
  intro s op s' hs hop hstep
  obtain ⟨⟨dict, s''⟩, hr, rfl⟩ := Option.map_eq_some_iff.mp hstep
  obtain ⟨up, hit⟩ := iteration_spec hs hop hr
  exact hit.sound

end Iteration

end TTXla.VllmTT.PromptRunner
