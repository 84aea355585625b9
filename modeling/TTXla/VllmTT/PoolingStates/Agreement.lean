import TTXla.VllmTT.PoolingStates
import TTXla.VllmTT.InputBatch.Common

-- When the pooling runner and the generative one update their states alike.
namespace TTXla.VllmTT

open InputBatch (Twin)

-- A request of a pooling model in place of one that samples.
def NewRequestData.pooled (pp : PoolingParams) (d : NewRequestData) : NewRequestData :=
  { d with sampling_params := none, pooling_params := some pp }

def SchedulerOutput.pooled (pp : ReqId → PoolingParams) (so : SchedulerOutput) :
    SchedulerOutput :=
  { so with scheduled_new_reqs := so.scheduled_new_reqs.map fun d => d.pooled (pp d.req_id) }

variable {T : Type} [BlockTable T]

-- The cached states differ in their parameters only.
def Twins (requests requests' : Dict ReqId CachedRequestState) : Prop :=
  ∀ id, Option.Rel Twin (requests.lookup id) (requests'.lookup id)

theorem Twins.empty : Twins ∅ ∅ := fun id => by
  simp

section Requests

variable {requests requests' : Dict ReqId CachedRequestState}

theorem Twins.popAll (h : Twins requests requests') (ids : List ReqId) :
    Twins (Runner.popAll requests ids) (Runner.popAll requests' ids) := by
  intro id
  rw [Runner.lookup_popAll, Runner.lookup_popAll]
  split
  · exact .none
  · exact h id

theorem Twins.insert (h : Twins requests requests') (id : ReqId) {st st' : CachedRequestState}
    (ht : Twin st st') : Twins (requests.insert id st) (requests'.insert id st') := by
  intro id'
  rw [Dict.lookup_insert', Dict.lookup_insert']
  split
  · exact .some ht
  · exact h id'

theorem Twins.exists_of_lookup (h : Twins requests requests') {id : ReqId}
    {st : CachedRequestState} (hst : requests.lookup id = some st) :
    ∃ st', requests'.lookup id = some st' ∧ Twin st st' := by
  have hrel := h id
  rw [hst] at hrel
  generalize requests'.lookup id = o at hrel ⊢
  cases hrel with
  | some ht => exact ⟨_, rfl, ht⟩

end Requests

-- The cached states and the batch of the two runners.
structure Agrees (rs : Runner T) (ps : PoolingRunner T) : Prop where
  requests : Twins rs.requests ps.requests
  batch : ps.input_batch.common = rs.input_batch.common
  outs : ps.outs = rs.outs
  next_ref : ps.next_ref = rs.next_ref

-- New block ids that leave the block ids of a request as they are.
def KeepsBlocks (resumed : Bool) (block_ids : List (List Nat)) :
    Option (List (List Nat)) → Prop
  | none => True
  | some new_block_ids =>
      if resumed then new_block_ids = block_ids
      else ∀ g < block_ids.length, new_block_ids.getD g [] = []

instance (resumed : Bool) (block_ids : List (List Nat)) :
    (ids : Option (List (List Nat))) → Decidable (KeepsBlocks resumed block_ids ids)
  | none => inferInstanceAs (Decidable True)
  | some _ => inferInstanceAs (Decidable (ite _ _ _))

-- Every cached request comes back after a step without it, with the blocks it had.
def Returns (rs : Runner T) (so : SchedulerOutput) : Prop :=
  ∀ d ∈ so.scheduled_cached_reqs, d.req_id ∉ rs.input_batch.req_id_to_index ∧
    ∀ st ∈ rs.requests.lookup d.req_id,
      KeepsBlocks (decide (d.req_id ∈ so.resumed_req_ids)) st.block_ids d.new_block_ids

instance (rs : Runner T) (so : SchedulerOutput) : Decidable (Returns rs so) :=
  inferInstanceAs (Decidable (∀ d ∈ so.scheduled_cached_reqs, _ ∧ _))

section Phases

open Runner (remove_all add_all unscheduled_req_ids)

omit [BlockTable T] in
theorem remove_all_common (cfg cfg' : BatchConfig) (ids : List ReqId) {b b' c : InputBatch T}
    {removed removed' : List Nat} (h : b'.common = b.common)
    (hc : remove_all cfg ids (b, removed) = some (c, removed')) :
    ∃ c', remove_all cfg' ids (b', removed) = some (c', removed') ∧ c'.common = c.common := by
  induction ids generalizing b b' removed with
  | nil =>
      cases hc
      exact ⟨b', rfl, h⟩
  | cons id ids ih =>
      obtain ⟨⟨r, mid⟩, hmid, hrest⟩ := Option.bind_eq_some_iff.mp hc
      obtain ⟨mid', hmid', hcommon⟩ := InputBatch.remove_request_common cfg cfg' h id hmid
      obtain ⟨c', hc', hc''⟩ := ih hcommon hrest
      exact ⟨c', Option.bind_eq_some_iff.mpr ⟨_, hmid', hc'⟩, hc''⟩

theorem add_all_common (cfg cfg' : BatchConfig) (outs : OutRef → List Token)
    (hlen : cfg'.max_model_len = cfg.max_model_len) (hreqs : cfg'.max_num_reqs = cfg.max_num_reqs)
    {requests requests' : Dict ReqId CachedRequestState} (ht : Twins requests requests')
    (ids : List ReqId) {b b' c : InputBatch T} {removed removed' : List Nat}
    (h : b'.common = b.common)
    (hc : add_all cfg outs requests ids (b, removed) = some (c, removed')) :
    ∃ c', add_all cfg' outs requests' ids (b', removed) = some (c', removed') ∧
      c'.common = c.common := by
  induction ids generalizing b b' removed with
  | nil =>
      cases hc
      exact ⟨b', rfl, h⟩
  | cons id ids ih =>
      obtain ⟨st, hst, hc⟩ := Option.bind_eq_some_iff.mp hc
      obtain ⟨st', hst', htwin⟩ := ht.exists_of_lookup hst
      obtain ⟨mid, hmid, hrest⟩ := Option.bind_eq_some_iff.mp hc
      obtain ⟨mid', hmid', hcommon⟩ :=
        InputBatch.add_request_common cfg cfg' outs hlen hreqs h htwin _ hmid
      obtain ⟨c', hc', hc''⟩ := ih hcommon hrest
      exact ⟨c', Option.bind_eq_some_iff.mpr ⟨st', hst',
        Option.bind_eq_some_iff.mpr ⟨mid', hmid', hc'⟩⟩, hc''⟩

omit [BlockTable T] in
theorem add_new_reqs_agrees (cfg : RunnerConfig) (pp : ReqId → PoolingParams)
    (ds : List NewRequestData) {rs rs' : Runner T} {ps : PoolingRunner T} (h : Agrees rs ps)
    (hr : Runner.add_new_reqs cfg ds rs = some rs') :
    Agrees rs' (PoolingRunner.add_new_reqs (ds.map fun d => d.pooled (pp d.req_id)) ps) := by
  induction ds generalizing rs ps with
  | nil =>
      cases hr
      exact h
  | cons d ds ih =>
      obtain ⟨mid, hmid, hrest⟩ := Option.bind_eq_some_iff.mp hr
      obtain ⟨sp, hsp, hmid⟩ := Option.bind_eq_some_iff.mp hmid
      cases hmid
      suffices hmid : Agrees _ (ps.add_new_req (d.pooled (pp d.req_id))) from ih hmid hrest
      refine ⟨?_, h.batch, ?_, ?_⟩
      · exact h.requests.insert d.req_id
          ⟨rfl, rfl, rfl, rfl, h.next_ref, rfl, rfl, rfl⟩
      · simp only [PoolingRunner.add_new_req, h.outs, h.next_ref]
      · simp only [PoolingRunner.add_new_req, h.next_ref]

theorem zipExtend_of_nil {block_ids new_block_ids : List (List Nat)}
    (h : ∀ g < block_ids.length, new_block_ids.getD g [] = []) :
    zipExtend block_ids new_block_ids = block_ids := by
  apply List.ext_getElem?
  intro g
  rw [Runner.getElem?_zipExtend]
  by_cases hg : g < block_ids.length
  · have hnil := h g hg
    rw [List.getD_eq_getElem?_getD] at hnil
    rw [List.getElem?_eq_getElem hg, hnil]
    simp
  · rw [List.getElem?_eq_none (l := block_ids) (by omega)]
    rfl

-- The blocks that a request keeps are the ones it is given.
theorem cached_state_twin {resumed : Bool} {st st' st₁ : CachedRequestState}
    {d : CachedRequestData} (ht : Twin st st')
    (hkeeps : KeepsBlocks resumed st.block_ids d.new_block_ids)
    (h : Runner.cached_state resumed st d = some st₁) :
    Twin st₁ { st' with num_computed_tokens := d.num_computed_tokens } := by
  unfold Runner.cached_state at h
  split at h
  · cases h
    exact ⟨ht.req_id, ht.prompt_token_ids, ht.block_ids, rfl, ht.output_token_ids,
      ht.lora_request, ht.pooled⟩
  · rename_i new_block_ids hnew
    cases h
    rw [hnew] at hkeeps
    have hsame := zipExtend_of_nil hkeeps
    exact ⟨ht.req_id, ht.prompt_token_ids, ht.block_ids.trans hsame.symm, rfl,
      ht.output_token_ids, ht.lora_request, ht.pooled⟩
  · rename_i new_block_ids hnew
    cases h
    rw [hnew] at hkeeps
    have hsame : new_block_ids = st.block_ids := hkeeps
    exact ⟨ht.req_id, ht.prompt_token_ids, ht.block_ids.trans hsame.symm, rfl,
      ht.output_token_ids, ht.lora_request, ht.pooled⟩
  · cases h

theorem update_cached_reqs_agrees (resumed : Finset ReqId) (ds : List CachedRequestData)
    {rs rs' : Runner T} {ps : PoolingRunner T} {to_add to_add' : List ReqId} (h : Agrees rs ps)
    (hnodup : (ds.map CachedRequestData.req_id).Nodup)
    (hreturns : ∀ d ∈ ds, d.req_id ∉ rs.input_batch.req_id_to_index ∧
      ∀ st ∈ rs.requests.lookup d.req_id,
        KeepsBlocks (decide (d.req_id ∈ resumed)) st.block_ids d.new_block_ids)
    (hr : Runner.update_cached_reqs resumed ds (rs, to_add) = some (rs', to_add')) :
    ∃ ps', PoolingRunner.update_cached_reqs ds (ps, to_add) = some (ps', to_add') ∧
      Agrees rs' ps' := by
  induction ds generalizing rs ps to_add with
  | nil =>
      cases hr
      exact ⟨ps, rfl, h⟩
  | cons d ds ih =>
      obtain ⟨⟨mid, to_add₁⟩, hmid, hrest⟩ := Option.bind_eq_some_iff.mp hr
      obtain ⟨st, hst, hmid⟩ := Option.bind_eq_some_iff.mp hmid
      obtain ⟨st₁, hst₁, hmid⟩ := Option.bind_eq_some_iff.mp hmid
      obtain ⟨habsent, hkeeps⟩ := hreturns d List.mem_cons_self
      obtain ⟨st', hst', htwin⟩ := h.requests.exists_of_lookup hst
      have htwin₁ := cached_state_twin htwin (hkeeps st hst) hst₁
      have hnone : rs.input_batch.req_id_to_index.lookup d.req_id = none :=
        AList.lookup_eq_none.mpr habsent
      have hindex : ps.input_batch.req_id_to_index = rs.input_batch.req_id_to_index :=
        congrArg InputBatch.Common.req_id_to_index h.batch
      dsimp only at hmid
      rw [hnone] at hmid
      cases hmid
      rw [List.map_cons, List.nodup_cons] at hnodup
      let st₁' := { st' with num_computed_tokens := d.num_computed_tokens }
      let ps₁ : PoolingRunner T := { ps with requests := ps.requests.insert d.req_id st₁' }
      have hagrees : Agrees { rs with requests := rs.requests.insert d.req_id st₁ } ps₁ :=
        ⟨h.requests.insert d.req_id htwin₁, h.batch, h.outs, h.next_ref⟩
      obtain ⟨ps', hps', hagrees'⟩ := ih hagrees hnodup.2 (fun d' hd' => by
        obtain ⟨habsent', hkeeps'⟩ := hreturns d' (List.mem_cons_of_mem _ hd')
        refine ⟨habsent', fun st hst => hkeeps' st ?_⟩
        have hne : d'.req_id ≠ d.req_id := fun he => hnodup.1 (he ▸ List.mem_map_of_mem hd')
        dsimp only at hst
        rwa [Dict.lookup_insert', if_neg hne] at hst) hrest
      refine ⟨ps', Option.bind_eq_some_iff.mpr ⟨(ps₁, to_add ++ [d.req_id]), ?_, hps'⟩, hagrees'⟩
      refine Option.bind_eq_some_iff.mpr ⟨st', hst', ?_⟩
      dsimp only
      rw [hindex, hnone]
      rfl

end Phases

-- One call.
theorem update_states_agrees (cfg : RunnerConfig) (pcfg : PoolingConfig)
    (hbase : pcfg.toBaseConfig = cfg.toBaseConfig) (sets : SetOrder)
    (pp : ReqId → PoolingParams) {rs rs' : Runner T} {ps : PoolingRunner T} {so : SchedulerOutput}
    (h : Agrees rs ps) (hc : Runner.Consistent cfg rs) (hfits : Runner.Fits rs so)
    (hreturns : Returns rs so) (hr : Runner.update_states cfg sets rs so = some rs') :
    ∃ ps', PoolingRunner.update_states pcfg sets ps (so.pooled pp) = some ps' ∧
      Agrees rs' ps' := by
  obtain ⟨b₁, removed₁, b₂, removed₂, rs₃, rs₄, to_add, b₅, removed₅, h1, h2, h3, h4, h5, rfl⟩ :=
    Runner.update_states_phases cfg sets hr
  have hp := Runner.phases_spec cfg sets hc hfits h1 h2 h3 h4 h5
  have hlen : pcfg.batch.max_model_len = cfg.batch.max_model_len :=
    congrArg BaseConfig.max_model_len hbase
  have hreqs : pcfg.batch.max_num_reqs = cfg.batch.max_num_reqs :=
    congrArg BaseConfig.max_num_reqs hbase
  obtain ⟨b₁', h1', hb₁⟩ := remove_all_common cfg.batch pcfg.batch _ h.batch h1
  have hun : Runner.unscheduled_req_ids b₁' (so.pooled pp) =
      Runner.unscheduled_req_ids b₁ so := by
    unfold Runner.unscheduled_req_ids
    rw [show b₁'.req_id_to_index = b₁.req_id_to_index from
      congrArg InputBatch.Common.req_id_to_index hb₁]
    rfl
  obtain ⟨b₂', h2', hb₂⟩ := remove_all_common cfg.batch pcfg.batch _ hb₁ h2
  have hagrees : Agrees { rs with
      requests := Runner.popAll rs.requests so.finished_req_ids
      num_prompt_logprobs := Runner.popAll rs.num_prompt_logprobs so.finished_req_ids
      input_batch := b₂ } { ps with
      requests := Runner.popAll ps.requests so.finished_req_ids
      input_batch := b₂' } := ⟨h.requests.popAll _, hb₂, h.outs, h.next_ref⟩
  have hagrees₃ := add_new_reqs_agrees cfg pp so.scheduled_new_reqs hagrees h3
  have hnodup : (so.scheduled_cached_reqs.map CachedRequestData.req_id).Nodup :=
    (List.nodup_append.mp (hfits.scheduled.nodup_iff.mpr (AList.keys_nodup _))).2.1
  obtain ⟨ps₄, h4', hagrees₄⟩ := update_cached_reqs_agrees so.resumed_req_ids
    so.scheduled_cached_reqs hagrees₃ hnodup (fun d hd => by
      obtain ⟨habsent, hkeeps⟩ := hreturns d hd
      have hmem : d.req_id ∈ so.cached_ids := List.mem_map_of_mem hd
      obtain ⟨rq, np, outs, nx, hframe⟩ := hp.new_frame
      refine ⟨?_, fun st hst => hkeeps st ?_⟩
      · rw [hframe]
        exact fun hin => habsent ((hp.kept d.req_id).mp hin).1
      · -- a cached request is not new, and it has a state, so that it is not finished
        rw [Option.mem_def, hp.new_other _ fun hnew => hp.disjoint _ hnew hmem] at hst
        split at hst
        · cases hst
        · exact hst) h4
  obtain ⟨b₅', h5', hb₅⟩ := add_all_common cfg.batch pcfg.batch rs₄.outs hlen hreqs
    hagrees₄.requests to_add hagrees₄.batch h5
  refine ⟨{ ps₄ with input_batch := if removed₅ ≠ [] then b₅'.condense removed₅ else b₅' }, ?_,
    hagrees₄.requests, ?_, hagrees₄.outs, hagrees₄.next_ref⟩
  · refine Option.bind_eq_some_iff.mpr ⟨(b₁', removed₁), h1', ?_⟩
    refine Option.bind_eq_some_iff.mpr ⟨(b₂', removed₂), ?_, ?_⟩
    · rw [hun]
      exact h2'
    · refine Option.bind_eq_some_iff.mpr ⟨(ps₄, to_add), ?_, ?_⟩
      · simp only [SchedulerOutput.pooled, List.map_map]
        exact h4'
      · refine Option.bind_eq_some_iff.mpr ⟨(b₅', removed₅), ?_, rfl⟩
        rw [hagrees₄.outs]
        exact h5'
  · dsimp only
    split
    · exact InputBatch.condense_common hb₅ removed₅
    · exact hb₅

-- The two runners side by side; the pooling runner is lost when it raises.
structure Pair (T : Type) where
  generative : Runner T
  pooling : Option (PoolingRunner T)

namespace Pair

def init (memory : InputBatch T) : Pair T := ⟨Runner.init memory, some (PoolingRunner.init memory)⟩

-- A scheduler output, and the parameters of its new requests in a pooling model.
abbrev Op := SchedulerOutput × (ReqId → PoolingParams)

def step (cfg : RunnerConfig) (pcfg : PoolingConfig) (sets : SetOrder) (s : Pair T) (op : Op) :
    Option (Pair T) :=
  (s.generative.update_states cfg sets op.1).map fun rs =>
    ⟨rs, s.pooling.bind fun ps => ps.update_states pcfg sets (op.1.pooled op.2)⟩

def Fits (s : Pair T) (op : Op) : Prop := Runner.Fits s.generative op.1

instance (s : Pair T) (op : Op) : Decidable (Fits s op) :=
  inferInstanceAs (Decidable (Runner.Fits _ _))

structure Allowed (s : Pair T) (op : Op) : Prop where
  fits : Fits s op
  returns : Returns s.generative op.1

instance (s : Pair T) (op : Op) : Decidable (Allowed s op) :=
  decidable_of_iff (Fits s op ∧ Returns s.generative op.1) ⟨fun h => ⟨h.1, h.2⟩,
    fun h => ⟨h.1, h.2⟩⟩

-- The pooling runner has not raised, its states and its rows are those of the generative one,
-- and the block ids of a request are those of its row.
structure InStep (rs : Runner T) (ps : PoolingRunner T) : Prop where
  agrees : Agrees rs ps
  blocks : ∀ id i st, ps.input_batch.req_id_to_index.lookup id = some i →
    ps.requests.lookup id = some st → ∀ g < BlockTable.groups ps.input_batch.block_table,
      st.block_ids[g]? = some (BlockTable.blocks ps.input_batch.block_table g i)

theorem inStep_of_agrees {cfg : RunnerConfig} {rs : Runner T} {ps : PoolingRunner T}
    (h : Agrees rs ps) (hc : Runner.Consistent cfg rs) : InStep rs ps := by
  refine ⟨h, fun id i st' hi hst' g hg => ?_⟩
  have htable : ps.input_batch.block_table = rs.input_batch.block_table :=
    congrArg InputBatch.Common.block_table h.batch
  rw [show ps.input_batch.req_id_to_index = rs.input_batch.req_id_to_index from
    congrArg InputBatch.Common.req_id_to_index h.batch] at hi
  rw [htable] at hg ⊢
  have hrow : rs.input_batch.rowOf id = some (rs.input_batch.row i) := by
    unfold InputBatch.rowOf
    rw [hi]
    rfl
  obtain ⟨st, hst, hadded⟩ := hc.rows id _ hrow
  obtain ⟨st₁, hst₁, htwin⟩ := h.requests.exists_of_lookup hst
  cases hst'.symm.trans hst₁
  have hblocks := hadded.blocks g hg
  simp only [InputBatch.row, hg, ite_true] at hblocks
  rw [htwin.block_ids, hblocks]

-- In every run in which the cached requests come back after a step without them, with the blocks
-- they had, the two runners stay in step.
theorem states_in_step (cfg : RunnerConfig) (pcfg : PoolingConfig)
    (hbase : pcfg.toBaseConfig = cfg.toBaseConfig) (sets : SetOrder) (memory : InputBatch T)
    {s : Pair T} (h : Run.Reachable (step cfg pcfg sets) Allowed (init memory) s) :
    ∃ ps, s.pooling = some ps ∧ InStep s.generative ps := by
  have hinv : Runner.Consistent cfg s.generative ∧
      ∃ ps, s.pooling = some ps ∧ Agrees s.generative ps := by
    refine h.invariant (fun s => Runner.Consistent cfg s.generative ∧
      ∃ ps, s.pooling = some ps ∧ Agrees s.generative ps) ?_ ?_
    · refine ⟨Runner.consistent_init cfg memory, _, rfl, ?_⟩
      exact ⟨.empty, rfl, rfl, rfl⟩
    · intro s op s' ⟨hc, ps, hps, hagrees⟩ hok hstep
      obtain ⟨rs', hrs', rfl⟩ := Option.map_eq_some_iff.mp hstep
      have hc' := (Runner.update_states_spec cfg sets hc hok.fits hrs').consistent
      obtain ⟨ps', hps', hagrees'⟩ :=
        update_states_agrees cfg pcfg hbase sets op.2 hagrees hc hok.fits hok.returns hrs'
      refine ⟨hc', ps', ?_, hagrees'⟩
      dsimp only
      rw [hps, Option.bind_some, hps']
  obtain ⟨hc, ps, hps, hagrees⟩ := hinv
  exact ⟨ps, hps, inStep_of_agrees hagrees hc⟩

section Example

open Runner (twoRows oneGroup newReq prefill)

def twoPooled : PoolingConfig where
  toBaseConfig := twoRows.toBaseConfig
  batch_size := 1
  batch_size_pos := by decide
  batch_size_eq := by decide

def start : Pair DenseTable := init oneGroup

def pooledParams (_ : ReqId) : PoolingParams := ⟨false⟩

-- Half of a prompt of four tokens.
def firstHalf : SchedulerOutput :=
  { prefill [newReq "A" [7, 8, 9, 10] [1]] [] with
    num_scheduled_tokens := (∅ : Dict ReqId Nat).insert "A" 2
    total_num_scheduled_tokens := 2 }

-- The other half, in the same block.
def secondHalf : SchedulerOutput :=
  { prefill [] [] with
    scheduled_cached_reqs := [⟨"A", none, 2⟩]
    num_scheduled_tokens := (∅ : Dict ReqId Nat).insert "A" 2
    total_num_scheduled_tokens := 2 }

def afterHalves : Pair DenseTable :=
  (Run.exec (step twoRows twoPooled .asListed) Fits start
    [(firstHalf, pooledParams), (secondHalf, pooledParams)]).get (by decide)

-- A prompt in two steps raises.
theorem halves_raise :
    Run.Reachable (step twoRows twoPooled .asListed) Fits start afterHalves ∧
      afterHalves.pooling.isNone :=
  ⟨.of_exec [(firstHalf, pooledParams), (secondHalf, pooledParams)] .start
    (Option.some_get _).symm, by decide⟩

-- The same, with a step for another request in between.
def afterPause : Pair DenseTable :=
  (Run.exec (step twoRows twoPooled .asListed) Allowed start
    [(firstHalf, pooledParams), (prefill [newReq "B" [4] [2]] [], pooledParams),
      (secondHalf, pooledParams)]).get (by decide)

theorem afterPause_in_step :
    ∃ ps, afterPause.pooling = some ps ∧ InStep afterPause.generative ps :=
  states_in_step twoRows twoPooled rfl .asListed oneGroup
    (.of_exec [(firstHalf, pooledParams), (prefill [newReq "B" [4] [2]] [], pooledParams),
      (secondHalf, pooledParams)] .start (Option.some_get _).symm)

end Example

end Pair

end TTXla.VllmTT
