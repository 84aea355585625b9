import TTXla.VllmTT.UpdateStates.Phases
import TTXla.Lib.Run

-- The persistent batch over runs of `_update_states`.
namespace TTXla.VllmTT

def SchedulerOutput.new_ids (so : SchedulerOutput) : List ReqId :=
  so.scheduled_new_reqs.map NewRequestData.req_id

def SchedulerOutput.cached_ids (so : SchedulerOutput) : List ReqId :=
  so.scheduled_cached_reqs.map CachedRequestData.req_id

namespace Runner

variable {T : Type} [BlockTable T]

-- What a scheduler promises about its output: a scheduled request is new or cached and
-- not both, an id is not reused before its request is finished, and a request resumed
-- from preemption was not scheduled in the step before.
@[mk_iff] structure Fits (rs : Runner T) (so : SchedulerOutput) : Prop where
  scheduled : (so.new_ids ++ so.cached_ids).Perm so.num_scheduled_tokens.keys
  fresh : ∀ id ∈ so.new_ids, id ∈ so.finished_req_ids ∨ id ∉ rs.input_batch.req_id_to_index
  resumed : ∀ id ∈ so.cached_ids, id ∈ so.resumed_req_ids →
    id ∉ rs.input_batch.req_id_to_index

instance (rs : Runner T) (so : SchedulerOutput) : Decidable (Fits rs so) :=
  decidable_of_iff _ (fits_iff rs so).symm

-- What holds of the runner between two calls of `_update_states`.
structure Consistent (cfg : RunnerConfig) (rs : Runner T) : Prop where
  full : rs.input_batch.Full
  bound : rs.input_batch.num_reqs ≤ cfg.max_num_reqs
  known : Known cfg.max_model_len rs.requests rs.outs rs.next_ref
  rows : Rows rs.outs rs.requests rs.input_batch

omit [BlockTable T] in
theorem known_empty (n : Nat) (outs : OutRef → List Token) (next : Nat) :
    Known n ∅ outs next := by
  constructor <;> simp

theorem consistent_init (cfg : RunnerConfig) (memory : InputBatch T) :
    Consistent cfg (init memory) where
  full := InputBatch.full_init memory
  bound := Nat.zero_le _
  known := known_empty _ _ _
  rows := fun id r hr => by simp [init, InputBatch.init, InputBatch.rowOf] at hr

-- The scheduled requests after a step, and the states they were given.
structure Updated (cfg : RunnerConfig) (rs : Runner T) (so : SchedulerOutput)
    (rs' : Runner T) : Prop where
  consistent : Consistent cfg rs'
  scheduled : ∀ id, id ∈ rs'.input_batch.req_id_to_index ↔ id ∈ so.num_scheduled_tokens
  groups : BlockTable.groups rs'.input_batch.block_table =
    BlockTable.groups rs.input_batch.block_table
  frame : ∃ requests num_prompt_logprobs input_batch outs next_ref, rs' = { rs with
    requests := requests, num_prompt_logprobs := num_prompt_logprobs
    input_batch := input_batch, outs := outs, next_ref := next_ref }
  outs : ∀ ref, ref < rs.next_ref → rs'.outs ref = rs.outs ref
  new : ∀ d ∈ so.scheduled_new_reqs, ∃ st,
    rs'.requests.lookup d.req_id = some st ∧ IsNew d rs'.outs st ∧
    st.prompt_token_ids.length ≤ cfg.max_model_len
  cached : ∀ d ∈ so.scheduled_cached_reqs, ∃ st st',
    rs.requests.lookup d.req_id = some st ∧
    cached_state (decide (d.req_id ∈ so.resumed_req_ids)) st d = some st' ∧
    rs'.requests.lookup d.req_id = some st'
  other : ∀ id, id ∉ so.num_scheduled_tokens → rs'.requests.lookup id =
    if id ∈ so.finished_req_ids then none else rs.requests.lookup id

-- The first phase: the requests that stay are those scheduled again.
theorem removal_spec (cfg : RunnerConfig) (sets : SetOrder) {rs : Runner T}
    {so : SchedulerOutput} (h : Consistent cfg rs) {b b' : InputBatch T}
    {removed removed' : List Nat}
    (h1 : remove_all cfg.batch so.finished_req_ids (rs.input_batch, []) = some (b, removed))
    (h2 : remove_all cfg.batch (sets.order (unscheduled_req_ids b so)) (b, removed) =
      some (b', removed')) :
    b'.Holes removed' ∧ b'.req_ids.length ≤ cfg.max_num_reqs ∧
      BlockTable.groups b'.block_table = BlockTable.groups rs.input_batch.block_table ∧
      (∀ k, k ∈ b'.req_id_to_index ↔ k ∈ rs.input_batch.req_id_to_index ∧
        k ∉ so.finished_req_ids ∧ k ∈ so.num_scheduled_tokens) ∧
      Rows rs.outs (popAll rs.requests so.finished_req_ids) b' := by
  obtain ⟨f1, f2, f3, f4, f5⟩ := remove_all_spec cfg.batch _ h.full h1
  obtain ⟨u1, u2, u3, u4, u5⟩ := remove_all_spec cfg.batch _ f1 h2
  have hun : ∀ k, k ∈ sets.order (unscheduled_req_ids b so) ↔
      k ∈ b.req_id_to_index ∧ k ∉ so.num_scheduled_tokens := by
    intro k
    rw [(sets.perm _).mem_iff, unscheduled_req_ids, List.mem_filter, ← AList.mem_keys,
      decide_eq_true_iff]
  refine ⟨u1, ?_, u3.trans f3, fun k => ?_, fun id r hr => ?_⟩
  · rw [u2, f2, h.full.length_eq]
    exact h.bound
  · have hb := Dict.mem_iff_of_lookup (f4 k)
    have hb' := Dict.mem_iff_of_lookup (u4 k)
    rw [hb', hun, hb]
    tauto
  · rw [u5] at hr
    split at hr
    · cases hr
    · rw [f5] at hr
      split at hr
      · cases hr
      · rename_i hk
        obtain ⟨st, hst, ha⟩ := h.rows id r hr
        refine ⟨st, by rw [lookup_popAll, if_neg hk]; exact hst, ?_⟩
        rw [u3, f3]
        exact ha

-- The phases of a call, one after the other.
theorem update_states_phases (cfg : RunnerConfig) (sets : SetOrder) {rs rs' : Runner T}
    {so : SchedulerOutput} (hr : update_states cfg sets rs so = some rs') :
    ∃ b₁ removed₁ b₂ removed₂ rs₃ rs₄ to_add b₅ removed₅,
      remove_all cfg.batch so.finished_req_ids (rs.input_batch, []) = some (b₁, removed₁) ∧
      remove_all cfg.batch (sets.order (unscheduled_req_ids b₁ so)) (b₁, removed₁) =
        some (b₂, removed₂) ∧
      add_new_reqs cfg so.scheduled_new_reqs { rs with
        requests := popAll rs.requests so.finished_req_ids
        num_prompt_logprobs := popAll rs.num_prompt_logprobs so.finished_req_ids
        input_batch := b₂ } = some rs₃ ∧
      update_cached_reqs so.resumed_req_ids so.scheduled_cached_reqs (rs₃, so.new_ids) =
        some (rs₄, to_add) ∧
      add_all cfg.batch rs₄.outs rs₄.requests to_add
        (rs₄.input_batch, InputBatch.sortedDesc removed₂) = some (b₅, removed₅) ∧
      rs' = { rs₄ with
        input_batch := if removed₅ ≠ [] then b₅.condense removed₅ else b₅ } := by
  obtain ⟨⟨b₁, removed₁⟩, h1, hr⟩ := Option.bind_eq_some_iff.mp hr
  obtain ⟨⟨b₂, removed₂⟩, h2, hr⟩ := Option.bind_eq_some_iff.mp hr
  obtain ⟨rs₃, h3, hr⟩ := Option.bind_eq_some_iff.mp hr
  obtain ⟨⟨rs₄, to_add⟩, h4, hr⟩ := Option.bind_eq_some_iff.mp hr
  obtain ⟨⟨b₅, removed₅⟩, h5, hr⟩ := Option.bind_eq_some_iff.mp hr
  exact ⟨b₁, removed₁, b₂, removed₂, rs₃, rs₄, to_add, b₅, removed₅, h1, h2, h3, h4, h5,
    (Option.some.inj hr).symm⟩

-- What holds between the phases of a call.
structure Phases (cfg : RunnerConfig) (rs : Runner T) (so : SchedulerOutput) (b₂ : InputBatch T)
    (removed₂ : List Nat) (rs₃ rs₄ : Runner T) (to_add : List ReqId) (b₅ : InputBatch T)
    (removed₅ : List Nat) : Prop where
  holes : b₂.Holes removed₂
  kept : ∀ k, k ∈ b₂.req_id_to_index ↔ k ∈ rs.input_batch.req_id_to_index ∧
    k ∉ so.finished_req_ids ∧ k ∈ so.num_scheduled_tokens
  scheduled : ∀ k, k ∈ so.num_scheduled_tokens ↔ k ∈ so.new_ids ∨ k ∈ so.cached_ids
  disjoint : ∀ k ∈ so.new_ids, k ∉ so.cached_ids
  fresh : ∀ k ∈ so.new_ids, k ∉ b₂.req_id_to_index
  new_frame : ∃ requests num_prompt_logprobs outs next_ref, rs₃ = { rs with
    requests := requests, num_prompt_logprobs := num_prompt_logprobs
    input_batch := b₂, outs := outs, next_ref := next_ref }
  new_next_ref : rs.next_ref ≤ rs₃.next_ref
  new_outs : ∀ ref, ref < rs.next_ref → rs₃.outs ref = rs.outs ref
  new_other : ∀ id, id ∉ so.new_ids → rs₃.requests.lookup id =
    if id ∈ so.finished_req_ids then none else rs.requests.lookup id
  new_states : ∀ d ∈ so.scheduled_new_reqs, ∃ st,
    rs₃.requests.lookup d.req_id = some st ∧ IsNew d rs₃.outs st
  cached_holes : rs₄.input_batch.Holes (InputBatch.sortedDesc removed₂)
  known : Known cfg.max_model_len rs₄.requests rs₄.outs rs₄.next_ref
  cached_index : rs₄.input_batch.req_id_to_index = b₂.req_id_to_index
  cached_frame : ∃ b requests, rs₄ = { rs₃ with input_batch := b, requests := requests }
  cached_other : ∀ id, id ∉ so.cached_ids →
    rs₄.requests.lookup id = rs₃.requests.lookup id
  cached_states : ∀ d ∈ so.scheduled_cached_reqs, ∃ st st',
    rs₃.requests.lookup d.req_id = some st ∧
    cached_state (decide (d.req_id ∈ so.resumed_req_ids)) st d = some st' ∧
    rs₄.requests.lookup d.req_id = some st'
  mem_to_add : ∀ k, k ∈ to_add ↔
    (k ∈ so.new_ids ∨ k ∈ so.cached_ids) ∧ k ∉ b₂.req_id_to_index
  to_add_nodup : to_add.Nodup
  added_holes : b₅.Holes removed₅
  added_desc : removed₅.reverse.Pairwise (· < ·)
  added_rows : Rows rs₄.outs rs₄.requests b₅
  added_length : b₅.req_ids.length ≤ cfg.max_num_reqs
  added_groups : BlockTable.groups b₅.block_table = BlockTable.groups rs.input_batch.block_table
  added_index : ∀ k, k ∈ b₅.req_id_to_index ↔ k ∈ to_add ∨ k ∈ b₂.req_id_to_index

theorem phases_spec (cfg : RunnerConfig) (sets : SetOrder) {rs : Runner T}
    {so : SchedulerOutput} (h : Consistent cfg rs) (hso : Fits rs so) {b₁ b₂ b₅ : InputBatch T}
    {removed₁ removed₂ removed₅ : List Nat} {rs₃ rs₄ : Runner T} {to_add : List ReqId}
    (h1 : remove_all cfg.batch so.finished_req_ids (rs.input_batch, []) = some (b₁, removed₁))
    (h2 : remove_all cfg.batch (sets.order (unscheduled_req_ids b₁ so)) (b₁, removed₁) =
      some (b₂, removed₂))
    (h3 : add_new_reqs cfg so.scheduled_new_reqs { rs with
      requests := popAll rs.requests so.finished_req_ids
      num_prompt_logprobs := popAll rs.num_prompt_logprobs so.finished_req_ids
      input_batch := b₂ } = some rs₃)
    (h4 : update_cached_reqs so.resumed_req_ids so.scheduled_cached_reqs (rs₃, so.new_ids) =
      some (rs₄, to_add))
    (h5 : add_all cfg.batch rs₄.outs rs₄.requests to_add
      (rs₄.input_batch, InputBatch.sortedDesc removed₂) = some (b₅, removed₅)) :
    Phases cfg rs so b₂ removed₂ rs₃ rs₄ to_add b₅ removed₅ := by
  obtain ⟨r1, r2, r3, r4, r5⟩ := removal_spec cfg sets h h1 h2
  have hnd : (so.new_ids ++ so.cached_ids).Nodup :=
    hso.scheduled.nodup_iff.mpr ((AList.keys_nodup _))
  obtain ⟨hndn, hndc, hdisj⟩ := List.nodup_append.mp hnd
  have hsched : ∀ k, k ∈ so.num_scheduled_tokens ↔ k ∈ so.new_ids ∨ k ∈ so.cached_ids := by
    intro k
    rw [AList.mem_keys, ← hso.scheduled.mem_iff, List.mem_append]
  have hfresh : ∀ k ∈ so.new_ids, k ∉ b₂.req_id_to_index := by
    intro k hk hm
    obtain ⟨hm1, hm2, -⟩ := (r4 k).mp hm
    rcases hso.fresh k hk with hf | hf
    · exact hm2 hf
    · exact hf hm1
  obtain ⟨n1, n2, ⟨rq, np, outs, nx, n3⟩, n4, n5, n6, n7⟩ :=
    add_new_reqs_spec cfg so.scheduled_new_reqs (h.known.popAll so.finished_req_ids) r5 hndn
      (fun d hd => hfresh _ (List.mem_map_of_mem hd)) h3
  have hb3 : rs₃.input_batch = b₂ := by rw [n3]
  have r1' := r1
  rw [← hb3] at r1' r2 r3
  obtain ⟨c1, c2, c3, c4, cg, c5, c6, c7, c8⟩ :=
    update_cached_reqs_spec so.resumed_req_ids so.scheduled_cached_reqs r1' n1 n2 hndc
      (fun d hd hres hm => hso.resumed _ (List.mem_map_of_mem hd) hres
        ((r4 _).mp (hb3 ▸ hm)).1) h4
  have hlen : rs₄.input_batch.req_ids.length ≤ cfg.max_num_reqs := by
    have e1 := r1'.count
    have e2 := c1.count
    rw [InputBatch.num_reqs] at e1 e2
    rw [c4] at e2
    omega
  rw [hb3] at c4 c6
  have hadd : ∀ k, k ∈ to_add ↔ (k ∈ so.new_ids ∨ k ∈ so.cached_ids) ∧
      k ∉ b₂.req_id_to_index := by
    intro k
    rw [c6, List.mem_append, List.mem_filter, decide_eq_true_iff]
    constructor
    · rintro (hk | ⟨hk, hn⟩)
      · exact ⟨Or.inl hk, hfresh k hk⟩
      · exact ⟨Or.inr hk, hn⟩
    · rintro ⟨hk | hk, hn⟩
      · exact Or.inl hk
      · exact Or.inr ⟨hk, hn⟩
  have hndadd : to_add.Nodup := by
    rw [c6]
    exact hndn.append (hndc.filter _) fun k hk hk' =>
      hdisj k hk k (List.mem_filter.mp hk').1 rfl
  have hperm := InputBatch.sortedDesc_perm removed₂
  have c1' : rs₄.input_batch.Holes (InputBatch.sortedDesc removed₂) :=
    ⟨c1.indexed, hperm.nodup_iff.mpr c1.nodup, fun i => by rw [c1.vacant, hperm.mem_iff],
      by rw [hperm.length_eq]; exact c1.count⟩
  obtain ⟨a1, a2, a3, a4, a5, a6⟩ := add_all_spec cfg.batch c2 to_add c1'
    (InputBatch.sortedDesc_ascending c1.nodup) hlen c3 hndadd
    (fun k hk => by rw [c4]; exact ((hadd k).mp hk).2) h5
  refine ⟨r1, r4, hsched, fun k hk hk' => hdisj k hk k hk' rfl, hfresh, ?_, n4, n5,
    fun id hid => ?_, n7, c1', c2, c4, c5, c7, c8, hadd, hndadd, a1, a2, a3, a4, a5.trans (cg.trans r3), ?_⟩
  · exact ⟨_, _, _, _, n3⟩
  · rw [n6 id hid, lookup_popAll]
  · rw [← c4]
    exact a6

theorem update_states_spec (cfg : RunnerConfig) (sets : SetOrder) {rs rs' : Runner T}
    {so : SchedulerOutput} (h : Consistent cfg rs) (hso : Fits rs so)
    (hr : update_states cfg sets rs so = some rs') : Updated cfg rs so rs' := by
  obtain ⟨b₁, removed₁, b₂, removed₂, rs₃, rs₄, to_add, b₅, removed₅, h1, h2, h3, h4, h5, rfl⟩ :=
    update_states_phases cfg sets hr
  have hp := phases_spec cfg sets h hso h1 h2 h3 h4 h5
  obtain ⟨rq, np, outs, nx, n3⟩ := hp.new_frame
  obtain ⟨b₄, rq', c5⟩ := hp.cached_frame
  -- the batch in the end, condensed or not
  have hfinal : ∀ b, b = (if removed₅ ≠ [] then b₅.condense removed₅ else b₅) →
      b.Full ∧ b.num_reqs = b₅.num_reqs ∧ (∀ id, id ∈ b.req_id_to_index ↔ id ∈ b₅.req_id_to_index) ∧
        BlockTable.groups b.block_table = BlockTable.groups b₅.block_table ∧
        ∀ id, b.rowOf id = b₅.rowOf id := by
    rintro b rfl
    split
    · exact InputBatch.condense_spec hp.added_holes hp.added_desc
    · rename_i he
      rw [not_not] at he
      subst he
      exact ⟨hp.added_holes, rfl, fun _ => Iff.rfl, rfl, fun _ => rfl⟩
  obtain ⟨z1, z2, z3, z4, z5⟩ := hfinal _ rfl
  have hg := z4.trans hp.added_groups
  refine ⟨⟨z1, ?_, hp.known, fun id r hrow => ?_⟩, fun id => ?_, hg, ?_, fun ref href => ?_,
    fun d hd => ?_, fun d hd => ?_, fun id hid => ?_⟩
  · rw [z2]
    have := hp.added_holes.count
    have := hp.added_length
    omega
  · rw [z5] at hrow
    obtain ⟨st, hst, ha⟩ := hp.added_rows id r hrow
    exact ⟨st, hst, by rw [z4]; exact ha⟩
  · rw [z3, hp.added_index, hp.mem_to_add, hp.scheduled]
    have := (hp.kept id).mp
    rw [hp.scheduled] at this
    tauto
  · rw [c5, n3]
    exact ⟨_, _, _, _, _, rfl⟩
  · rw [c5]
    exact hp.new_outs ref href
  · obtain ⟨st, hst, hnew⟩ := hp.new_states d hd
    have hnewid : d.req_id ∈ so.new_ids := List.mem_map_of_mem hd
    have hst' := (hp.cached_other _ (hp.disjoint _ hnewid)).trans hst
    have hm : d.req_id ∈ to_add := (hp.mem_to_add _).mpr ⟨Or.inl hnewid, hp.fresh _ hnewid⟩
    exact ⟨st, hst', by rw [c5]; exact hnew, add_all_prompt_le cfg.batch to_add h5 _ hm _ hst'⟩
  · obtain ⟨st, st', hst, hst', hl⟩ := hp.cached_states d hd
    have hm : d.req_id ∈ so.cached_ids := List.mem_map_of_mem hd
    rw [hp.new_other _ fun hn => hp.disjoint _ hn hm] at hst
    split at hst
    · cases hst
    · exact ⟨st, st', hst, hst', hl⟩
  · rw [hp.scheduled, not_or] at hid
    dsimp only
    rw [hp.cached_other id hid.2, hp.new_other id hid.1]

theorem consistent_reachable (cfg : RunnerConfig) (sets : SetOrder) (memory : InputBatch T)
    {rs : Runner T} (h : Run.Reachable (update_states cfg sets) Fits (init memory) rs) :
    Consistent cfg rs :=
  h.invariant (Consistent cfg) (consistent_init cfg memory)
    fun _ _ _ hs hso hr => (update_states_spec cfg sets hs hso hr).consistent

-- The rows are the scheduled requests, each once, and the index inverts the row list.
structure Represents (cfg : RunnerConfig) (rs : Runner T) (so : SchedulerOutput) : Prop where
  rows : ∃ ids : List ReqId, rs.input_batch.req_ids = ids.map some ∧ ids.Nodup ∧
    ids.Perm so.num_scheduled_tokens.keys
  length : rs.input_batch.req_ids.length = rs.input_batch.num_reqs
  inverse : ∀ (id : ReqId) (i : Nat), rs.input_batch.req_id_to_index.lookup id = some i ↔
    rs.input_batch.req_ids[i]? = some (some id)
  outputs_length : rs.input_batch.req_output_token_ids.length = rs.input_batch.num_reqs
  outputs : ∀ (id : ReqId) (i : Nat), rs.input_batch.req_ids[i]? = some (some id) →
    ∃ st, rs.requests.lookup id = some st ∧
      rs.input_batch.req_output_token_ids[i]? = some (some st.output_token_ids)
  bound : rs.input_batch.num_reqs ≤ cfg.max_num_reqs

theorem Updated.represents {cfg : RunnerConfig} {rs rs' : Runner T} {so : SchedulerOutput}
    (h : Updated cfg rs so rs') : Represents cfg rs' so := by
  have hfull := h.consistent.full
  have hlen : rs'.input_batch.req_output_token_ids.length = rs'.input_batch.num_reqs :=
    hfull.indexed.length.trans hfull.length_eq
  refine ⟨?_, hfull.length_eq, hfull.indexed.inverse, hlen, fun id i hi => ?_,
    h.consistent.bound⟩
  · obtain ⟨ids, he, hp⟩ := hfull.req_ids_eq
    have hnd : ids.Nodup := hp.nodup_iff.mpr (AList.keys_nodup _)
    refine ⟨ids, he, hnd, ?_⟩
    refine (List.perm_ext_iff_of_nodup hnd (AList.keys_nodup _)).mpr fun id => ?_
    rw [hp.mem_iff, ← AList.mem_keys, ← AList.mem_keys, h.scheduled]
  · have hidx := (hfull.indexed.inverse id i).mpr hi
    have hrow : rs'.input_batch.rowOf id = some (rs'.input_batch.row i) := by
      unfold InputBatch.rowOf; rw [hidx]; rfl
    obtain ⟨st, hst, ha⟩ := h.consistent.rows id _ hrow
    have hlt : i < rs'.input_batch.req_output_token_ids.length := by
      rw [hlen]; exact hfull.lt_num_reqs hidx
    refine ⟨st, hst, ?_⟩
    have hout := ha.output_token_ids
    simp only [InputBatch.row] at hout
    rw [List.getElem?_eq_getElem hlt] at hout ⊢
    exact congrArg some hout

-- Every call represents its scheduler output, and compaction keeps what every request's
-- row holds, wherever the vacant rows lie.
theorem update_states_represents (cfg : RunnerConfig) (sets : SetOrder) (memory : InputBatch T)
    {rs rs' : Runner T} {so : SchedulerOutput}
    (h : Run.Reachable (update_states cfg sets) Fits (init memory) rs) (hso : Fits rs so)
    (hr : update_states cfg sets rs so = some rs') :
    Represents cfg rs' so ∧
    ∀ (b : InputBatch T) (empty_req_indices : List Nat), b.Holes empty_req_indices →
      empty_req_indices.Pairwise (· > ·) →
      (b.condense empty_req_indices).Full ∧
      (b.condense empty_req_indices).num_reqs = b.num_reqs ∧
      ∀ id, (b.condense empty_req_indices).rowOf id = b.rowOf id := by
  refine ⟨(update_states_spec cfg sets (consistent_reachable cfg sets memory h) hso hr).represents,
    fun b removed hb hdesc => ?_⟩
  obtain ⟨c1, c2, -, -, c5⟩ := InputBatch.condense_spec hb (by
    rw [List.pairwise_reverse]; exact hdesc)
  exact ⟨c1, c2, c5⟩

section Example

-- Two requests are prefilled; then the first finishes and a third takes its row.
def twoRows : RunnerConfig where
  max_num_seqs := 2
  max_model_len := 64
  max_num_batched_tokens := 128
  block_size := 32
  min_context_len := 32
  most_model_len := none
  vocab_size := 100
  lora_config := false
  max_model_len_pos := by decide
  block_size_pos := by decide
  most_model_len_pos := by decide
  max_model_len_le := by decide

def threeRows : RunnerConfig where
  max_num_seqs := 3
  max_model_len := 64
  max_num_batched_tokens := 192
  block_size := 32
  min_context_len := 32
  most_model_len := none
  vocab_size := 100
  lora_config := false
  max_model_len_pos := by decide
  block_size_pos := by decide
  most_model_len_pos := by decide
  max_model_len_le := by decide

def fiveTokens : RunnerConfig where
  max_num_seqs := 2
  max_model_len := 64
  max_num_batched_tokens := 128
  block_size := 32
  min_context_len := 32
  most_model_len := none
  vocab_size := 5
  lora_config := false
  max_model_len_pos := by decide
  block_size_pos := by decide
  most_model_len_pos := by decide
  max_model_len_le := by decide

-- A context of two million tokens: one execution takes one request.
def longContext : RunnerConfig where
  max_num_seqs := 2
  max_model_len := 2097152
  max_num_batched_tokens := 4194304
  block_size := 16
  min_context_len := 32
  most_model_len := none
  vocab_size := 100
  lora_config := false
  max_model_len_pos := by decide
  block_size_pos := by decide
  most_model_len_pos := by decide
  max_model_len_le := by decide

def oneGroup : InputBatch DenseTable := { (default : InputBatch DenseTable) with
  block_table := .zeros 1 }

def greedy : SamplingParams where
  sampling_type := .GREEDY
  temperature := 0
  top_p := 1
  top_k := 0
  min_p := 0
  frequency_penalty := 0
  presence_penalty := 0
  repetition_penalty := 1
  min_tokens := 0
  all_stop_token_ids := ∅
  logprobs := none
  prompt_logprobs := none
  logit_bias := none
  allowed_token_ids := none
  bad_words_token_ids := none
  seed := 0

def newReq (req_id : ReqId) (prompt_token_ids : List Token) (blocks : List Nat) :
    NewRequestData where
  req_id := req_id
  prompt_token_ids := prompt_token_ids
  sampling_params := some greedy
  pooling_params := none
  block_ids := [blocks]
  num_computed_tokens := 0
  lora_request := none

def prefill (reqs : List NewRequestData) (finished_req_ids : List ReqId) : SchedulerOutput where
  scheduled_new_reqs := reqs
  scheduled_cached_reqs := []
  resumed_req_ids := ∅
  num_scheduled_tokens := (reqs.map fun d => ⟨d.req_id, d.prompt_token_ids.length⟩).toAList
  total_num_scheduled_tokens := (reqs.map fun d => d.prompt_token_ids.length).sum
  finished_req_ids := finished_req_ids

def firstStep : SchedulerOutput := prefill [newReq "A" [7, 8] [1], newReq "B" [9] [2]] []
def secondStep : SchedulerOutput := prefill [newReq "C" [4, 5, 6] [1]] ["A"]

def afterFirst : Runner DenseTable :=
  (Run.exec (update_states twoRows .asListed) Fits (init oneGroup) [firstStep]).get (by decide)

def afterSecond : Runner DenseTable :=
  (update_states twoRows .asListed afterFirst secondStep).get (by decide)

theorem afterFirst_reachable :
    Run.Reachable (update_states twoRows .asListed) Fits (init oneGroup) afterFirst :=
  .of_exec [firstStep] .start (Option.some_get _).symm

theorem afterSecond_represents : Represents twoRows afterSecond secondStep :=
  (update_states_represents twoRows .asListed oneGroup afterFirst_reachable (by decide)
    (Option.some_get _).symm).1

end Example

end Runner

end TTXla.VllmTT
