import TTXla.VllmTT.ModelRunner

-- The token histories over runs of the engine.
namespace TTXla.VllmTT.Runner

open InputBatch (Row AddedRow Holes)

variable {T : Type} [BlockTable T]

-- Two runners that differ in the step buffers and the sampling arrays only.
structure SameRequests (rs rs' : Runner T) : Prop where
  requests : rs'.requests = rs.requests
  outs : rs'.outs = rs.outs
  next_ref : rs'.next_ref = rs.next_ref
  scheduler_output : rs'.scheduler_output = rs.scheduler_output
  req_ids : rs'.input_batch.req_ids = rs.input_batch.req_ids
  index : rs'.input_batch.req_id_to_index = rs.input_batch.req_id_to_index
  outputs : rs'.input_batch.req_output_token_ids = rs.input_batch.req_output_token_ids
  block_table : rs'.input_batch.block_table = rs.input_batch.block_table
  token_ids : rs'.input_batch.token_ids_cpu = rs.input_batch.token_ids_cpu
  num_tokens : rs'.input_batch.num_tokens = rs.input_batch.num_tokens
  num_prompt_tokens : rs'.input_batch.num_prompt_tokens = rs.input_batch.num_prompt_tokens
  num_computed_tokens :
    rs'.input_batch.num_computed_tokens_cpu = rs.input_batch.num_computed_tokens_cpu

namespace SameRequests

variable {rs rs' rs'' : Runner T}

omit [BlockTable T] in
theorem refl (rs : Runner T) : SameRequests rs rs := by constructor <;> rfl

omit [BlockTable T] in
theorem trans (h : SameRequests rs rs') (h' : SameRequests rs' rs'') : SameRequests rs rs'' where
  requests := h'.requests.trans h.requests
  outs := h'.outs.trans h.outs
  next_ref := h'.next_ref.trans h.next_ref
  scheduler_output := h'.scheduler_output.trans h.scheduler_output
  req_ids := h'.req_ids.trans h.req_ids
  index := h'.index.trans h.index
  outputs := h'.outputs.trans h.outputs
  block_table := h'.block_table.trans h.block_table
  token_ids := h'.token_ids.trans h.token_ids
  num_tokens := h'.num_tokens.trans h.num_tokens
  num_prompt_tokens := h'.num_prompt_tokens.trans h.num_prompt_tokens
  num_computed_tokens := h'.num_computed_tokens.trans h.num_computed_tokens

theorem row (h : SameRequests rs rs') (i : Nat) :
    rs'.input_batch.row i = rs.input_batch.row i := by
  simp only [InputBatch.row, h.num_tokens, h.num_prompt_tokens, h.num_computed_tokens,
    h.token_ids, h.block_table, h.outputs]

theorem rowOf (h : SameRequests rs rs') (id : ReqId) :
    rs'.input_batch.rowOf id = rs.input_batch.rowOf id := by
  unfold InputBatch.rowOf
  rw [h.index, show rs'.input_batch.row = rs.input_batch.row from funext h.row]

omit [BlockTable T] in
theorem full (h : SameRequests rs rs') (hf : rs.input_batch.Full) : rs'.input_batch.Full where
  indexed := ⟨by rw [h.req_ids, h.index]; exact hf.indexed.inverse,
    by rw [h.outputs, h.req_ids]; exact hf.indexed.length⟩
  nodup := List.nodup_nil
  vacant := fun i => by rw [h.req_ids]; exact hf.vacant i
  count := by rw [InputBatch.num_reqs, h.index, h.req_ids]; exact hf.count

theorem consistent {cfg : RunnerConfig} (h : SameRequests rs rs') (hc : Consistent cfg rs) :
    Consistent cfg rs' where
  full := h.full hc.full
  bound := by rw [InputBatch.num_reqs, h.index]; exact hc.bound
  known := by rw [h.requests, h.outs, h.next_ref]; exact hc.known
  rows := fun id r hr => by
    rw [h.rowOf] at hr
    rw [h.requests, h.outs, h.block_table]
    exact hc.rows id r hr

end SameRequests

-- The counters never run ahead of the tokens, and neither do the tokens of a pending step.
structure Tracked (cfg : RunnerConfig) (rs : Runner T) : Prop extends Consistent cfg rs where
  fits : ∀ id st, rs.requests.lookup id = some st → st.num_tokens rs.outs ≤ cfg.max_model_len
  computed_le : ∀ id r, rs.input_batch.rowOf id = some r → r.num_computed_tokens ≤ r.num_tokens
  pending : ∀ so ∈ rs.scheduler_output,
    (∀ id, id ∈ rs.input_batch.req_id_to_index ↔ id ∈ so.num_scheduled_tokens) ∧
    ∀ id st n, rs.requests.lookup id = some st → so.num_scheduled_tokens.lookup id = some n →
      st.num_computed_tokens + n ≤ st.num_tokens rs.outs

theorem tracked_init (cfg : RunnerConfig) (memory : InputBatch T) :
    Tracked cfg (init memory) where
  toConsistent := consistent_init cfg memory
  fits := fun id st hst => by simp [init] at hst
  computed_le := fun id r hr => by simp [init, InputBatch.init, InputBatch.rowOf] at hr
  pending := fun so hso => by cases hso

theorem SameRequests.tracked {cfg : RunnerConfig} {rs rs' : Runner T} (h : SameRequests rs rs')
    (ht : Tracked cfg rs) : Tracked cfg rs' where
  toConsistent := h.consistent ht.toConsistent
  fits := by rw [h.requests, h.outs]; exact ht.fits
  computed_le := fun id r hr => ht.computed_le id r (by rwa [h.rowOf] at hr)
  pending := by rw [h.scheduler_output, h.index, h.requests, h.outs]; exact ht.pending

-- What a scheduler promises on top of `Fits`: it schedules no more tokens than there are.
@[mk_iff] structure Promised (rs : Runner T) (so : SchedulerOutput) : Prop
    extends Fits rs so where
  new_counts : ∀ d ∈ so.scheduled_new_reqs, ∀ n ∈ so.num_scheduled_tokens.lookup d.req_id,
    d.num_computed_tokens + n ≤ d.prompt_token_ids.length
  cached_counts : ∀ d ∈ so.scheduled_cached_reqs,
    ∀ n ∈ so.num_scheduled_tokens.lookup d.req_id, ∀ st ∈ rs.requests.lookup d.req_id,
      d.num_computed_tokens + n ≤ st.num_tokens rs.outs

instance (rs : Runner T) (so : SchedulerOutput) : Decidable (Promised rs so) :=
  decidable_of_iff _ (promised_iff rs so).symm

-- The counts that a step gives its requests, once it has updated their states.
theorem Updated.counts {cfg : RunnerConfig} {rs rs' : Runner T} {so : SchedulerOutput}
    (h : Updated cfg rs so rs') (hk : Known cfg.max_model_len rs.requests rs.outs rs.next_ref)
    (hso : Promised rs so) {id : ReqId} {n : Nat} {st : CachedRequestState}
    (hn : so.num_scheduled_tokens.lookup id = some n) (hst : rs'.requests.lookup id = some st) :
    st.num_computed_tokens + n ≤ st.num_tokens rs'.outs := by
  have hm : id ∈ so.new_ids ++ so.cached_ids := by
    rw [hso.scheduled.mem_iff, ← AList.mem_keys]
    exact (Dict.mem_iff _ _).mpr ⟨n, hn⟩
  rcases List.mem_append.mp hm with hm | hm
  · obtain ⟨d, hd, rfl⟩ := List.mem_map.mp hm
    obtain ⟨st', hst', ⟨ref, sp, -, rfl, hout⟩, -⟩ := h.new d hd
    obtain rfl := Option.some.inj (hst'.symm.trans hst)
    have := hso.new_counts d hd n hn
    simpa [CachedRequestState.num_tokens, new_state, hout] using this
  · obtain ⟨d, hd, rfl⟩ := List.mem_map.mp hm
    obtain ⟨st₀, st', hst₀, hcached, hst'⟩ := h.cached d hd
    obtain rfl := Option.some.inj (hst'.symm.trans hst)
    obtain ⟨-, hp, ho, -, -, hc⟩ := cached_state_same hcached
    have := hso.cached_counts d hd n hn st₀ hst₀
    rw [CachedRequestState.num_tokens, hc, hp, ho, h.outs _ (hk.ref_lt _ _ hst₀)]
    exact this

theorem Updated.fits {cfg : RunnerConfig} {rs rs' : Runner T} {so : SchedulerOutput}
    (h : Updated cfg rs so rs') (ht : Tracked cfg rs) (hso : Fits rs so) (id : ReqId)
    (st : CachedRequestState) (hst : rs'.requests.lookup id = some st) :
    st.num_tokens rs'.outs ≤ cfg.max_model_len := by
  have hknown := ht.known
  by_cases hid : id ∈ so.num_scheduled_tokens
  · rw [AList.mem_keys, ← hso.scheduled.mem_iff, List.mem_append] at hid
    rcases hid with hm | hm
    · obtain ⟨d, hd, rfl⟩ := List.mem_map.mp hm
      obtain ⟨st', hst', ⟨ref, sp, -, rfl, hout⟩, hle⟩ := h.new d hd
      obtain rfl := Option.some.inj (hst'.symm.trans hst)
      simpa [CachedRequestState.num_tokens, new_state, hout] using hle
    · obtain ⟨d, hd, rfl⟩ := List.mem_map.mp hm
      obtain ⟨st₀, st', hst₀, hcached, hst'⟩ := h.cached d hd
      obtain rfl := Option.some.inj (hst'.symm.trans hst)
      obtain ⟨-, hp, ho, -⟩ := cached_state_same hcached
      have := ht.fits _ _ hst₀
      rwa [CachedRequestState.num_tokens, hp, ho, h.outs _ (hknown.ref_lt _ _ hst₀)]
  · rw [h.other id hid] at hst
    split at hst
    · cases hst
    · rw [CachedRequestState.num_tokens, h.outs _ (hknown.ref_lt _ _ hst)]
      exact ht.fits id st hst

theorem tracked_execute_model (cfg : RunnerConfig) (sets : SetOrder) {rs rs' : Runner T}
    {so : SchedulerOutput} (h : Tracked cfg rs) (hso : Promised rs so)
    (hr : execute_model cfg sets rs so = some rs') : Tracked cfg rs' := by
  unfold execute_model at hr
  simp only [Option.bind_eq_bind, Option.bind_eq_some_iff, Options.guard_eq_some] at hr
  obtain ⟨-, hnone, mid, hmid, hr⟩ := hr
  have hu := update_states_spec cfg sets h.toConsistent hso.toFits hmid
  have hcounts : ∀ id st n, mid.requests.lookup id = some st →
      so.num_scheduled_tokens.lookup id = some n →
      st.num_computed_tokens + n ≤ st.num_tokens mid.outs :=
    fun id st n hst hn => hu.counts h.known hso hn hst
  have hfits := hu.fits h hso.toFits
  have hle : ∀ id r, mid.input_batch.rowOf id = some r →
      r.num_computed_tokens ≤ r.num_tokens := by
    intro id r hrow
    obtain ⟨st, hst, ha⟩ := hu.consistent.rows id r hrow
    have hid : id ∈ mid.input_batch.req_id_to_index := by
      by_contra hn
      rw [rowOf_eq_none.mpr hn] at hrow
      cases hrow
    obtain ⟨n, hn⟩ := (Dict.mem_iff _ _).mp ((hu.scheduled id).mp hid)
    have := hcounts id st n hst hn
    rw [ha.num_computed_tokens, ha.num_tokens]
    omega
  split at hr <;> cases hr
  · obtain ⟨_, _, _, _, _, he⟩ := hu.frame
    refine ⟨hu.consistent, hfits, hle, fun so' hso' => ?_⟩
    rw [he, Option.isNone_iff_eq_none.mp hnone] at hso'
    cases hso'
  · refine ⟨⟨hu.consistent.full, hu.consistent.bound, hu.consistent.known, hu.consistent.rows⟩,
      hfits, hle, fun so' hso' => ?_⟩
    cases hso'
    exact ⟨hu.scheduled, hcounts⟩

section Chunks

variable {κ H LP : Type} {cfg : RunnerConfig} {mode : OutOfRange} {model : Model κ H LP}
  {so : SchedulerOutput} {grammar_output : Option GrammarOutput} {rs rs' : Runner T} {k k' : κ}

theorem Prepared.sameRequests {start_index : Nat} {inp : ModelInputs} {all_counts : List Nat}
    (h : Prepared cfg rs so start_index inp rs' all_counts) : SameRequests rs rs' := by
  rw [h.runner]
  constructor <;> rfl

omit [BlockTable T] in
theorem sampler_inputs_sameRequests {si : SamplerInputs}
    (h : sampler_inputs cfg rs grammar_output = some (si, rs')) : SameRequests rs rs' := by
  obtain ⟨⟨md, b⟩, hb, h⟩ := Option.bind_eq_some_iff.mp h
  obtain ⟨_, _, _, _, _, _, _, rfl⟩ := SamplingMetadata.from_input_batch_batch hb
  cases grammar_output with
  | none => cases h; constructor <;> rfl
  | some g =>
      obtain ⟨bitmask, -, h⟩ := Option.bind_eq_some_iff.mp h
      cases h
      constructor <;> rfl

-- The inputs that an execution was prepared with.
theorem execute_chunk_inputs {start_index : Nat} {e : Execution LP}
    (h : execute_chunk cfg mode model so grammar_output rs k start_index = some (e, rs', k')) :
    ∃ inp rs₁ si, prepare_inputs cfg rs so start_index = some (inp, rs₁) ∧
      sampler_inputs cfg rs₁ grammar_output = some (si, rs') ∧ e.end_index = inp.end_index := by
  obtain ⟨⟨inp, rs₁⟩, h1, h⟩ := Option.bind_eq_some_iff.mp h
  obtain ⟨⟨k₁, hidden⟩, -, h⟩ := Option.bind_eq_some_iff.mp h
  obtain ⟨picked, -, h⟩ := Option.bind_eq_some_iff.mp h
  obtain ⟨⟨si, rs₂⟩, h2, h⟩ := Option.bind_eq_some_iff.mp h
  cases h
  exact ⟨inp, rs₁, si, h1, h2, rfl⟩

theorem execute_chunk_sameRequests {start_index : Nat} {e : Execution LP}
    (h : execute_chunk cfg mode model so grammar_output rs k start_index = some (e, rs', k')) :
    SameRequests rs rs' := by
  obtain ⟨inp, rs₁, si, h1, h2, -⟩ := execute_chunk_inputs h
  obtain ⟨all_counts, hp⟩ := prepare_inputs_spec cfg h1
  exact hp.sameRequests.trans (sampler_inputs_sameRequests h2)

theorem execute_chunks_sameRequests (fuel : Nat) {start_index : Nat} {es : List (Execution LP)}
    (h : execute_chunks cfg mode model so grammar_output fuel rs k start_index =
      some (es, rs', k')) : SameRequests rs rs' := by
  induction fuel generalizing rs k start_index es with
  | zero =>
      unfold execute_chunks at h
      split at h
      · cases h
      · cases h; exact .refl _
  | succ fuel ih =>
      unfold execute_chunks at h
      split at h
      · obtain ⟨⟨e, rs₁, k₁⟩, h1, h⟩ := Option.bind_eq_some_iff.mp h
        obtain ⟨⟨es', rs₂, k₂⟩, h2, h⟩ := Option.bind_eq_some_iff.mp h
        cases h
        exact (execute_chunk_sameRequests h1).trans (ih h2)
      · cases h; exact .refl _

end Chunks

section Append

variable {cfg : RunnerConfig} {rs rs' : Runner T}

-- One sampled token, appended to both copies of its request's history.
theorem append_token_spec {valid : List (List Token)} {id : ReqId} {i : Nat}
    {st : CachedRequestState} (h : Tracked cfg rs) (hnone : rs.scheduler_output = none)
    (hi : rs.input_batch.req_id_to_index.lookup id = some i)
    (hst : rs.requests.lookup id = some st)
    (hr : append_token cfg valid rs (i, st, st.num_tokens rs.outs) = some rs') :
    Tracked cfg rs' ∧ rs'.scheduler_output = none ∧ rs'.requests = rs.requests ∧
      rs'.input_batch.req_id_to_index = rs.input_batch.req_id_to_index ∧
      ∀ ref, ref ≠ st.output_token_ids → rs'.outs ref = rs.outs ref := by
  unfold append_token at hr
  simp only [Option.bind_eq_bind, Option.bind_eq_some_iff, Options.guard_eq_some] at hr
  obtain ⟨sampled, -, token_id, -, -, hlt, hr⟩ := hr
  simp only [Option.pure_def, Option.some.injEq] at hr
  have hfull := h.full
  have hbound := h.bound
  have hknown := h.known
  have hrow : rs.input_batch.rowOf id = some (rs.input_batch.row i) := by
    unfold InputBatch.rowOf; rw [hi]; rfl
  obtain ⟨st₀, hst₀, ha⟩ := h.rows id _ hrow
  obtain rfl : st = st₀ := Option.some.inj (hst.symm.trans hst₀)
  have hnum : rs.input_batch.num_tokens i = st.num_tokens rs.outs := ha.num_tokens
  have hout : ∀ st', rs.requests.lookup st'.req_id = some st' → st'.req_id ≠ id →
      st'.output_token_ids ≠ st.output_token_ids := fun st' h' hne he =>
    hne (hknown.ref_inj _ _ _ _ h' hst he)
  -- the rows and the outputs of the other requests stay
  have hsame : ∀ j, j ≠ i → rs'.input_batch.row j = rs.input_batch.row j := by
    intro j hj
    rw [← hr]
    ext1 <;> simp [InputBatch.row, hj]
  have hself : AddedRow rs'.outs st (BlockTable.groups rs.input_batch.block_table)
      (rs'.input_batch.row i) := by
    rw [← hr]
    refine ⟨?_, ha.num_prompt_tokens, ha.num_computed_tokens, ?_, ha.blocks,
      ha.output_token_ids⟩
    · simp only [InputBatch.row, Function.update_self, hnum, CachedRequestState.num_tokens,
        List.length_append, List.length_singleton, Nat.add_assoc]
    · have htok : (List.range (rs.input_batch.num_tokens i)).map (rs.input_batch.token_ids_cpu i) =
          st.history rs.outs := ha.token_ids
      simp only [InputBatch.row, Function.update_self, List.range_succ, List.map_append,
        List.map_cons, List.map_nil, hnum]
      rw [CachedRequestState.history, Function.update_self, ← List.append_assoc,
        ← CachedRequestState.history, ← htok, hnum]
      congr 1
      refine List.map_congr_left fun j hj => Function.update_of_ne ?_ _ _
      exact Nat.ne_of_lt (List.mem_range.mp hj)
  have hrowOf : ∀ k, rs'.input_batch.rowOf k =
      if k = id then some (rs'.input_batch.row i) else rs.input_batch.rowOf k := by
    intro k
    have hidx : rs'.input_batch.req_id_to_index = rs.input_batch.req_id_to_index := by rw [← hr]
    unfold InputBatch.rowOf
    rw [hidx]
    split
    · rename_i hk; rw [hk, hi]; rfl
    · rename_i hk
      cases hj : rs.input_batch.req_id_to_index.lookup k with
      | none => rfl
      | some j =>
          have hne : j ≠ i := by
            rintro rfl; exact hk (hfull.indexed.inverse.unique hj hi)
          rw [Option.map_some, Option.map_some, hsame j hne]
  have hreq : rs'.requests = rs.requests := by rw [← hr]
  have hgroups : rs'.input_batch.block_table = rs.input_batch.block_table := by rw [← hr]
  have hother : ∀ ref, ref ≠ st.output_token_ids → rs'.outs ref = rs.outs ref := fun ref hne => by
    rw [← hr]
    exact Function.update_of_ne hne _ _
  have hmine : rs'.outs st.output_token_ids = rs.outs st.output_token_ids ++ [token_id] := by
    rw [← hr]
    exact Function.update_self _ _ _
  have hfits : ∀ k st', rs.requests.lookup k = some st' →
      st'.num_tokens rs'.outs ≤ cfg.max_model_len := by
    intro k st' hst'
    by_cases hk : k = id
    · subst hk
      obtain rfl : st = st' := Option.some.inj (hst.symm.trans hst')
      simp only [CachedRequestState.num_tokens, hmine, List.length_append,
        List.length_singleton] at hlt ⊢
      omega
    · have hne : st'.output_token_ids ≠ st.output_token_ids := fun he =>
        hk (hknown.ref_inj _ _ _ _ hst' hst he)
      rw [CachedRequestState.num_tokens, hother _ hne]
      exact h.fits k st' hst'
  refine ⟨⟨⟨?_, ?_, ⟨?_, ?_, ?_, ?_⟩, ?_⟩, ?_, ?_, ?_⟩, by rw [← hr]; exact hnone, hreq,
    by rw [← hr], hother⟩
  · rw [← hr]
    exact ⟨⟨hfull.indexed.inverse, hfull.indexed.length⟩, hfull.nodup, hfull.vacant, hfull.count⟩
  · rw [← hr]; exact hbound
  · rw [hreq]; exact hknown.req_id
  · rw [hreq, show rs'.next_ref = rs.next_ref by rw [← hr]]; exact hknown.ref_lt
  · rw [hreq]; exact hknown.ref_inj
  · rw [hreq]; exact fun k st' hst' => Or.inl (hfits k st' hst')
  · intro k r hr'
    rw [hrowOf] at hr'
    rw [hreq, hgroups]
    split at hr'
    · rename_i hk
      cases hr'
      exact ⟨st, hk ▸ hst, hself⟩
    · rename_i hk
      obtain ⟨st', hst', ha'⟩ := h.rows k r hr'
      have hne : st'.output_token_ids ≠ st.output_token_ids := fun he =>
        hk (hknown.ref_inj _ _ _ _ hst' hst he)
      exact ⟨st', hst', congr_outs ha' (hother _ hne)⟩
  · rw [hreq]; exact hfits
  · intro k r hr'
    rw [hrowOf] at hr'
    split at hr'
    · cases hr'
      have := h.computed_le id _ hrow
      rw [hself.num_computed_tokens, hself.num_tokens, CachedRequestState.num_tokens, hmine,
        List.length_append]
      rw [ha.num_computed_tokens, ha.num_tokens, CachedRequestState.num_tokens] at this
      omega
    · exact h.computed_le k r hr'
  · intro so hso
    rw [show rs'.scheduler_output = rs.scheduler_output by rw [← hr], hnone] at hso
    cases hso

-- What the loop over the sampling requests is given for each of them.
def Sampling (rs : Runner T) (e : Nat × CachedRequestState × Nat) : Prop :=
  ∃ id, rs.input_batch.req_id_to_index.lookup id = some e.1 ∧
    rs.requests.lookup id = some e.2.1 ∧ e.2.2 = e.2.1.num_tokens rs.outs

theorem append_all_spec {valid : List (List Token)} (l : List (Nat × CachedRequestState × Nat))
    (h : Tracked cfg rs) (hnone : rs.scheduler_output = none) (hl : ∀ e ∈ l, Sampling rs e)
    (hnd : (l.map Prod.fst).Nodup) (hr : l.foldlM (append_token cfg valid) rs = some rs') :
    Tracked cfg rs' ∧ rs'.scheduler_output = none := by
  induction l generalizing rs with
  | nil => cases hr; exact ⟨h, hnone⟩
  | cons e l ih =>
      rw [List.foldlM_cons] at hr
      obtain ⟨mid, hmid, hrest⟩ := Option.bind_eq_some_iff.mp hr
      obtain ⟨i, st, seq_len⟩ := e
      obtain ⟨id, hi, hst, hlen⟩ := hl _ List.mem_cons_self
      dsimp only at hi hst hlen
      subst hlen
      rw [List.map_cons, List.nodup_cons] at hnd
      obtain ⟨a1, a2, a3, a4, a5⟩ := append_token_spec h hnone hi hst hmid
      refine ih a1 a2 (fun e he => ?_) hnd.2 hrest
      obtain ⟨id', hi', hst', hlen⟩ := hl e (List.mem_cons_of_mem _ he)
      -- two rows hold two requests, and these have two output lists
      have hne : e.2.1.output_token_ids ≠ st.output_token_ids := fun hout => by
        obtain rfl := h.known.ref_inj _ _ _ _ hst' hst hout
        have hrow : e.1 = i := Option.some.inj (hi'.symm.trans hi)
        exact hnd.1 (List.mem_map.mpr ⟨e, he, hrow⟩)
      refine ⟨id', by rw [a4]; exact hi', by rw [a3]; exact hst', ?_⟩
      rw [hlen, CachedRequestState.num_tokens, CachedRequestState.num_tokens, a5 _ hne]

omit [BlockTable T] in
theorem row_seq_len_eq {so : SchedulerOutput} {i : Nat} {e : Nat × CachedRequestState × Nat}
    (h : row_seq_len rs so i = some e) : e.1 = i ∧ ∃ id n,
      rs.input_batch.req_ids[i]? = some (some id) ∧ rs.requests.lookup id = some e.2.1 ∧
      so.num_scheduled_tokens.lookup id = some n ∧ e.2.2 = e.2.1.num_computed_tokens + n := by
  unfold row_seq_len at h
  simp only [Option.bind_eq_bind, Option.bind_eq_some_iff] at h
  obtain ⟨id, hid, st, hst, n, hn, h⟩ := h
  cases h
  exact ⟨rfl, id, n, Option.join_eq_some_iff.mp hid, hst, hn, rfl⟩

theorem append_tokens_spec {so : SchedulerOutput} {selected : List Token}
    {valid : List (List Token)} (h : Tracked cfg rs) (hnone : rs.scheduler_output = none)
    (hc : ∀ id st n, rs.requests.lookup id = some st →
      so.num_scheduled_tokens.lookup id = some n →
      st.num_computed_tokens + n ≤ st.num_tokens rs.outs)
    (hr : append_tokens cfg rs so selected = some (valid, rs')) :
    Tracked cfg rs' ∧ rs'.scheduler_output = none := by
  unfold append_tokens at hr
  simp only [Option.bind_eq_bind, Option.bind_eq_some_iff] at hr
  obtain ⟨seq_lens, hseq, valid', -, last, hlast, hr⟩ := hr
  cases hr
  obtain ⟨hlen, hget⟩ := Options.getElem?_of_mapM hseq
  rw [List.length_range] at hlen
  have hrow : ∀ i e, seq_lens[i]? = some e → row_seq_len rs so i = some e := by
    intro i e he
    have hi : i < rs.input_batch.num_reqs := by
      rw [← hlen]; exact (List.getElem?_eq_some_iff.mp he).1
    rw [hget, List.getElem?_range hi, Option.bind_some] at he
    exact he
  have hfst : seq_lens.map Prod.fst = List.range rs.input_batch.num_reqs := by
    refine List.ext_getElem (by simp [hlen]) fun i h1 h2 => ?_
    rw [List.length_map] at h1
    rw [List.getElem_map, List.getElem_range]
    exact (row_seq_len_eq (hrow i _ (List.getElem?_eq_getElem h1))).1
  refine append_all_spec _ h hnone (fun e he => ?_) ?_ hlast
  · obtain ⟨hm, hle⟩ := List.mem_filter.mp he
    obtain ⟨i, hi⟩ := List.getElem?_of_mem hm
    obtain ⟨rfl, id, n, hid, hst, hn, hsum⟩ := row_seq_len_eq (hrow i e hi)
    refine ⟨id, (h.full.indexed.inverse id e.1).mpr hid, hst, ?_⟩
    have := hc id _ n hst hn
    have := of_decide_eq_true hle
    omega
  · refine List.Nodup.sublist ((List.filter_sublist).map Prod.fst) ?_
    rw [hfst]
    exact List.nodup_range

end Append

section Runs

variable {κ H LP : Type} {cfg : RunnerConfig} {sets : SetOrder} {mode : OutOfRange}
  {model : Model κ H LP} {rs rs' : Runner T}

theorem Tracked.idle (h : Tracked cfg rs) : Tracked cfg { rs with scheduler_output := none } :=
  ⟨⟨h.full, h.bound, h.known, h.rows⟩, h.fits, h.computed_le, fun so hso => by cases hso⟩

theorem tracked_sample_tokens {grammar_output : Option GrammarOutput}
    {out : Option (ModelRunnerOutput LP)} {k k' : κ} (h : Tracked cfg rs)
    (hr : sample_tokens cfg mode model grammar_output rs k = some (out, rs', k')) :
    Tracked cfg rs' := by
  unfold sample_tokens at hr
  split at hr
  · cases hr; exact h
  · rename_i so hso
    obtain ⟨⟨out, rs₃, k₃⟩, hr, he⟩ := Option.bind_eq_some_iff.mp hr
    cases he
    unfold sample_scheduled at hr
    simp only [Option.bind_eq_bind, Option.bind_eq_some_iff, Options.guard_eq_some] at hr
    obtain ⟨-, -, ⟨es, rs₁, k₁⟩, h1, ⟨valid, rs₂⟩, h2, hr⟩ := hr
    cases hr
    have hsame := execute_chunks_sameRequests _ h1
    refine (append_tokens_spec (hsame.tracked h.idle) hsame.scheduler_output ?_ h2).1
    rw [hsame.requests, hsame.outs]
    exact (h.pending so hso).2

-- What the scheduler promises about the calls of an engine.
def Allowed (s : Runner T × κ) : EngineOp → Prop
  | .execute_model so => Promised s.1 so
  | .sample_tokens _ => True

instance (s : Runner T × κ) (op : EngineOp) : Decidable (Allowed s op) :=
  match op with
  | .execute_model so => inferInstanceAs (Decidable (Promised s.1 so))
  | .sample_tokens _ => inferInstanceAs (Decidable True)

theorem tracked_step (s : Runner T × κ) (op : EngineOp) (s' : Runner T × κ)
    (h : Tracked cfg s.1) (hop : Allowed s op) (hr : step cfg sets mode model s op = some s') :
    Tracked cfg s'.1 := by
  cases op with
  | execute_model so =>
      obtain ⟨rs₁, h1, hr⟩ := Option.bind_eq_some_iff.mp hr
      cases hr
      exact tracked_execute_model cfg sets h hop h1
  | sample_tokens grammar_output =>
      obtain ⟨⟨out, rs₁, k₁⟩, h1, hr⟩ := Option.bind_eq_some_iff.mp hr
      cases hr
      exact tracked_sample_tokens h h1

theorem tracked_reachable {memory : InputBatch T} {k : κ} {s : Runner T × κ}
    (h : Run.Reachable (step cfg sets mode model) Allowed (init memory, k) s) :
    Tracked cfg s.1 :=
  h.invariant (fun s => Tracked cfg s.1) (tracked_init cfg memory) tracked_step

end Runs

end TTXla.VllmTT.Runner
