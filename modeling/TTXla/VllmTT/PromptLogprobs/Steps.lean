import TTXla.VllmTT.PromptLogprobs.Visits

-- The two calls of a step: what they leave for the prompt logprobs.
namespace TTXla.VllmTT

variable {T : Type} [BlockTable T] {κ H LP P : Type} {cfg : RunnerConfig} {sets : SetOrder}
  {mode : OutOfRange} {model : Model κ H LP} {g : PromptGraphs H P} {so : SchedulerOutput}
  {grammar_output : Option GrammarOutput}

namespace Runner

-- `num_prompt_logprobs` of a new request.
def requested (cfg : RunnerConfig) (n : Int) : Int := if n = -1 then cfg.vocab_size else n

omit [BlockTable T] in
theorem add_new_reqs_prompt_logprobs (ds : List NewRequestData) {rs rs' : Runner T}
    (hnodup : (ds.map NewRequestData.req_id).Nodup) (h : add_new_reqs cfg ds rs = some rs') :
    (∀ id ∉ ds.map NewRequestData.req_id,
      rs'.num_prompt_logprobs.lookup id = rs.num_prompt_logprobs.lookup id) ∧
    ∀ d ∈ ds, ∀ sp n, d.sampling_params = some sp → sp.prompt_logprobs = some n →
      rs'.num_prompt_logprobs.lookup d.req_id = some (requested cfg n) := by
  induction ds generalizing rs with
  | nil =>
      cases h
      exact ⟨fun _ _ => rfl, fun d hd => by cases hd⟩
  | cons d ds ih =>
      obtain ⟨mid, hmid, hrest⟩ := Option.bind_eq_some_iff.mp h
      obtain ⟨sp, hsp, hmid⟩ := Option.bind_eq_some_iff.mp hmid
      cases hmid
      rw [List.map_cons, List.nodup_cons] at hnodup
      obtain ⟨hother, hnew⟩ := ih hnodup.2 hrest
      refine ⟨fun id hid => ?_, fun d' hd' sp' n hsp' hn => ?_⟩
      · rw [List.map_cons, List.mem_cons, not_or] at hid
        rw [hother id hid.2]
        dsimp only
        split
        · exact AList.lookup_insert_ne hid.1
        · rfl
      · rcases List.mem_cons.mp hd' with rfl | hd'
        · obtain rfl := Option.some.inj (hsp.symm.trans hsp')
          rw [hother _ hnodup.1]
          dsimp only
          rw [hn]
          exact AList.lookup_insert _
        · exact hnew d' hd' sp' n hsp' hn

-- Which requests ask for prompt logprobs after `_update_states`.
theorem update_states_prompt_logprobs {rs rs' : Runner T} (h : Consistent cfg rs)
    (hso : Fits rs so) (hr : update_states cfg sets rs so = some rs') :
    (∀ id ∉ so.new_ids, rs'.num_prompt_logprobs.lookup id =
      if id ∈ so.finished_req_ids then none else rs.num_prompt_logprobs.lookup id) ∧
    ∀ d ∈ so.scheduled_new_reqs, ∀ sp n, d.sampling_params = some sp →
      sp.prompt_logprobs = some n →
      rs'.num_prompt_logprobs.lookup d.req_id = some (requested cfg n) := by
  obtain ⟨b₁, removed₁, b₂, removed₂, rs₃, rs₄, to_add, b₅, removed₅, h1, h2, h3, h4, h5, rfl⟩ :=
    update_states_phases cfg sets hr
  have hp := phases_spec cfg sets h hso h1 h2 h3 h4 h5
  obtain ⟨b, requests, rfl⟩ := hp.cached_frame
  have hnodup : (so.new_ids ++ so.cached_ids).Nodup :=
    hso.scheduled.nodup_iff.mpr (AList.keys_nodup _)
  obtain ⟨hother, hnew⟩ := add_new_reqs_prompt_logprobs _ (List.nodup_append.mp hnodup).1 h3
  refine ⟨fun id hid => ?_, hnew⟩
  dsimp only
  rw [hother id hid, lookup_popAll]

theorem execute_chunk_prompt_logprobs {rs rs' : Runner T} {k k' : κ} {start_index : Nat}
    {e : Execution LP}
    (h : execute_chunk cfg mode model so grammar_output rs k start_index = some (e, rs', k')) :
    rs'.num_prompt_logprobs = rs.num_prompt_logprobs := by
  obtain ⟨inp, rs₁, si, h1, h2, -⟩ := execute_chunk_inputs h
  obtain ⟨all_counts, hp⟩ := prepare_inputs_spec cfg h1
  have hfill : rs₁.num_prompt_logprobs = rs.num_prompt_logprobs := by
    rw [hp.runner]
    rfl
  rw [← hfill]
  obtain ⟨⟨md, b⟩, hb, h2⟩ := Option.bind_eq_some_iff.mp h2
  cases grammar_output with
  | none =>
      cases h2
      rfl
  | some grammar =>
      obtain ⟨bitmask, -, h2⟩ := Option.bind_eq_some_iff.mp h2
      cases h2
      rfl

-- Two runners that agree on the requests of the rows.
structure SameRows (rs rs' : Runner T) : Prop where
  requests : rs'.requests = rs.requests
  num_prompt_logprobs : rs'.num_prompt_logprobs = rs.num_prompt_logprobs
  index : rs'.input_batch.req_id_to_index = rs.input_batch.req_id_to_index

omit [BlockTable T] in
theorem append_tokens_sameRows {rs rs' : Runner T} {selected : List Token}
    {valid : List (List Token)} (h : append_tokens cfg rs so selected = some (valid, rs')) :
    SameRows rs rs' := by
  unfold append_tokens at h
  simp only [Option.bind_eq_bind, Option.bind_eq_some_iff] at h
  obtain ⟨seq_lens, -, valid', -, last, hlast, h⟩ := h
  cases h
  refine Options.foldlM_invariant (SameRows rs) (fun mid e next hmid hnext => ?_) ⟨rfl, rfl, rfl⟩
    hlast
  unfold append_token at hnext
  simp only [Option.bind_eq_bind, Option.bind_eq_some_iff] at hnext
  obtain ⟨sampled, -, token_id, -, -, -, hnext⟩ := hnext
  cases hnext
  exact ⟨hmid.requests, hmid.num_prompt_logprobs, hmid.index⟩

end Runner

namespace PromptRunner

-- The hidden states that the decoder computes for row `i`: those of the execution that takes it.
def decoded (cfg : RunnerConfig) (mode : OutOfRange) (model : Model κ H LP)
    (so : SchedulerOutput) (grammar_output : Option GrammarOutput) :
    Nat → Runner T → κ → Nat → Nat → Option (List H)
  | 0, _, _, _, _ => none
  | fuel + 1, rs, k, start_index, i => do
      let (inp, _) ← Runner.prepare_inputs cfg rs so start_index
      let (_, hidden_states) ← model.forward k inp
      if i < inp.end_index then
        return (List.range inp.padded_len).map (hidden_states (i - start_index))
      else do
        let (e, rs, k) ← Runner.execute_chunk cfg mode model so grammar_output rs k start_index
        decoded cfg mode model so grammar_output fuel rs k e.end_index i

section Saved

variable {rs : Runner T} {start_index end_index padded_len : Nat}
  {hidden_states : Nat → Nat → H}

omit [BlockTable T] in
theorem save_other {prompt_lp_hs : Dict Nat (List H)} {i : Nat}
    (hi : i < start_index ∨ end_index ≤ i) :
    (save_hidden_states rs start_index end_index padded_len hidden_states prompt_lp_hs).lookup i =
      prompt_lp_hs.lookup i := by
  have hmem : i ∉ List.range' start_index (end_index - start_index) := by
    rw [List.mem_range'_1]
    omega
  unfold save_hidden_states
  generalize List.range' start_index (end_index - start_index) = rows at hmem
  induction rows generalizing prompt_lp_hs with
  | nil => rfl
  | cons j rows ih =>
      rw [List.mem_cons, not_or] at hmem
      rw [List.foldl_cons, ih hmem.2]
      split
      · rfl
      · split
        · exact AList.lookup_insert_ne hmem.1
        · rfl

omit [BlockTable T] in
theorem save_wanted {prompt_lp_hs : Dict Nat (List H)} {i : Nat} {id : ReqId}
    (hstart : start_index ≤ i) (hend : i < end_index)
    (hid : rs.input_batch.req_ids[i]? = some (some id)) (hwanted : id ∈ rs.num_prompt_logprobs) :
    (save_hidden_states rs start_index end_index padded_len hidden_states prompt_lp_hs).lookup i =
      some ((List.range padded_len).map (hidden_states (i - start_index))) := by
  have hmem : i ∈ List.range' start_index (end_index - start_index) := by
    rw [List.mem_range'_1]
    omega
  have hjoin : (rs.input_batch.req_ids[i]?).join = some id := by rw [hid]; rfl
  unfold save_hidden_states
  generalize List.range' start_index (end_index - start_index) = rows at hmem
  induction rows using List.reverseRecOn with
  | nil => cases hmem
  | append_singleton rows j ih =>
      rw [List.foldl_append, List.foldl_cons, List.foldl_nil]
      by_cases hij : i = j
      · subst hij
        rw [hjoin]
        dsimp only
        rw [if_pos hwanted]
        exact AList.lookup_insert _
      · have hlast := ih ((List.mem_append.mp hmem).resolve_right fun h =>
          hij (List.mem_singleton.mp h))
        split
        · exact hlast
        · split
          · rw [AList.lookup_insert_ne hij]
            exact hlast
          · exact hlast

end Saved

-- The loop decodes every row, and saves the rows of the requests that ask for it.
theorem execute_chunks_spec (fuel : Nat) {rs rs' : Runner T} {k k' : κ} {start_index : Nat}
    {prompt_lp_hs prompt_lp_hs' : Dict Nat (List H)} {es : List (Runner.Execution LP)}
    (h : execute_chunks cfg mode model so grammar_output fuel rs k start_index prompt_lp_hs =
      some (es, prompt_lp_hs', rs', k')) :
    Runner.SameRequests rs rs' ∧ rs'.num_prompt_logprobs = rs.num_prompt_logprobs ∧
      (∀ i < start_index, prompt_lp_hs'.lookup i = prompt_lp_hs.lookup i) ∧
      ∀ i id, start_index ≤ i → i < rs.input_batch.num_reqs →
        rs.input_batch.req_ids[i]? = some (some id) →
        ∃ hs, decoded cfg mode model so grammar_output fuel rs k start_index i = some hs ∧
          (id ∈ rs.num_prompt_logprobs → prompt_lp_hs'.lookup i = some hs) := by
  induction fuel generalizing rs k start_index prompt_lp_hs es with
  | zero =>
      unfold execute_chunks at h
      split at h
      · cases h
      · cases h
        exact ⟨.refl _, rfl, fun _ _ => rfl, fun i id h1 h2 => by omega⟩
  | succ fuel ih =>
      unfold execute_chunks at h
      split at h
      · simp only [Option.bind_eq_bind, Option.bind_eq_some_iff] at h
        obtain ⟨⟨inp, rs₀⟩, hinp, ⟨k₀, hidden_states⟩, hforward, ⟨e, rs₁, k₁⟩, hchunk,
          ⟨es', hs', rs₂, k₂⟩, hrest, h⟩ := h
        cases h
        obtain ⟨hsame, hplp, hbefore, hrows⟩ := ih hrest
        dsimp only at hforward hsame hplp hbefore hrows ⊢
        have hsame₁ := Runner.execute_chunk_sameRequests hchunk
        have hplp₁ := Runner.execute_chunk_prompt_logprobs hchunk
        obtain ⟨hlt, hle⟩ := Runner.execute_chunk_end hchunk
        obtain ⟨inp', rs₀', si, hinp', -, hend⟩ := Runner.execute_chunk_inputs hchunk
        obtain ⟨rfl, rfl⟩ := Prod.mk.inj (Option.some.inj (hinp.symm.trans hinp'))
        refine ⟨hsame₁.trans hsame, hplp.trans hplp₁, fun i hi => ?_, fun i id h1 h2 hid => ?_⟩
        · rw [hbefore i (by omega), save_other (by omega)]
        · simp only [decoded, hinp, hforward, Option.bind_eq_bind, Option.bind_some]
          by_cases hi : i < inp.end_index
          · rw [if_pos hi]
            refine ⟨_, rfl, fun hwanted => ?_⟩
            rw [hbefore i (by omega)]
            exact save_wanted h1 hi hid hwanted
          · rw [if_neg hi, hchunk, Option.bind_some]
            have hnum : rs₁.input_batch.num_reqs = rs.input_batch.num_reqs :=
              congrArg (fun d => d.keys.length) hsame₁.index
            rw [← hplp₁]
            exact hrows i id (by omega) (by omega) (by rw [hsame₁.req_ids]; exact hid)
      · cases h
        exact ⟨.refl _, rfl, fun _ _ => rfl, fun i id h1 h2 => by omega⟩

end PromptRunner

end TTXla.VllmTT
