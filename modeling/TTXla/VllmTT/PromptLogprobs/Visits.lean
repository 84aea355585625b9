import TTXla.VllmTT.PromptLogprobs.Fill

-- What one step does with the tensors of each request.
namespace TTXla.VllmTT.PromptRunner

variable {T H P : Type} {cfg : RunnerConfig} {g : PromptGraphs H P}
  {rs : Runner T} {prompt_lp_hs : Dict Nat (List H)} {so : SchedulerOutput}

-- The hidden states of the row of a request.
def saved_for (rs : Runner T) (prompt_lp_hs : Dict Nat (List H)) (id : ReqId) : Option (List H) :=
  (rs.input_batch.req_id_to_index.lookup id).bind fun req_idx => prompt_lp_hs.lookup req_idx

structure SameFor (id : ReqId) (l l' : PromptLogprobs P) : Prop where
  in_progress : l'.in_progress.lookup id = l.in_progress.lookup id
  result : l'.result.lookup id = l.result.lookup id
  completed : id ∈ l'.completed ↔ id ∈ l.completed

theorem SameFor.refl (id : ReqId) (l : PromptLogprobs P) : SameFor id l l := ⟨rfl, rfl, Iff.rfl⟩

theorem SameFor.trans {id : ReqId} {l l' l'' : PromptLogprobs P} (h : SameFor id l l')
    (h' : SameFor id l' l'') : SameFor id l l'' :=
  ⟨h'.in_progress.trans h.in_progress, h'.result.trans h.result, h'.completed.trans h.completed⟩

-- The request computes positions of its prompt.
structure Advanced (cfg : RunnerConfig) (g : PromptGraphs H P) (rs : Runner T)
    (prompt_lp_hs : Dict Nat (List H)) (id : ReqId) (num_plp : Int) (num_tokens : Nat)
    (l l' : PromptLogprobs P) (t : LogprobsTensors P) (completed : Bool) : Prop where
  logprobs : ∃ request, rs.requests.lookup id = some request ∧
    g.request_logprobs cfg.max_num_reqs num_plp request.prompt_token_ids
      request.num_computed_tokens num_tokens (saved_for rs prompt_lp_hs id)
      (l.in_progress.lookup id) = some (t, completed)
  in_progress : l'.in_progress.lookup id = some t
  result : l'.result.lookup id = if completed then some t else l.result.lookup id
  completed : id ∈ l'.completed ↔ id ∈ l.completed ∨ completed = true

theorem visit_other {l l' : PromptLogprobs P} {entry : Sigma fun _ : ReqId => Int}
    (h : visit cfg g rs prompt_lp_hs so l entry = some l') {id : ReqId} (hne : id ≠ entry.1) :
    SameFor id l l' := by
  obtain ⟨request, -, h⟩ := Option.bind_eq_some_iff.mp h
  dsimp only at h
  split at h
  · cases h
    exact .refl id l
  · obtain ⟨⟨t, completed⟩, -, h⟩ := Option.bind_eq_some_iff.mp h
    cases h
    refine ⟨AList.lookup_insert_ne hne, ?_, ?_⟩
    · cases completed with
      | false => rfl
      | true => exact AList.lookup_insert_ne hne
    · cases completed with
      | false => rfl
      | true =>
          dsimp only
          rw [if_pos rfl, List.mem_append, List.mem_singleton]
          exact or_iff_left hne

theorem visit_unscheduled {l l' : PromptLogprobs P} {id : ReqId} {num_plp : Int}
    (h : visit cfg g rs prompt_lp_hs so l ⟨id, num_plp⟩ = some l')
    (hnone : so.num_scheduled_tokens.lookup id = none) : l' = l := by
  obtain ⟨request, -, h⟩ := Option.bind_eq_some_iff.mp h
  dsimp only at h
  rw [hnone] at h
  cases h
  rfl

theorem visit_scheduled {l l' : PromptLogprobs P} {id : ReqId} {num_plp : Int} {num_tokens : Nat}
    (h : visit cfg g rs prompt_lp_hs so l ⟨id, num_plp⟩ = some l')
    (hn : so.num_scheduled_tokens.lookup id = some num_tokens) :
    ∃ t completed,
      Advanced cfg g rs prompt_lp_hs id num_plp num_tokens l l' t completed := by
  obtain ⟨request, hrequest, h⟩ := Option.bind_eq_some_iff.mp h
  dsimp only at h
  rw [hn] at h
  obtain ⟨⟨t, completed⟩, ht, h⟩ := Option.bind_eq_some_iff.mp h
  cases h
  refine ⟨t, completed, ⟨request, hrequest, ht⟩, AList.lookup_insert _, ?_, ?_⟩
  · cases completed with
    | false => rfl
    | true => exact AList.lookup_insert _
  · cases completed with
    | false => simp
    | true => simp

-- The loop visits each request once, and the visits of the others leave its tensors alone.
theorem visits_other {entries : List (Sigma fun _ : ReqId => Int)} {l l' : PromptLogprobs P}
    (h : entries.foldlM (visit cfg g rs prompt_lp_hs so) l = some l') {id : ReqId}
    (hid : id ∉ entries.keys) : SameFor id l l' := by
  induction entries generalizing l with
  | nil =>
      cases h
      exact .refl id _
  | cons entry entries ih =>
      obtain ⟨mid, hmid, hrest⟩ := Option.bind_eq_some_iff.mp h
      rw [List.keys_cons, List.mem_cons, not_or] at hid
      exact (visit_other hmid hid.1).trans (ih hrest hid.2)

theorem visits_unscheduled {entries : List (Sigma fun _ : ReqId => Int)}
    {l l' : PromptLogprobs P}
    (h : entries.foldlM (visit cfg g rs prompt_lp_hs so) l = some l') {id : ReqId}
    (hnone : so.num_scheduled_tokens.lookup id = none) : SameFor id l l' := by
  induction entries generalizing l with
  | nil =>
      cases h
      exact .refl id _
  | cons entry entries ih =>
      obtain ⟨mid, hmid, hrest⟩ := Option.bind_eq_some_iff.mp h
      refine SameFor.trans ?_ (ih hrest)
      by_cases hid : id = entry.1
      · subst hid
        rw [visit_unscheduled hmid hnone]
        exact .refl _ _
      · exact visit_other hmid hid

theorem visits_scheduled {entries : List (Sigma fun _ : ReqId => Int)} {l l' : PromptLogprobs P}
    (hnodup : entries.NodupKeys)
    (h : entries.foldlM (visit cfg g rs prompt_lp_hs so) l = some l') {id : ReqId} {num_plp : Int}
    (hid : ⟨id, num_plp⟩ ∈ entries) {num_tokens : Nat}
    (hn : so.num_scheduled_tokens.lookup id = some num_tokens) :
    ∃ t completed,
      Advanced cfg g rs prompt_lp_hs id num_plp num_tokens l l' t completed := by
  induction entries generalizing l with
  | nil => cases hid
  | cons entry entries ih =>
      obtain ⟨mid, hmid, hrest⟩ := Option.bind_eq_some_iff.mp h
      rw [List.nodupKeys_cons] at hnodup
      rcases List.mem_cons.mp hid with rfl | hid
      · obtain ⟨t, completed, hadv⟩ := visit_scheduled hmid hn
        have hsame := visits_other hrest hnodup.1
        exact ⟨t, completed, hadv.logprobs, hsame.in_progress.trans hadv.in_progress,
          hsame.result.trans hadv.result, hsame.completed.trans hadv.completed⟩
      · have hne : id ≠ entry.1 := by
          rintro rfl
          exact hnodup.1 (List.mem_map.mpr ⟨_, hid, rfl⟩)
        have hsame := visit_other hmid hne
        obtain ⟨t, completed, ⟨request, hrequest, ht⟩, h1, h2, h3⟩ := ih hnodup.2 hrest hid
        refine ⟨t, completed, ⟨request, hrequest, ?_⟩, h1, ?_, ?_⟩
        · rw [← hsame.in_progress]
          exact ht
        · rw [← hsame.result]
          exact h2
        · rw [← hsame.completed]
          exact h3

-- A request that asks for no prompt logprobs, or is not scheduled.
theorem dict_unchanged {s s' : PromptRunner T P} {dict : Dict ReqId (LogprobsTensors P)}
    (h : get_prompt_logprobs_dict cfg g s prompt_lp_hs so = some (dict, s')) {id : ReqId}
    (hid : s.runner.num_prompt_logprobs.lookup id = none ∨
      so.num_scheduled_tokens.lookup id = none) :
    dict.lookup id = none ∧ s'.in_progress.lookup id = s.in_progress.lookup id ∧
      s'.runner.num_prompt_logprobs.lookup id = s.runner.num_prompt_logprobs.lookup id := by
  obtain ⟨l, hl, h⟩ := Option.bind_eq_some_iff.mp h
  cases h
  have hsame : SameFor id ⟨s.in_progress, ∅, []⟩ l := by
    rcases hid with hid | hid
    · exact visits_other hl fun hm => AList.lookup_eq_none.mp hid hm
    · exact visits_unscheduled hl hid
  have hcompleted : id ∉ l.completed := fun hm => by cases hsame.completed.mp hm
  refine ⟨hsame.result.trans (AList.lookup_empty _), ?_, ?_⟩
  · dsimp only
    rw [Runner.lookup_popAll, if_neg hcompleted, hsame.in_progress]
  · dsimp only
    rw [Runner.lookup_popAll, if_neg hcompleted]

-- A scheduled request that asks for them: its tensors are returned when they are completed, and
-- in progress until then.
theorem dict_advanced {s s' : PromptRunner T P} {dict : Dict ReqId (LogprobsTensors P)}
    (h : get_prompt_logprobs_dict cfg g s prompt_lp_hs so = some (dict, s')) {id : ReqId}
    {num_plp : Int} {num_tokens : Nat}
    (hid : s.runner.num_prompt_logprobs.lookup id = some num_plp)
    (hn : so.num_scheduled_tokens.lookup id = some num_tokens) :
    ∃ request t completed, s.runner.requests.lookup id = some request ∧
      g.request_logprobs cfg.max_num_reqs num_plp request.prompt_token_ids
        request.num_computed_tokens num_tokens (saved_for s.runner prompt_lp_hs id)
        (s.in_progress.lookup id) = some (t, completed) ∧
      dict.lookup id = (if completed then some t else none) ∧
      s'.in_progress.lookup id = (if completed then none else some t) ∧
      s'.runner.num_prompt_logprobs.lookup id = if completed then none else some num_plp := by
  obtain ⟨l, hl, h⟩ := Option.bind_eq_some_iff.mp h
  cases h
  obtain ⟨t, completed, ⟨request, hrequest, ht⟩, h1, h2, h3⟩ :=
    visits_scheduled (AList.nodupKeys _) hl (AList.mem_lookup_iff.mp hid) hn
  have hdone : id ∈ l.completed ↔ completed = true := by simpa using h3
  refine ⟨request, t, completed, hrequest, ht, h2.trans (by rw [AList.lookup_empty]), ?_, ?_⟩
  · dsimp only
    rw [Runner.lookup_popAll, h1]
    simp only [hdone]
  · dsimp only
    rw [Runner.lookup_popAll, hid]
    simp only [hdone]

end TTXla.VllmTT.PromptRunner
