import TTXla.VllmTT.ModelRunner.History

-- The executions of one step, and the histories that its inputs are read from.
namespace TTXla.VllmTT

-- The counts of a scheduler output, one for each of its requests.
def SchedulerOutput.counts (so : SchedulerOutput) : List Nat :=
  so.num_scheduled_tokens.entries.map Sigma.snd

-- A single execution takes all the requests of the step.
def SchedulerOutput.Unsplit (cfg : RunnerConfig) (so : SchedulerOutput) : Prop :=
  so.counts.length ≤ cfg.num_reqs_limit so.counts

theorem SchedulerOutput.mem_counts (so : SchedulerOutput) (n : Nat) :
    n ∈ so.counts ↔ ∃ id, so.num_scheduled_tokens.lookup id = some n := by
  simp only [counts, List.mem_map, Sigma.exists]
  constructor
  · rintro ⟨id, m, hm, rfl⟩
    exact ⟨id, AList.mem_lookup_iff.mpr hm⟩
  · rintro ⟨id, hid⟩
    exact ⟨id, n, AList.mem_lookup_iff.mp hid, rfl⟩

-- The limit does not depend on the order of the counts.
theorem BaseConfig.num_reqs_limit_congr (cfg : BaseConfig) {l l' : List Nat}
    (h : ∀ n, n ∈ l ↔ n ∈ l') : cfg.num_reqs_limit l = cfg.num_reqs_limit l' := by
  have huse : cfg.use_max_model_len l = cfg.use_max_model_len l' := by
    unfold use_max_model_len
    split
    · rfl
    · rw [Bool.eq_iff_iff, List.any_eq_true, List.any_eq_true]
      simp only [h]
  rw [num_reqs_limit, num_reqs_limit, huse]

namespace Runner

variable {T : Type} [BlockTable T] {κ H LP : Type} {cfg : RunnerConfig} {sets : SetOrder}
  {mode : OutOfRange} {model : Model κ H LP} {so : SchedulerOutput}
  {grammar_output : Option GrammarOutput}

-- The states in which the loop of a step starts an execution, and where it starts.
inductive InLoop (cfg : RunnerConfig) (mode : OutOfRange) (model : Model κ H LP)
    (so : SchedulerOutput) (grammar_output : Option GrammarOutput) (rs : Runner T) (k : κ) :
    Runner T → κ → Nat → Prop
  | start : InLoop cfg mode model so grammar_output rs k rs k 0
  | next {rs₁ rs₂ : Runner T} {k₁ k₂ : κ} {start_index : Nat} {e : Execution LP}
      (h : InLoop cfg mode model so grammar_output rs k rs₁ k₁ start_index)
      (hstep : execute_chunk cfg mode model so grammar_output rs₁ k₁ start_index =
        some (e, rs₂, k₂)) :
      InLoop cfg mode model so grammar_output rs k rs₂ k₂ e.end_index

-- The request of each row is cached, and the row is a copy of its tokens.
def HistoryKept (rs : Runner T) : Prop :=
  ∀ (id : ReqId) (i : Nat), rs.input_batch.req_ids[i]? = some (some id) →
    ∃ st, rs.requests.lookup id = some st ∧
      (List.range (rs.input_batch.num_tokens i)).map (rs.input_batch.token_ids_cpu i) =
        st.history rs.outs ∧
      rs.input_batch.num_tokens i = (st.history rs.outs).length ∧
      rs.input_batch.num_computed_tokens_cpu i ≤ rs.input_batch.num_tokens i

-- The inputs of each execution are the scheduled slices of the histories of its requests.
def InputsFollow (cfg : RunnerConfig) (mode : OutOfRange) (model : Model κ H LP)
    (so : SchedulerOutput) (s : Runner T × κ) : Prop :=
  ∀ (grammar_output : Option GrammarOutput) (rs : Runner T) (k : κ) (start_index : Nat),
    InLoop cfg mode model so grammar_output { s.1 with scheduler_output := none } s.2
      rs k start_index →
    ∀ (inp : ModelInputs) (rs' : Runner T),
      prepare_inputs cfg rs so start_index = some (inp, rs') →
      ∀ (id : ReqId) (i : Nat), start_index ≤ i → i < inp.end_index →
        rs.input_batch.req_ids[i]? = some (some id) →
        ∃ st n, rs.requests.lookup id = some st ∧ so.num_scheduled_tokens.lookup id = some n ∧
          (List.range n).map (inp.input_ids (i - start_index)) =
            ((st.history rs.outs).drop (rs.input_batch.num_computed_tokens_cpu i)).take n

theorem Tracked.historyKept {rs : Runner T} (h : Tracked cfg rs) : HistoryKept rs := by
  intro id i hi
  have hrow : rs.input_batch.rowOf id = some (rs.input_batch.row i) := by
    unfold InputBatch.rowOf
    rw [(h.full.indexed.inverse id i).mpr hi]
    rfl
  obtain ⟨st, hst, ha⟩ := h.rows id _ hrow
  refine ⟨st, hst, ha.token_ids, ?_, h.computed_le id _ hrow⟩
  rw [CachedRequestState.length_history]
  exact ha.num_tokens

theorem InLoop.sameRequests {rs rs' : Runner T} {k k' : κ} {start_index : Nat}
    (h : InLoop cfg mode model so grammar_output rs k rs' k' start_index) :
    SameRequests rs rs' := by
  induction h with
  | start => exact .refl _
  | next _ hstep ih => exact ih.trans (execute_chunk_sameRequests hstep)

-- What is known of the rows when a step is pending: each has a count.
structure Pending (rs : Runner T) (so : SchedulerOutput) : Prop where
  full : rs.input_batch.Full
  scheduled : ∀ id, id ∈ rs.input_batch.req_id_to_index ↔ id ∈ so.num_scheduled_tokens

omit [BlockTable T] in
theorem SameRequests.pending {rs rs' : Runner T} (h : SameRequests rs rs')
    (hp : Pending rs so) : Pending rs' so where
  full := h.full hp.full
  scheduled := by rw [h.index]; exact hp.scheduled

omit [BlockTable T] in
theorem Pending.length_counts {rs : Runner T} (h : Pending rs so) :
    so.counts.length = rs.input_batch.num_reqs := by
  have hperm : rs.input_batch.req_id_to_index.keys.Perm so.num_scheduled_tokens.keys :=
    (List.perm_ext_iff_of_nodup (AList.keys_nodup _) (AList.keys_nodup _)).mpr fun id => by
      rw [← AList.mem_keys, ← AList.mem_keys]
      exact h.scheduled id
  have hlen : so.counts.length = so.num_scheduled_tokens.keys.length := by
    simp [SchedulerOutput.counts, AList.keys, List.keys]
  rw [hlen, InputBatch.num_reqs, hperm.length_eq]

-- The counts of all the rows are those of the scheduler output, in some order.
omit [BlockTable T] in
theorem Pending.mem_counts {rs : Runner T} (h : Pending rs so) {all_counts : List Nat}
    (hall : scheduled_counts rs.input_batch so 0 = some all_counts) (n : Nat) :
    n ∈ all_counts ↔ n ∈ so.counts := by
  obtain ⟨hlen, hget⟩ := getElem?_scheduled_counts hall
  simp only [Nat.sub_zero, Nat.zero_add] at hlen hget
  rw [SchedulerOutput.mem_counts]
  constructor
  · intro hn
    obtain ⟨i, hi⟩ := List.getElem?_of_mem hn
    obtain ⟨id, m, -, hm, he⟩ := hget i (by rw [← hlen]; exact (List.getElem?_eq_some_iff.mp hi).1)
    obtain rfl := Option.some.inj (he.symm.trans hi)
    exact ⟨id, hm⟩
  · rintro ⟨id, hn⟩
    obtain ⟨i, hi⟩ := (Dict.mem_iff _ _).mp
      ((h.scheduled id).mpr ((Dict.mem_iff _ _).mpr ⟨n, hn⟩))
    obtain ⟨id', m, hid, hm, he⟩ := hget i (h.full.lt_num_reqs hi)
    obtain rfl : id' = id := by
      have := ((h.full.indexed.inverse id i).mp hi).symm.trans hid
      simpa using this.symm
    obtain rfl := Option.some.inj (hm.symm.trans hn)
    exact List.mem_of_getElem? he

omit [BlockTable T] in
theorem SameRequests.scheduled_counts_eq {rs rs' : Runner T} (h : SameRequests rs rs')
    (start_index : Nat) :
    scheduled_counts rs'.input_batch so start_index =
      scheduled_counts rs.input_batch so start_index := by
  unfold scheduled_counts InputBatch.num_reqs
  rw [h.req_ids, h.index]

omit [BlockTable T] in
theorem Pending.unsplit {rs : Runner T} (h : Pending rs so) (hso : so.Unsplit cfg)
    (counts : List Nat) (hc : scheduled_counts rs.input_batch so 0 = some counts) :
    counts.length ≤ cfg.num_reqs_limit counts := by
  have hlen := (getElem?_scheduled_counts hc).1
  have hlimit := cfg.num_reqs_limit_congr (h.mem_counts hc)
  rw [hlimit, hlen, Nat.sub_zero, ← h.length_counts]
  exact hso

theorem execute_chunk_end {rs rs' : Runner T} {k k' : κ} {start_index : Nat} {e : Execution LP}
    (h : execute_chunk cfg mode model so grammar_output rs k start_index = some (e, rs', k')) :
    start_index < e.end_index ∧ e.end_index ≤ rs.input_batch.num_reqs := by
  obtain ⟨inp, rs₁, si, h1, -, hend⟩ := execute_chunk_inputs h
  obtain ⟨all_counts, ha⟩ := prepare_inputs_spec cfg h1
  obtain ⟨n, hn, -⟩ := ha.pos
  have hpos : 0 < (all_counts.take (cfg.num_reqs_limit all_counts)).length :=
    List.length_pos_of_mem hn
  rw [List.length_take] at hpos
  have := (getElem?_scheduled_counts ha.scheduled).1
  have := ha.end_index
  have := ha.num_reqs
  omega

-- The loop makes one execution when that takes all the rows.
theorem InLoop.single {rs rs' : Runner T} {k k' : κ} {start_index : Nat}
    (h : InLoop cfg mode model so grammar_output rs k rs' k' start_index)
    (hle : ∀ counts, scheduled_counts rs.input_batch so 0 = some counts →
      counts.length ≤ cfg.num_reqs_limit counts) :
    start_index = 0 ∨ start_index = rs.input_batch.num_reqs := by
  induction h with
  | start => exact Or.inl rfl
  | next h hstep ih =>
      obtain ⟨inp, rs₁, si, h1, -, hend⟩ := execute_chunk_inputs hstep
      obtain ⟨all_counts, hprep⟩ := prepare_inputs_spec cfg h1
      have hsame := h.sameRequests
      have hnum : _ = rs.input_batch.num_reqs := congrArg (fun d => d.keys.length) hsame.index
      have hlt := hprep.start_lt
      rw [InputBatch.num_reqs] at hlt
      obtain rfl : _ = 0 := ih.resolve_right (by omega)
      have hall := hprep.scheduled
      rw [hsame.scheduled_counts_eq] at hall
      have hlimit := hle all_counts hall
      have hlen := (getElem?_scheduled_counts hall).1
      have he := hprep.end_index
      have hn := hprep.num_reqs
      right
      omega

-- Every execution takes a request, so the loop needs no more iterations than there are rows.
theorem execute_chunks_fuel (fuel : Nat) (rs : Runner T) (k : κ) (start_index : Nat)
    (hfuel : rs.input_batch.num_reqs ≤ start_index + fuel) :
    execute_chunks cfg mode model so grammar_output (fuel + 1) rs k start_index =
      execute_chunks cfg mode model so grammar_output fuel rs k start_index := by
  induction fuel generalizing rs k start_index with
  | zero => simp [execute_chunks, show ¬start_index < rs.input_batch.num_reqs by omega]
  | succ fuel ih =>
      rw [execute_chunks, execute_chunks]
      split
      · refine Option.bind_congr fun ⟨e, rs', k'⟩ he => ?_
        have hend := execute_chunk_end he
        have hsame := execute_chunk_sameRequests he
        dsimp only
        rw [ih rs' k' e.end_index (by rw [InputBatch.num_reqs, hsame.index]; exact (by omega :
          rs.input_batch.num_reqs ≤ e.end_index + fuel))]
      · rfl

-- Each row of an execution from row 0 on is read from its own history.
theorem inputs_eq_slice {rs rs' : Runner T} {inp : ModelInputs} (h : Tracked cfg rs)
    (hc : ∀ id st n, rs.requests.lookup id = some st →
      so.num_scheduled_tokens.lookup id = some n →
      st.num_computed_tokens + n ≤ st.num_tokens rs.outs)
    (hprep : prepare_inputs cfg rs so 0 = some (inp, rs')) {id : ReqId} {i : Nat}
    (hi : i < inp.end_index) (hid : rs.input_batch.req_ids[i]? = some (some id)) :
    ∃ st n, rs.requests.lookup id = some st ∧ so.num_scheduled_tokens.lookup id = some n ∧
      (List.range n).map (inp.input_ids i) =
        ((st.history rs.outs).drop (rs.input_batch.num_computed_tokens_cpu i)).take n := by
  obtain ⟨all_counts, ha⟩ := prepare_inputs_spec cfg hprep
  obtain ⟨hlen, hget⟩ := getElem?_scheduled_counts ha.scheduled
  simp only [Nat.sub_zero, Nat.zero_add] at hlen hget
  have hidx := (h.full.indexed.inverse id i).mpr hid
  obtain ⟨st, hst, hadd⟩ := h.rows id (rs.input_batch.row i) (by
    unfold InputBatch.rowOf
    rw [hidx]
    rfl)
  obtain ⟨id', n, hid', hn, hcount⟩ := hget i (h.full.lt_num_reqs hidx)
  obtain rfl : id' = id := by simpa using hid'.symm.trans hid
  refine ⟨st, n, hst, hn, ?_⟩
  have htake : (all_counts.take (cfg.num_reqs_limit all_counts))[i]? = some n := by
    rw [List.getElem?_take_of_lt, hcount]
    have := ha.end_index
    have := ha.num_reqs
    omega
  have hsum := hc _ st n hst hn
  have hmax := h.fits _ st hst
  have hcomp : rs.input_batch.num_computed_tokens_cpu i = st.num_computed_tokens :=
    hadd.num_computed_tokens
  have hnum : rs.input_batch.num_tokens i = st.num_tokens rs.outs := hadd.num_tokens
  have htok : (List.range (rs.input_batch.num_tokens i)).map (rs.input_batch.token_ids_cpu i) =
    st.history rs.outs := hadd.token_ids
  rw [← htok]
  refine List.ext_getElem ?_ fun j h1 h2 => ?_
  · simp only [List.length_map, List.length_range, List.length_take, List.length_drop]
    omega
  · simp only [List.length_map, List.length_range] at h1
    simp only [List.getElem_map, List.getElem_range, List.getElem_take, List.getElem_drop]
    rw [ha.input_ids i n j htake h1, readSlice, if_pos (by omega)]

theorem Tracked.inputsFollow {s : Runner T × κ} (h : Tracked cfg s.1)
    (hso : s.1.scheduler_output = some so) (hun : so.Unsplit cfg) :
    InputsFollow cfg mode model so s := by
  intro grammar_output rs k start_index hloop inp rs' hprep id i hlo hhi hid
  obtain ⟨hsched, hcounts⟩ := h.pending so hso
  have hp : Pending { s.1 with scheduler_output := none } so := ⟨h.full, hsched⟩
  have hsame := hloop.sameRequests
  have ht := hsame.tracked h.idle
  have hp' := hsame.pending hp
  obtain ⟨all_counts, ha⟩ := prepare_inputs_spec cfg hprep
  have hlt := ha.start_lt
  have hnum := hp'.length_counts.symm.trans hp.length_counts
  obtain rfl : start_index = 0 := (hloop.single (hp.unsplit hun)).resolve_right (by omega)
  refine inputs_eq_slice ht ?_ hprep hhi hid
  rw [hsame.requests, hsame.outs]
  exact hcounts

-- In every state of every run the two copies of a history agree, and the inputs of a step
-- that is not split follow it.
theorem histories_kept {memory : InputBatch T} {k₀ : κ} {s : Runner T × κ}
    (h : Run.Reachable (step cfg sets mode model) Allowed (init memory, k₀) s) :
    HistoryKept s.1 ∧
      ∀ so ∈ s.1.scheduler_output, so.Unsplit cfg → InputsFollow cfg mode model so s :=
  ⟨(tracked_reachable h).historyKept, fun _ hso => (tracked_reachable h).inputsFollow hso⟩

section Example

-- A decoder that computes nothing, and a sampler that always picks token 1.
def constant : Model Unit Unit Unit where
  forward := fun k _ => some (k, fun _ _ => ())
  sample := fun picked _ _ => picked.map fun _ => 1
  gather_logprobs := fun picked _ => picked

def pendingSplit : Runner DenseTable × Unit :=
  (Run.exec (step longContext .asListed .raise constant) Allowed (init oneGroup, ())
    [.execute_model firstStep]).get (by decide)

theorem pendingSplit_reachable :
    Run.Reachable (step longContext .asListed .raise constant) Allowed (init oneGroup, ())
      pendingSplit :=
  .of_exec [.execute_model firstStep] .start (Option.some_get _).symm

def firstChunk : Execution Unit × Runner DenseTable × Unit :=
  (execute_chunk longContext .raise constant firstStep none
    { pendingSplit.1 with scheduler_output := none } () 0).get (by decide)

theorem firstChunk_eq : execute_chunk longContext .raise constant firstStep none
    { pendingSplit.1 with scheduler_output := none } () 0 =
      some (firstChunk.1, firstChunk.2.1, firstChunk.2.2) := by
  rw [Prod.mk.eta, firstChunk, Option.some_get]

def secondInputs : ModelInputs × Runner DenseTable :=
  (prepare_inputs longContext firstChunk.2.1 firstStep 1).get (by decide)

theorem secondInputs_eq : prepare_inputs longContext firstChunk.2.1 firstStep 1 =
    some (secondInputs.1, secondInputs.2) := by
  rw [Prod.mk.eta, secondInputs, Option.some_get]

def oneStep : Runner DenseTable × Unit :=
  (Run.exec (step twoRows .asListed .raise constant) Allowed (init oneGroup, ())
    [.execute_model onePrompt]).get (by decide)

-- The second execution is for request B, whose prompt is 9; it is given a token of A.
theorem pendingSplit_inputs :
    Run.Reachable (step longContext .asListed .raise constant) Allowed (init oneGroup, ())
      pendingSplit ∧
    pendingSplit.1.scheduler_output = some firstStep ∧
    ¬InputsFollow longContext .raise constant firstStep pendingSplit := by
  refine ⟨pendingSplit_reachable, rfl, fun h => ?_⟩
  obtain ⟨st, n, hst, hn, he⟩ := h none _ _ _ (.next .start firstChunk_eq) _ _ secondInputs_eq "B"
    1 (by decide) (by decide) (by decide)
  obtain rfl : n = 1 := Option.some.inj (hn.symm.trans (by decide))
  have hfed : (List.range 1).map (secondInputs.1.input_ids (1 - firstChunk.1.end_index)) = [7] := by
    decide
  rw [hfed] at he
  revert he
  obtain rfl : (firstChunk.2.1.requests.lookup "B").get (by decide) = st :=
    Option.get_of_mem _ hst
  decide

theorem oneStep_reachable :
    Run.Reachable (step twoRows .asListed .raise constant) Allowed (init oneGroup, ()) oneStep :=
  .of_exec [.execute_model onePrompt] .start (Option.some_get _).symm

theorem oneStep_histories :
    HistoryKept oneStep.1 ∧ InputsFollow twoRows .raise constant onePrompt oneStep := by
  obtain ⟨hkept, hfollow⟩ := histories_kept oneStep_reachable
  exact ⟨hkept, hfollow onePrompt rfl (show _ ≤ _ by decide)⟩

end Example

end Runner

end TTXla.VllmTT
