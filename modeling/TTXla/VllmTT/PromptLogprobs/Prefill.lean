import TTXla.VllmTT.PromptLogprobs.Assembly

-- The tensors of one request over its prefill.
namespace TTXla.VllmTT.PromptRunner

variable {T : Type} [BlockTable T] {κ H LP P : Type}

-- A step as a request sees it: the tokens that it is given with their hidden states, and what is
-- returned for it.
structure PrefillStep (H P : Type) where
  chunk : Option (Nat × List H)
  returned : Option (LogprobsTensors P)

section Trace

-- The steps of a request, the last one first.
variable {trace earlier : List (PrefillStep H P)}

def computed : List (PrefillStep H P) → Nat
  | [] => 0
  | s :: earlier => computed earlier + s.chunk.elim 0 Prod.fst

-- The hidden state at a position of the prompt.
def hidden_at : List (PrefillStep H P) → Nat → Option H
  | [], _ => none
  | s :: earlier, p =>
      match s.chunk with
      | none => hidden_at earlier p
      | some (_, hs) =>
          if computed earlier ≤ p then hs[p - computed earlier]? else hidden_at earlier p

-- How many positions were computed before the request was last left out of a step.
def lost : List (PrefillStep H P) → Nat
  | [] => 0
  | s :: earlier =>
      match s.chunk with
      | none => computed earlier
      | some _ => lost earlier

theorem lost_le_computed (trace : List (PrefillStep H P)) : lost trace ≤ computed trace := by
  induction trace with
  | nil => exact Nat.le_refl _
  | cons s earlier ih =>
      have hle : computed earlier ≤ computed (s :: earlier) := Nat.le_add_right _ _
      unfold lost
      split
      · exact hle
      · exact ih.trans hle

theorem computed_le_of_suffix (h : earlier <:+ trace) : computed earlier ≤ computed trace := by
  induction trace with
  | nil =>
      rw [List.suffix_nil.mp h]
  | cons s trace ih =>
      rcases List.suffix_cons_iff.mp h with rfl | h
      · exact Nat.le_refl _
      · exact (ih h).trans (Nat.le_add_right _ _)

-- The step computes the last position of the prompt.
def Completes (len : Nat) (s : PrefillStep H P) (earlier : List (PrefillStep H P)) : Prop :=
  computed earlier < len ∧ len ≤ computed (s :: earlier)

-- Once a part of the prompt is computed, the request is in every step.
def Uninterrupted (trace : List (PrefillStep H P)) : Prop :=
  ∀ s earlier, s :: earlier <:+ trace → s.chunk = none → computed earlier = 0

theorem lost_eq_zero_iff : lost trace = 0 ↔ Uninterrupted trace := by
  induction trace with
  | nil =>
      refine ⟨fun _ s earlier h => ?_, fun _ => rfl⟩
      cases List.suffix_nil.mp h
  | cons s trace ih =>
      unfold lost
      cases hs : s.chunk with
      | none =>
          constructor
          · intro hzero s' earlier h hnone
            rcases List.suffix_cons_iff.mp h with h | h
            · cases h
              exact hzero
            · have hle := computed_le_of_suffix ((List.suffix_cons s' earlier).trans h)
              dsimp only at hzero
              omega
          · intro h
            exact h s trace (List.suffix_refl _) hs
      | some chunk =>
          dsimp only
          rw [ih]
          constructor
          · intro hsafe s' earlier h hnone
            rcases List.suffix_cons_iff.mp h with h | h
            · cases h
              rw [hs] at hnone
              cases hnone
            · exact hsafe s' earlier h hnone
          · intro h s' earlier hsuffix
            exact h s' earlier (hsuffix.trans (List.suffix_cons s trace))

variable (g : PromptGraphs H P) (prompt : List Token) (num_columns : Nat)

-- The value of position `p`: the gather of its log-probabilities for the token after it.
def HasValue (trace : List (PrefillStep H P)) (t : LogprobsTensors P) (p : Nat) : Prop :=
  ∃ h token, hidden_at trace p = some h ∧ prompt[p + 1]? = some token ∧
    t.written p = [(g.gather h token).trim num_columns]

-- The tensors are returned in the step that completes the prompt, and each of their rows was
-- written once.
structure AssembledOnce (trace : List (PrefillStep H P)) : Prop where
  returned : ∀ s earlier, s :: earlier <:+ trace →
    (s.returned.isSome ↔ Completes prompt.length s earlier)
  written : ∀ s earlier t, s :: earlier <:+ trace → s.returned = some t →
    ∀ p, p + 1 < prompt.length → HasValue g prompt num_columns (s :: earlier) t p

-- The tensors in progress have the positions that were computed since the request was last left
-- out.
def Holds (trace : List (PrefillStep H P)) (held : Option (LogprobsTensors P)) : Prop :=
  ∀ p, p + 1 < prompt.length →
    (lost trace ≤ p → p < computed trace → ∃ t, held = some t ∧
      HasValue g prompt num_columns trace t p) ∧
    (p < lost trace ∨ computed trace ≤ p → LogprobsTensors.writtenOf held p = [])

-- What a step returns, whatever the steps before it were.
structure Returns (s : PrefillStep H P) (earlier : List (PrefillStep H P)) : Prop where
  isSome : s.returned.isSome ↔ Completes prompt.length s earlier
  holds : ∀ t, s.returned = some t → Holds g prompt num_columns (s :: earlier) (some t)

variable {g prompt num_columns} {s : PrefillStep H P} {held : Option (LogprobsTensors P)}

theorem holds_paused (hnone : s.chunk = none) :
    Holds g prompt num_columns (s :: earlier) none := by
  have hlost : lost (s :: earlier) = computed earlier := by simp only [lost, hnone]
  have hcomputed : computed (s :: earlier) = computed earlier := by simp only [computed, hnone,
    Option.elim_none, Nat.add_zero]
  refine fun p _ => ⟨fun h1 h2 => by omega, fun _ => rfl⟩

-- A step appends the rows of the positions that it computes.
theorem Holds.advance (h : Holds g prompt num_columns earlier held) {n : Nat} {hs : List H}
    {t : LogprobsTensors P} (hchunk : s.chunk = some (n, hs))
    (hnew : ∀ p, computed earlier ≤ p → p < computed earlier + n → p + 1 < prompt.length →
      ∃ h token, hs[p - computed earlier]? = some h ∧ prompt[p + 1]? = some token ∧
        t.written p = LogprobsTensors.writtenOf held p ++ [(g.gather h token).trim num_columns])
    (hother : ∀ p, p < computed earlier ∨ computed earlier + n ≤ p →
      t.written p = LogprobsTensors.writtenOf held p) :
    Holds g prompt num_columns (s :: earlier) (some t) := by
  have hlost : lost (s :: earlier) = lost earlier := by simp only [lost, hchunk]
  have hcomputed : computed (s :: earlier) = computed earlier + n := by
    simp only [computed, hchunk, Option.elim_some]
  have hhidden : ∀ p, hidden_at (s :: earlier) p =
      if computed earlier ≤ p then hs[p - computed earlier]? else hidden_at earlier p := by
    intro p
    simp only [hidden_at, hchunk]
  have hle := lost_le_computed earlier
  intro p hp
  obtain ⟨hfilled, hempty⟩ := h p hp
  refine ⟨fun h1 h2 => ⟨t, rfl, ?_⟩, fun hout => ?_⟩
  · unfold HasValue
    rw [hhidden]
    by_cases hcase : computed earlier ≤ p
    · obtain ⟨h, token, hh, htoken, hwritten⟩ := hnew p hcase (by omega) hp
      refine ⟨h, token, by rw [if_pos hcase]; exact hh, htoken, ?_⟩
      rw [hwritten, hempty (Or.inr hcase), List.nil_append]
    · obtain ⟨t₀, rfl, h, token, hh, htoken, hwritten⟩ := hfilled (by omega) (by omega)
      refine ⟨h, token, by rw [if_neg hcase]; exact hh, htoken, ?_⟩
      rw [hother p (by omega)]
      exact hwritten
  · have hwritten := hother p (by omega)
    have hnone := hempty (by omega)
    rw [hnone] at hwritten
    exact hwritten

-- A lost row was not written again.
theorem assembledOnce_iff (h : ∀ s earlier, s :: earlier <:+ trace →
      Returns g prompt num_columns s earlier) :
    AssembledOnce g prompt num_columns trace ↔ ∀ s earlier, s :: earlier <:+ trace →
      Completes prompt.length s earlier → Uninterrupted earlier := by
  have hlost : ∀ (s : PrefillStep H P) earlier, Completes prompt.length s earlier →
      lost (s :: earlier) = lost earlier := by
    intro s earlier ⟨hlt, hle⟩
    cases hchunk : s.chunk with
    | none =>
        simp only [computed, hchunk, Option.elim_none, Nat.add_zero] at hle
        omega
    | some chunk => simp only [lost, hchunk]
  constructor
  · intro hassembled s earlier hsuffix hdone
    obtain ⟨t, ht⟩ := Option.isSome_iff_exists.mp ((h s earlier hsuffix).isSome.mpr hdone)
    rw [← lost_eq_zero_iff]
    by_contra hpos
    have hlt := hdone.1
    have hle := lost_le_computed earlier
    have hfirst : 0 + 1 < prompt.length := by omega
    obtain ⟨_, _, -, -, hwritten⟩ := hassembled.written s earlier t hsuffix ht 0 hfirst
    have hempty := ((h s earlier hsuffix).holds t ht 0 hfirst).2
      (Or.inl (by rw [hlost s earlier hdone]; omega))
    rw [show t.written 0 = [] from hempty] at hwritten
    cases hwritten
  · intro hsafe
    refine ⟨fun s earlier hsuffix => (h s earlier hsuffix).isSome,
      fun s earlier t hsuffix ht p hp => ?_⟩
    have hdone := (h s earlier hsuffix).isSome.mp (by rw [ht]; rfl)
    have hzero := lost_eq_zero_iff.mpr (hsafe s earlier hsuffix hdone)
    have hend := hdone.2
    obtain ⟨t', ht', hvalue⟩ := ((h s earlier hsuffix).holds t ht p hp).1
      (by rw [hlost s earlier hdone]; omega) (by omega)
    cases ht'
    exact hvalue

end Trace

section Prefill

variable {cfg : RunnerConfig} {sets : SetOrder} {mode : OutOfRange} {model : Model κ H LP}
  {g : PromptGraphs H P} {memory : InputBatch T} {k₀ : κ} {d : NewRequestData}

-- The steps of a request from its arrival on. Until its prompt is computed, every step with it
-- begins where the one before ended.
inductive Prefill (cfg : RunnerConfig) (sets : SetOrder) (mode : OutOfRange)
    (model : Model κ H LP) (g : PromptGraphs H P) (memory : InputBatch T) (k₀ : κ)
    (d : NewRequestData) : List (PrefillStep H P) → PromptRunner T P × κ → Prop
  | arrive {s s' : PromptRunner T P × κ} {op : SchedulerOutput × Option GrammarOutput}
      {dict : Dict ReqId (LogprobsTensors P)}
      (h : Run.Reachable (step cfg sets mode model g) Promised (init memory, k₀) s)
      (hop : Promised s op) (hnew : d ∈ op.1.scheduled_new_reqs)
      (hstep : iteration cfg sets mode model g s op = some (dict, s')) :
      Prefill cfg sets mode model g memory k₀ d
        [⟨chunk_of cfg sets mode model s op d.req_id, dict.lookup d.req_id⟩] s'
  | next {trace : List (PrefillStep H P)} {s s' : PromptRunner T P × κ}
      {op : SchedulerOutput × Option GrammarOutput} {dict : Dict ReqId (LogprobsTensors P)}
      (h : Prefill cfg sets mode model g memory k₀ d trace s) (hop : Promised s op)
      (hfinished : d.req_id ∉ op.1.finished_req_ids) (hnew : d.req_id ∉ op.1.new_ids)
      (hcontinues : computed trace < d.prompt_token_ids.length →
        ∀ c ∈ op.1.scheduled_cached_reqs, c.req_id = d.req_id →
          c.num_computed_tokens = computed trace)
      (hstep : iteration cfg sets mode model g s op = some (dict, s')) :
      Prefill cfg sets mode model g memory k₀ d
        (⟨chunk_of cfg sets mode model s op d.req_id, dict.lookup d.req_id⟩ :: trace) s'

theorem Prefill.reachable {trace : List (PrefillStep H P)} {s : PromptRunner T P × κ}
    (h : Prefill cfg sets mode model g memory k₀ d trace s) :
    Run.Reachable (step cfg sets mode model g) Promised (init memory, k₀) s := by
  induction h with
  | arrive h hop hnew hstep => exact h.next hop (Option.map_eq_some_iff.mpr ⟨_, hstep, rfl⟩)
  | next h hop _ _ _ hstep ih => exact ih.next hop (Option.map_eq_some_iff.mpr ⟨_, hstep, rfl⟩)

-- `num_prompt_logprobs + 1`, clamped to what is gathered.
def columns (cfg : RunnerConfig) (g : PromptGraphs H P) (n : Int) : Nat :=
  (min (Runner.requested cfg n) g.max_logprobs + 1).toNat

-- What the runner keeps for a request, until its prompt is computed and after that.
structure Keeps (cfg : RunnerConfig) (g : PromptGraphs H P) (id : ReqId) (prompt : List Token)
    (n : Int) (trace : List (PrefillStep H P)) (s : PromptRunner T P) : Prop where
  request : computed trace < prompt.length →
    ∃ st, s.runner.requests.lookup id = some st ∧ st.prompt_token_ids = prompt
  asked : computed trace < prompt.length →
    s.runner.num_prompt_logprobs.lookup id = some (Runner.requested cfg n)
  held : computed trace < prompt.length →
    Holds g prompt (columns cfg g n) trace (s.in_progress.lookup id)
  done : prompt.length ≤ computed trace → s.runner.num_prompt_logprobs.lookup id = none

-- A step before the prompt is computed.
theorem Iterated.advance {s s' : PromptRunner T P × κ}
    {op : SchedulerOutput × Option GrammarOutput} {dict : Dict ReqId (LogprobsTensors P)}
    {up : Runner T} (h : Iterated cfg sets mode model g s op dict s' up) {id : ReqId}
    {prompt : List Token} {n : Int} {earlier : List (PrefillStep H P)} {st : CachedRequestState}
    (hlt : computed earlier < prompt.length) (hst : up.requests.lookup id = some st)
    (hprompt : st.prompt_token_ids = prompt)
    (hstart : id ∈ op.1.num_scheduled_tokens → st.num_computed_tokens = computed earlier)
    (hasked : up.num_prompt_logprobs.lookup id = some (Runner.requested cfg n))
    (hheld : Holds g prompt (columns cfg g n) earlier
      (if id ∈ op.1.finished_req_ids then none else s.1.in_progress.lookup id)) :
    Keeps cfg g id prompt n
        (⟨chunk_of cfg sets mode model s op id, dict.lookup id⟩ :: earlier) s'.1 ∧
      Returns g prompt (columns cfg g n)
        ⟨chunk_of cfg sets mode model s op id, dict.lookup id⟩ earlier := by
  have hrequest : ∃ st, s'.1.runner.requests.lookup id = some st ∧ st.prompt_token_ids = prompt :=
    ⟨st, by rw [h.requests]; exact hst, hprompt⟩
  cases hn : op.1.num_scheduled_tokens.lookup id with
  | none =>
      obtain ⟨hchunk, hdict, hprogress, hplp⟩ := h.paused id hn
      rw [hchunk, hdict]
      have hcomputed : computed ((⟨none, none⟩ : PrefillStep H P) :: earlier) = computed earlier :=
        Nat.add_zero _
      refine ⟨⟨fun _ => hrequest, fun _ => hplp.trans hasked, fun _ => ?_, fun hle => ?_⟩,
        ⟨⟨(fun hsome => by cases hsome), fun hdone => ?_⟩, fun t ht => by cases ht⟩⟩
      · rw [hprogress]
        exact holds_paused rfl
      · omega
      · have := hdone.2
        omega
  | some num_tokens =>
      obtain ⟨hs, hchunk, hlogprobs⟩ := h.scheduled id num_tokens hn
      obtain ⟨request, t, completed, hreq, ht, hdict, hprogress, hplp⟩ := hlogprobs _ hasked
      obtain rfl := Option.some.inj (hst.symm.trans hreq)
      have hstart' := hstart ((Dict.mem_iff _ _).mpr ⟨num_tokens, hn⟩)
      rw [hprompt, hstart'] at ht
      have hreqs : 0 < cfg.max_num_reqs := lt_max_of_lt_right Nat.one_pos
      obtain ⟨hcompleted, hnew, hother⟩ := g.request_logprobs_spec hreqs hlt ht
      obtain ⟨step, hstep⟩ : ∃ step, step =
        (⟨chunk_of cfg sets mode model s op id, dict.lookup id⟩ : PrefillStep H P) := ⟨_, rfl⟩
      have hreturned : step.returned = dict.lookup id := by rw [hstep]
      rw [hchunk] at hstep
      have hholds : Holds g prompt (columns cfg g n) (step :: earlier) (some t) :=
        hheld.advance (by rw [hstep]) hnew hother
      have hcomputed : computed (step :: earlier) = computed earlier + num_tokens := by
        rw [hstep]
        rfl
      rw [hchunk, ← hstep]
      refine ⟨⟨fun _ => hrequest, fun hmore => ?_, fun hmore => ?_, fun hend => ?_⟩,
        ⟨⟨fun hsome => ?_, fun hdone => ?_⟩, fun t' ht' => ?_⟩⟩
      · rw [hplp, if_neg (by rw [hcompleted]; omega)]
      · rw [hprogress, if_neg (by rw [hcompleted]; omega)]
        exact hholds
      · rw [hplp, if_pos (hcompleted.mpr (by omega))]
      · rw [hreturned, hdict] at hsome
        split at hsome
        · rename_i hdone
          exact ⟨hlt, by rw [hcompleted] at hdone; omega⟩
        · cases hsome
      · have hend := hdone.2
        rw [hreturned, hdict, if_pos (hcompleted.mpr (by omega))]
        rfl
      · rw [hreturned, hdict] at ht'
        split at ht'
        · cases ht'
          exact hholds
        · cases ht'

variable {sp : SamplingParams} {n : Int} {trace : List (PrefillStep H P)}
  {s : PromptRunner T P × κ}

-- A request arrives: no tensors are in progress under its id.
theorem keeps_arrive {s s' : PromptRunner T P × κ} {op : SchedulerOutput × Option GrammarOutput}
    {dict : Dict ReqId (LogprobsTensors P)} (hs : Sound cfg s.1) (hop : Promised s op)
    (hnew : d ∈ op.1.scheduled_new_reqs)
    (hstep : iteration cfg sets mode model g s op = some (dict, s'))
    (hsp : d.sampling_params = some sp) (hn : sp.prompt_logprobs = some n)
    (hzero : d.num_computed_tokens = 0) :
    Keeps cfg g d.req_id d.prompt_token_ids n
        [⟨chunk_of cfg sets mode model s op d.req_id, dict.lookup d.req_id⟩] s'.1 ∧
      Returns g d.prompt_token_ids (columns cfg g n)
        ⟨chunk_of cfg sets mode model s op d.req_id, dict.lookup d.req_id⟩ [] := by
  obtain ⟨up, hit⟩ := iteration_spec hs hop hstep
  have hupdated := Runner.update_states_spec cfg sets hs.tracked.toConsistent hop.toFits hit.update
  have hasked := (Runner.update_states_prompt_logprobs hs.tracked.toConsistent hop.toFits
    hit.update).2 d hnew sp n hsp hn
  obtain ⟨st, hst, ⟨ref, sp', -, rfl, -⟩, -⟩ := hupdated.new d hnew
  have hid : d.req_id ∈ op.1.new_ids := List.mem_map_of_mem hnew
  have hnone : (if d.req_id ∈ op.1.finished_req_ids then none
      else s.1.in_progress.lookup d.req_id) = none := by
    split
    · rfl
    · rename_i hfinished
      have hfresh := (hop.fresh d.req_id hid).resolve_left hfinished
      exact AList.lookup_eq_none.mpr fun hmem => hfresh (hs.held _ hmem)
  have hscheduled : d.req_id ∈ op.1.num_scheduled_tokens := by
    rw [AList.mem_keys, ← hop.scheduled.mem_iff]
    exact List.mem_append_left _ hid
  have hpos : 0 < d.prompt_token_ids.length := by
    obtain ⟨num_tokens, hnum⟩ := (Dict.mem_iff _ _).mp hscheduled
    obtain ⟨hs, -, hlogprobs⟩ := hit.scheduled d.req_id num_tokens hnum
    obtain ⟨request, t, completed, hreq, ht, -⟩ := hlogprobs _ hasked
    obtain rfl := Option.some.inj (hst.symm.trans hreq)
    rw [hnone] at ht
    exact g.request_logprobs_empty ht
  refine hit.advance hpos hst rfl (fun _ => hzero) hasked ?_
  rw [hnone]
  exact fun p _ => ⟨fun _ hlt => absurd hlt (Nat.not_lt_zero p), fun _ => rfl⟩

theorem keeps_next {s s' : PromptRunner T P × κ} {op : SchedulerOutput × Option GrammarOutput}
    {dict : Dict ReqId (LogprobsTensors P)} (hs : Sound cfg s.1) (hop : Promised s op)
    {id : ReqId} {prompt : List Token}
    (hkeeps : Keeps cfg g id prompt n trace s.1)
    (hfinished : id ∉ op.1.finished_req_ids) (hnew : id ∉ op.1.new_ids)
    (hcontinues : computed trace < prompt.length → ∀ c ∈ op.1.scheduled_cached_reqs,
      c.req_id = id → c.num_computed_tokens = computed trace)
    (hstep : iteration cfg sets mode model g s op = some (dict, s')) :
    Keeps cfg g id prompt n
        (⟨chunk_of cfg sets mode model s op id, dict.lookup id⟩ :: trace) s'.1 ∧
      Returns g prompt (columns cfg g n)
        ⟨chunk_of cfg sets mode model s op id, dict.lookup id⟩ trace := by
  obtain ⟨up, hit⟩ := iteration_spec hs hop hstep
  have hupdated := Runner.update_states_spec cfg sets hs.tracked.toConsistent hop.toFits hit.update
  have hplp := (Runner.update_states_prompt_logprobs hs.tracked.toConsistent hop.toFits
    hit.update).1 id hnew
  rw [if_neg hfinished] at hplp
  by_cases hlt : computed trace < prompt.length
  · -- the state of the request, with the tokens that it has computed
    obtain ⟨st₀, hst₀, hprompt₀⟩ := hkeeps.request hlt
    have hstate : ∃ st, up.requests.lookup id = some st ∧ st.prompt_token_ids = prompt ∧
        (id ∈ op.1.num_scheduled_tokens → st.num_computed_tokens = computed trace) := by
      by_cases hscheduled : id ∈ op.1.num_scheduled_tokens
      · have hmem := hscheduled
        rw [AList.mem_keys, ← hop.scheduled.mem_iff, List.mem_append] at hmem
        obtain ⟨c, hc, rfl⟩ := List.mem_map.mp (hmem.resolve_left hnew)
        obtain ⟨st, st', hst, hcached, hst'⟩ := hupdated.cached c hc
        obtain rfl := Option.some.inj (hst₀.symm.trans hst)
        obtain ⟨-, hprompt, -, -, -, hcount⟩ := Runner.cached_state_same hcached
        exact ⟨st', hst', hprompt.trans hprompt₀,
          fun _ => hcount.trans (hcontinues hlt c hc rfl)⟩
      · refine ⟨st₀, ?_, hprompt₀, fun h => absurd h hscheduled⟩
        rw [hupdated.other id hscheduled, if_neg hfinished]
        exact hst₀
    obtain ⟨st, hst, hprompt, hstart⟩ := hstate
    refine hit.advance hlt hst hprompt hstart (hplp.trans (hkeeps.asked hlt)) ?_
    rw [if_neg hfinished]
    exact hkeeps.held hlt
  · obtain ⟨hdict, hplp'⟩ := hit.silent id (hplp.trans (hkeeps.done (Nat.le_of_not_lt hlt)))
    have hle : computed trace ≤ computed
        (⟨chunk_of cfg sets mode model s op id, dict.lookup id⟩ :: trace) := Nat.le_add_right _ _
    refine ⟨⟨fun h => by omega, fun h => by omega, fun h => by omega, fun _ => hplp'⟩, ?_⟩
    rw [hdict]
    exact ⟨⟨(fun h => by cases h), fun h => absurd h.1 hlt⟩, fun t ht => by cases ht⟩

theorem Prefill.keeps (h : Prefill cfg sets mode model g memory k₀ d trace s)
    (hsp : d.sampling_params = some sp) (hn : sp.prompt_logprobs = some n)
    (hzero : d.num_computed_tokens = 0) :
    Keeps cfg g d.req_id d.prompt_token_ids n trace s.1 ∧
      ∀ st earlier, st :: earlier <:+ trace →
        Returns g d.prompt_token_ids (columns cfg g n) st earlier := by
  induction h with
  | arrive h hop hnew hstep =>
      obtain ⟨hkeeps, hreturns⟩ := keeps_arrive (sound_reachable h) hop hnew hstep hsp hn hzero
      refine ⟨hkeeps, fun st earlier hsuffix => ?_⟩
      rcases List.suffix_cons_iff.mp hsuffix with hlast | hbefore
      · cases hlast
        exact hreturns
      · cases List.suffix_nil.mp hbefore
  | next h hop hfinished hnew hcontinues hstep ih =>
      obtain ⟨hkeeps', hreturns⟩ := keeps_next (sound_reachable h.reachable) hop ih.1 hfinished
        hnew hcontinues hstep
      refine ⟨hkeeps', fun st earlier hsuffix => ?_⟩
      rcases List.suffix_cons_iff.mp hsuffix with hlast | hbefore
      · cases hlast
        exact hreturns
      · exact ih.2 st earlier hbefore

end Prefill

section Example

open Runner (twoRows oneGroup newReq prefill greedy constant)

-- A prompt of four tokens that asks for one logprob at each position.
def logprobsReq : NewRequestData :=
  { newReq "A" [7, 8, 9, 10] [1] with
    sampling_params := some { greedy with prompt_logprobs := some 1 } }

-- Its first three tokens take two batches of the gather.
def threeTokens : SchedulerOutput :=
  { prefill [logprobsReq] [] with
    num_scheduled_tokens := (∅ : Dict ReqId Nat).insert "A" 3
    total_num_scheduled_tokens := 3 }

def lastToken : SchedulerOutput :=
  { prefill [] [] with
    scheduled_cached_reqs := [⟨"A", none, 3⟩]
    num_scheduled_tokens := (∅ : Dict ReqId Nat).insert "A" 1
    total_num_scheduled_tokens := 1 }

def otherRequest : SchedulerOutput := prefill [newReq "B" [4] [2]] []

def tokenGraphs : PromptGraphs Unit Unit where
  zero := ()
  max_logprobs := 2
  gather := fun _ token => ⟨[token, 0, 1], [(), (), ()], 1⟩

def started : PromptRunner DenseTable Unit × Unit := (init oneGroup, ())

abbrev iterate (s : PromptRunner DenseTable Unit × Unit) (so : SchedulerOutput) :
    Option (Dict ReqId (LogprobsTensors Unit) × PromptRunner DenseTable Unit × Unit) :=
  iteration twoRows .asListed .raise constant tokenGraphs s (so, none)

abbrev PrefillA : List (PrefillStep Unit Unit) → PromptRunner DenseTable Unit × Unit → Prop :=
  Prefill twoRows .asListed .raise constant tokenGraphs oneGroup () logprobsReq

abbrev chunkA (s : PromptRunner DenseTable Unit × Unit) (so : SchedulerOutput) :
    Option (Nat × List Unit) :=
  chunk_of twoRows .asListed .raise constant s (so, none) "A"

def first := (iterate started threeTokens).get (by decide +kernel)

theorem first_eq : iterate started threeTokens = some (first.1, first.2) := by
  rw [Prod.mk.eta, first, Option.some_get]

def second := (iterate first.2 lastToken).get (by decide +kernel)

theorem second_eq : iterate first.2 lastToken = some (second.1, second.2) := by
  rw [Prod.mk.eta, second, Option.some_get]

def firstTrace : List (PrefillStep Unit Unit) :=
  [⟨chunkA started threeTokens, first.1.lookup "A"⟩]

def secondTrace : List (PrefillStep Unit Unit) :=
  ⟨chunkA first.2 lastToken, second.1.lookup "A"⟩ :: firstTrace

theorem firstTrace_prefill : PrefillA firstTrace first.2 :=
  .arrive .start (by decide) List.mem_cons_self first_eq

theorem secondTrace_prefill : PrefillA secondTrace second.2 :=
  firstTrace_prefill.next (by decide) (by decide) (by decide)
    (fun _ c hc _ => by rw [List.mem_singleton.mp hc]; decide +kernel)
    second_eq

-- The same with a step for another request in between.
def paused := (iterate first.2 otherRequest).get (by decide +kernel)

theorem paused_eq : iterate first.2 otherRequest = some (paused.1, paused.2) := by
  rw [Prod.mk.eta, paused, Option.some_get]

def resumed := (iterate paused.2 lastToken).get (by decide +kernel)

theorem resumed_eq : iterate paused.2 lastToken = some (resumed.1, resumed.2) := by
  rw [Prod.mk.eta, resumed, Option.some_get]

def pausedTrace : List (PrefillStep Unit Unit) :=
  ⟨chunkA first.2 otherRequest, paused.1.lookup "A"⟩ :: firstTrace

def resumedTrace : List (PrefillStep Unit Unit) :=
  ⟨chunkA paused.2 lastToken, resumed.1.lookup "A"⟩ :: pausedTrace

theorem resumedTrace_prefill : PrefillA resumedTrace resumed.2 := by
  have hpaused : PrefillA pausedTrace paused.2 :=
    firstTrace_prefill.next (by decide) (by decide) (by decide) (fun _ c hc => by cases hc)
      paused_eq
  exact hpaused.next (by decide +kernel) (by decide) (by decide)
    (fun _ c hc _ => by rw [List.mem_singleton.mp hc]; decide +kernel) resumed_eq

end Example

end TTXla.VllmTT.PromptRunner
