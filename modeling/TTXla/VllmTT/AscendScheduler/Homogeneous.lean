import TTXla.VllmTT.AscendScheduler.Engine

-- The steps of a synchronous engine without speculative decoding.
namespace TTXla.VllmTT.AscendScheduler

open Excepts (ensure bind_eq_ok bind_eq_error ensure_eq_ok ensure_eq_error get_eq_ok get_eq_error)

variable {K LP : Type} {cfg : Config} {base : Base K LP} {s s' : Scheduler K} {out : Output}

-- The assertions of the decode loop and of the final checks, and an empty `running` to pop from.
def SchedulerError.is_inconsistency : SchedulerError → Bool
  | .decode_tokens | .preemption | .total_tokens | .token_budget | .running_reqs
  | .scheduled_reqs => true
  | _ => false

-- Every scheduled request comes from the waiting queue, and gets the tokens that it lacks.
def PurePrefill (s s' : Scheduler K) (out : Output) : Prop :=
  ∀ id n, out.num_scheduled_tokens.lookup id = some n → id ∉ s.running ∧ 0 < n ∧
    ((s'.objs id).num_computed_tokens = (s.objs id).num_tokens) ∧
    ∀ d ∈ out.scheduled_new_reqs, d.req_id = id →
      (d.num_computed_tokens : Int) + n = (s.objs id).num_tokens

-- Every scheduled request was running, and gets one token.
def PureDecode (s : Scheduler K) (out : Output) : Prop :=
  ∀ id n, out.num_scheduled_tokens.lookup id = some n → id ∈ s.running ∧ n = 1

structure Homogeneous (cfg : Config) (s s' : Scheduler K) (out : Output) : Prop where
  kind : PurePrefill s s' out ∨ PureDecode s out
  nodup : out.req_ids.Nodup
  req_ids : ∀ id, id ∈ out.req_ids ↔ id ∈ out.num_scheduled_tokens
  total : out.total_num_scheduled_tokens =
    (out.num_scheduled_tokens.entries.map Sigma.snd).sum
  budget : out.total_num_scheduled_tokens ≤ cfg.max_num_scheduled_tokens
  room : s'.running.length ≤ cfg.max_num_running_reqs
  -- no scheduled request is preempted
  kept : ∀ id ∈ out.num_scheduled_tokens, id ∈ s'.running ∧ id ∉ s'.waiting ∧
    (s'.objs id).status = .RUNNING

-- A running request that lacks one token, and may get it.
def Caught (cfg : Config) (r : Request) : Prop :=
  r.num_tokens = r.num_computed_tokens + 1 ∧ r.num_tokens < cfg.max_model_len ∧
    r.spec_token_ids = []

section Errors

theorem judge_error {kv : K} {loras : Finset Nat} {budget : Int} {id : ReqId} {r : Request}
    {err : SchedulerError} (h : judge cfg base kv loras budget id r = .error err) :
    err.is_inconsistency = false := by
  unfold judge at h
  split at h
  split at h
  · cases h
  split at h
  · cases h
  rcases bind_eq_error.mp h with h | ⟨c, -, h⟩
  · unfold computed_tokens at h
    split at h
    · dsimp only at h
      split at h
      · cases h
      · rcases bind_eq_error.mp h with h | ⟨_, -, h⟩
        · rw [← (get_eq_error.mp h).2]
          rfl
        · cases h
    · cases h
  split at h
  · rcases bind_eq_error.mp h with h | ⟨_, -, h⟩
    · rw [← (ensure_eq_error.mp h).2]
      rfl
    · cases h
  rcases bind_eq_error.mp h with h | ⟨limit, -, h⟩
  · unfold get_prompt_limit at h
    dsimp only at h
    split at h
    · cases h
    · cases h
    · rcases bind_eq_error.mp h with h | ⟨_, -, h⟩
      · rw [← (ensure_eq_error.mp h).2]
        rfl
      · cases h
  dsimp only at h
  split at h
  · cases h
  split at h
  · cases h
  rcases bind_eq_error.mp h with h | ⟨_, -, h⟩
  · rw [← (ensure_eq_error.mp h).2]
    rfl
  rcases bind_eq_error.mp h with h | ⟨_, -, h⟩
  · rw [← (get_eq_error.mp h).2]
    rfl
  · cases h

theorem prefill_loop_error {w : List ReqId} {p : Pass K} {err : SchedulerError}
    (h : prefill_loop cfg base w p = .error err) : err.is_inconsistency = false := by
  induction w generalizing p with
  | nil => cases h
  | cons id w ih =>
      unfold prefill_loop at h
      split at h
      · rcases bind_eq_error.mp h with h | ⟨⟨kv, request, v⟩, -, h⟩
        · exact judge_error h
        · cases v with
          | stop => cases h
          | skip | ignore | load => exact ih h
          | enter c n blocks =>
              rcases bind_eq_error.mp h with h | ⟨p₁, -, h⟩
              · unfold Pass.enter at h
                dsimp only at h
                split at h
                · cases h
                · cases h
                · cases h
                  rfl
              · exact ih h
      · cases h

-- The decode loop raises nothing when every running request lacks one token.
theorem decode_loop_ne_error {fuel i : Nat} {p : Pass K} {err : SchedulerError}
    (h : Decoding cfg s i p) (hcaught : ∀ id ∈ s.running, Caught cfg (s.objs id)) :
    decode_loop cfg base fuel i p ≠ .error err := by
  induction fuel generalizing i p with
  | zero => nofun
  | succ fuel ih =>
      intro he
      unfold decode_loop at he
      split at he
      · cases he
      rename_i id hid
      split at he
      · cases he
      split at he
      · exact ih h.next he
      rename_i hbudget hnew
      have hmem := List.mem_of_getElem? hid
      have hnew' : id ∉ p.num_scheduled_tokens := fun hm => hnew ((h.scheduled id).mpr hm)
      obtain ⟨l, hl⟩ := h.running
      have hc := hcaught id (hl ▸ List.mem_append_left _ hmem)
      rcases bind_eq_error.mp he with he | ⟨n, hn, he⟩
      · rcases bind_eq_error.mp he with he | ⟨_, -, he⟩
        · have hone := (ensure_eq_error.mp he).1
          rw [h.num_tokens, h.computed id hmem] at hone
          have := hc.1
          omega
        · cases he
      split at he
      · exact ih h.next he
      rename_i hne
      rcases bind_eq_error.mp he with he | ⟨⟨p₁, r⟩, halloc, he⟩
      · exact Decoding.allocate_or_preempt_ne_error (Nat.le_refl _) hmem he
      obtain ⟨h₁, hbudget₁, hcounts₁, hid₁⟩ := h.allocate hid halloc
      obtain ⟨-, hle, -⟩ := Decoding.decode_tokens_spec hn (by omega)
      cases r with
      | none => cases he
      | some blocks =>
          obtain ⟨-, -, hcount⟩ := Decoding.decode_tokens_spec hn (by omega)
          rw [h.num_tokens, h.unscheduled id hnew'] at hcount
          have h₂ : Decoding cfg s (i + 1) (p₁.record cfg id n blocks) := by
            apply h₁.record (hid₁ blocks rfl) _ hne _ hc.1 (hcount hne)
            · rwa [hcounts₁]
            · rwa [hbudget₁]
          exact ih (h₂.trimSpec ((AList.mem_insert _).mpr (Or.inl rfl)) n) he

end Errors

section Schedule

-- The totals at the end of the loops.
structure Totals (cfg : Config) (p : Pass K) : Prop where
  budget : p.token_budget + (p.num_scheduled_tokens.entries.map Sigma.snd).sum =
    cfg.max_num_scheduled_tokens ∧ 0 ≤ p.token_budget
  room : p.self.running.length ≤ cfg.max_num_running_reqs
  lists : (p.scheduled_new_reqs ++ (p.scheduled_running_reqs ++ p.scheduled_resumed_reqs)).Perm
    p.num_scheduled_tokens.keys
  running : ∀ id ∈ p.num_scheduled_tokens, id ∈ p.self.running

theorem Prefilling.totals {w : List ReqId} {p : Pass K} (h : Prefilling cfg s w p) :
    Totals cfg p := by
  obtain ⟨l, -, hlists, hkeys⟩ := h.running
  refine ⟨h.budget, h.room, ?_, fun id hid => h.mem_running hid⟩
  rw [h.running_reqs, List.nil_append]
  exact hlists.symm.trans hkeys

theorem Decoding.totals {i : Nat} {p : Pass K} (h : Decoding cfg s i p)
    (hroom : s.running.length ≤ cfg.max_num_running_reqs) : Totals cfg p := by
  obtain ⟨l, hl⟩ := h.running
  refine ⟨h.budget, ?_, ?_, fun id hid => ?_⟩
  · rw [hl, List.length_append] at hroom
    omega
  · rw [h.new_reqs, h.resumed_reqs, List.nil_append, List.append_nil]
    exact h.lists
  · obtain ⟨j, -, hj⟩ := h.processed id hid
    exact List.mem_of_getElem? hj

theorem Totals.check_constraints {p : Pass K} (h : Totals cfg p) :
    check_constraints cfg p = .ok () := by
  have hlen : p.num_scheduled_tokens.keys.length ≤ p.self.running.length :=
    (List.subperm_of_subset p.num_scheduled_tokens.keys_nodup fun id hid =>
      h.running id (AList.mem_keys.mpr hid)).length_le
  have hlists := h.lists.length_eq
  simp only [List.length_append] at hlists
  have hbudget := h.budget
  have hroom := h.room
  simp only [AscendScheduler.check_constraints, bind_eq_ok, ensure_eq_ok]
  exact ⟨(), by omega, (), by omega, (), by omega, by omega⟩

theorem run_loops_totals (hc : Consistent s) (hroom : s.running.length ≤ cfg.max_num_running_reqs)
    {p : Pass K} (hp : run_loops cfg base s = .ok p) : Totals cfg p := by
  obtain ⟨-, ⟨w, h⟩ | ⟨i, h⟩⟩ := run_loops_spec hc hroom hp
  · exact h.totals
  · exact h.totals hroom

-- No assertion about the state of the scheduler fails.
theorem schedule_ne_error (hc : Consistent s) (hroom : s.running.length ≤ cfg.max_num_running_reqs)
    (hcaught : ∀ id ∈ s.running, Caught cfg (s.objs id)) {err : SchedulerError}
    (h : schedule cfg base s = .error err) : err.is_inconsistency = false := by
  rcases bind_eq_error.mp h with h | ⟨p, hp, h⟩
  · rcases bind_eq_error.mp h with h | ⟨p₀, hp₀, h⟩
    · exact prefill_loop_error h
    · obtain ⟨w, hw, hc'⟩ := prefill_loop_spec hc hroom hp₀
      dsimp only at h
      split at h
      · rename_i hidle
        exact absurd h (decode_loop_ne_error (decoding_start hw hc' hidle.1) hcaught)
      · cases h
  have htotals := run_loops_totals hc hroom hp
  rcases bind_eq_error.mp h with h | ⟨_, -, h⟩
  · rw [htotals.check_constraints] at h
    cases h
  rcases bind_eq_error.mp h with h | ⟨out, -, h⟩
  · rcases bind_eq_error.mp h with h | ⟨_, -, h⟩
    · have hkey : ∀ l : List ReqId, l.mapM p.new_request_data = .error err → err = .key := by
        intro l hl
        induction l with
        | nil => cases hl
        | cons id l ih =>
            rw [List.mapM_cons] at hl
            rcases bind_eq_error.mp hl with hl | ⟨_, -, hl⟩
            · rcases bind_eq_error.mp hl with hl | ⟨_, -, hl⟩
              · exact (get_eq_error.mp hl).2.symm
              · cases hl
            · rcases bind_eq_error.mp hl with hl | ⟨_, -, hl⟩
              · exact ih hl
              · cases hl
      rw [hkey _ h]
      rfl
    · cases h
  rcases bind_eq_error.mp h with h | ⟨_, -, h⟩
  · rcases bind_eq_error.mp h with h | ⟨_, -, h⟩
    · rw [← (ensure_eq_error.mp h).2]
      rfl
    · cases h
  · cases h

theorem schedule_homogeneous (hl : base.Lawful cfg) (hc : Consistent s)
    (hroom : s.running.length ≤ cfg.max_num_running_reqs)
    (hcaught : ∀ id ∈ s.running, Caught cfg (s.objs id))
    (h : schedule cfg base s = .ok (out, s')) : Homogeneous cfg s s' out := by
  obtain ⟨hc', hroom'⟩ := schedule_consistent hc hroom h
  obtain ⟨p, hs⟩ := schedule_spec h
  have htotals := run_loops_totals hc hroom hs.loops
  -- the requests of the output are those with a count
  have hids : out.req_ids.Perm p.num_scheduled_tokens.keys := by
    have hout := hs.output
    obtain ⟨new_reqs_data, hnew, hout⟩ := bind_eq_ok.mp hout
    cases hout
    unfold Output.req_ids
    dsimp only
    rw [Excepts.map_of_mapM (fun id d hd => (new_request_data_spec hd).1) hnew,
      hl.cached_req_ids, List.map_append, List.map_map, List.map_map]
    have hid : ∀ l : List ReqId, l.map (Prod.fst ∘ fun id => (id, p.self.objs id)) = l :=
      fun l => List.map_id _
    rw [hid, hid]
    exact htotals.lists
  have hrunning : ∀ id ∈ out.num_scheduled_tokens, id ∈ s'.running := by
    intro id hid
    rw [hs.counts] at hid
    rw [hs.running]
    exact htotals.running id hid
  refine ⟨?_, hids.nodup_iff.mpr p.num_scheduled_tokens.keys_nodup, fun id => ?_, hs.total, ?_,
    hroom', fun id hid => ⟨hrunning id hid, fun hw => ?_, hc'.running_status id (hrunning id hid)⟩⟩
  · obtain ⟨-, ⟨w, hp⟩ | ⟨i, hd⟩⟩ := run_loops_spec hc hroom hs.loops
    · left
      intro id n hn
      rw [hs.counts] at hn
      obtain ⟨hpos, hall⟩ := hp.counts id n hn
      have hkey : id ∈ p.num_scheduled_tokens := (Dict.mem_iff _ _).mpr ⟨n, hn⟩
      have hnum := (hp.tokens id).num_tokens
      refine ⟨fun hr => ?_, hpos, ?_, fun d hd hid => ?_⟩
      · obtain ⟨l, hrun, -, hkeys⟩ := hp.running
        have hnodup := (List.nodup_append.mp hp.queued.nodup).2.1
        rw [hrun] at hnodup
        exact (List.nodup_append.mp hnodup).2.2 id hr id
          (hkeys.mem_iff.mpr (AList.mem_keys.mp hkey)) rfl
      · rw [hs.computed, hn]
        exact (congrArg Int.toNat hall).trans ((Int.toNat_natCast _).trans hnum)
      · have hout := hs.output
        obtain ⟨new_reqs_data, hnew, hout⟩ := bind_eq_ok.mp hout
        cases hout
        obtain ⟨id', -, hdata⟩ := Excepts.exists_of_mapM hnew hd
        obtain ⟨hid', hcomputed⟩ := new_request_data_spec hdata
        obtain rfl : id' = id := hid'.symm.trans hid
        rw [hcomputed, ← hnum]
        exact hall
    · right
      intro id n hn
      rw [hs.counts] at hn
      obtain ⟨l, hrun⟩ := hd.running
      obtain ⟨j, -, hj⟩ := hd.processed id ((Dict.mem_iff _ _).mpr ⟨n, hn⟩)
      have hr : id ∈ s.running := hrun ▸ List.mem_append_left _ (List.mem_of_getElem? hj)
      obtain ⟨-, hlt, hspec⟩ := hcaught id hr
      exact ⟨hr, (hd.counts id n hn).2.2 hspec hlt⟩
  · rw [hids.mem_iff, hs.counts, AList.mem_keys]
  · rw [hs.total, hs.counts]
    have := htotals.budget
    omega
  · exact (List.nodup_append.mp hc'.nodup).2.2 id hw id (hrunning id hid) rfl

-- After a call, the running requests that it scheduled have all their tokens computed, and the
-- others lack one token as before.
theorem schedule_caught (hc : Consistent s) (hroom : s.running.length ≤ cfg.max_num_running_reqs)
    (hcaught : ∀ id ∈ s.running, Caught cfg (s.objs id))
    (hspec : ∀ id ∈ s.requests, (s.objs id).spec_token_ids = [])
    (h : schedule cfg base s = .ok (out, s')) :
    s'.requests = s.requests ∧ (∀ id ∈ s'.requests, (s'.objs id).spec_token_ids = []) ∧
    (∀ id ∈ out.num_scheduled_tokens, out.scheduled_spec_decode_tokens.lookup id = none) ∧
    (∀ id ∈ out.num_scheduled_tokens, id ∈ s'.running ∧
      (s'.objs id).num_computed_tokens = (s'.objs id).num_tokens) ∧
    ∀ id ∈ s'.running, id ∉ out.num_scheduled_tokens → Caught cfg (s'.objs id) := by
  obtain ⟨p, hs⟩ := schedule_spec h
  have hcount : ∀ id ∈ out.num_scheduled_tokens,
      ∃ n : Int, p.num_scheduled_tokens.lookup id = some n := fun id hid =>
    (Dict.mem_iff _ _).mp (hs.counts ▸ hid)
  have hlookup : ∀ id ∉ out.num_scheduled_tokens, p.num_scheduled_tokens.lookup id = none :=
    fun id hid => AList.lookup_eq_none.mpr (hs.counts ▸ hid)
  have hcomputed : ∀ id ∉ out.num_scheduled_tokens,
      (s'.objs id).num_computed_tokens = (p.self.objs id).num_computed_tokens := by
    intro id hid
    rw [hs.computed, hlookup id hid]
  have htotals := run_loops_totals hc hroom hs.loops
  have hrunning : ∀ id ∈ out.num_scheduled_tokens, id ∈ s'.running := by
    intro id hid
    rw [hs.running]
    exact htotals.running id (hs.counts ▸ hid)
  obtain ⟨-, ⟨w, hp⟩ | ⟨i, hd⟩⟩ := run_loops_spec hc hroom hs.loops
  · have hrequests : s'.requests = s.requests := hs.requests.trans hp.requests
    refine ⟨hrequests, fun id hid => ?_, fun id _ => ?_, fun id hid => ⟨hrunning id hid, ?_⟩,
      fun id hr hid => ?_⟩
    · rw [(hs.tokens id).spec, (hp.tokens id).spec]
      exact hspec id (hrequests ▸ hid)
    · rw [hs.spec, hp.spec]
      exact AList.lookup_empty id
    · obtain ⟨n, hn⟩ := hcount id hid
      rw [hs.computed, hn, (hs.tokens id).num_tokens]
      exact (congrArg Int.toNat (hp.counts id n hn).2).trans (Int.toNat_natCast _)
    · obtain ⟨l, hl, -, hkeys⟩ := hp.running
      rw [hs.running, hl] at hr
      rcases List.mem_append.mp hr with hr | hr
      · obtain ⟨hone, hlt, hnil⟩ := hcaught id hr
        rw [Caught, hcomputed id hid, (hs.tokens id).num_tokens, (hs.tokens id).spec,
          hp.others id hr]
        exact ⟨hone, hlt, hnil⟩
      · exact absurd (AList.mem_keys.mpr (hkeys.mem_iff.mp hr)) (hs.counts ▸ hid)
  · have hrequests : s'.requests = s.requests := hs.requests.trans hd.requests
    obtain ⟨l, hl⟩ := hd.running
    have hbefore : ∀ id ∈ p.self.running, id ∈ s.running := fun id hid =>
      hl ▸ List.mem_append_left _ hid
    refine ⟨hrequests, fun id hid => ?_, fun id hid => ?_, fun id hid => ⟨hrunning id hid, ?_⟩,
      fun id hr hid => ?_⟩
    · rw [(hs.tokens id).spec]
      exact hd.spec id (hspec id (hrequests ▸ hid))
    · rw [hs.spec]
      have hr := hbefore id (htotals.running id (hs.counts ▸ hid))
      exact hd.no_spec id (hcaught id hr).2.2
    · obtain ⟨n, hn⟩ := hcount id hid
      have hr := htotals.running id (hs.counts ▸ hid)
      obtain ⟨hone, hlt, hnil⟩ := hcaught id (hbefore id hr)
      have hn1 : n = 1 := (hd.counts id n hn).2.2 hnil hlt
      rw [hs.computed, hn, (hs.tokens id).num_tokens, hd.num_tokens, hone]
      simp only [hn1, hd.computed id hr]
      omega
    · rw [hs.running] at hr
      obtain ⟨hone, hlt, hnil⟩ := hcaught id (hbefore id hr)
      have hid' : id ∉ p.num_scheduled_tokens := fun hm => hid (hs.counts ▸ hm)
      rw [Caught, hcomputed id hid, (hs.tokens id).num_tokens, (hs.tokens id).spec,
        hd.computed id hr, hd.num_tokens, hd.unscheduled id hid']
      exact ⟨hone, hlt, hnil⟩

end Schedule

namespace Engine

-- The output was not passed back yet.
def Pending (e : Engine K) (i : Nat) (out : Output) : Prop :=
  e.issued[i]? = some out ∧ i ∉ e.updated

-- A synchronous engine without speculative decoding schedules when every output was passed
-- back, with one token for each request of the output.
def SyncAllowed (e : Engine K) (op : Op K LP) : Prop :=
  Allowed e op ∧ match op with
    | .add_request id request => request.spec_token_ids = [] ∧
        ∀ i ∈ List.range e.issued.length, i ∉ e.updated →
          ∀ out ∈ e.issued[i]?, id ∉ out.num_scheduled_tokens
    | .schedule => ∀ i ∈ List.range e.issued.length, i ∈ e.updated
    | .update_from_output i model_runner_output => ∀ out ∈ e.issued[i]?,
        ∀ id ∈ out.num_scheduled_tokens.keys, (generated model_runner_output id).length = 1
    | _ => True

instance (e : Engine K) : (op : Op K LP) → Decidable (SyncAllowed e op)
  | .add_request _ _ => inferInstanceAs (Decidable (_ ∧ _ ∧ _))
  | .schedule | .update_from_output _ _ | .finish_requests _ _ | .set_forced_mode _
  | .progress _ => inferInstanceAs (Decidable (_ ∧ _))

structure Synced (cfg : Config) (e : Engine K) : Prop where
  sound : Sound cfg e
  spec : ∀ id ∈ e.scheduler.requests, (e.scheduler.objs id).spec_token_ids = []
  last : ∀ i out, e.Pending i out → i + 1 = e.issued.length
  no_spec : ∀ i out, e.Pending i out → ∀ id ∈ out.num_scheduled_tokens,
    out.scheduled_spec_decode_tokens.lookup id = none
  waiting : ∀ i out, e.Pending i out → ∀ id ∈ e.scheduler.waiting, id ∉ out.num_scheduled_tokens
  computed : ∀ i out, e.Pending i out → ∀ id ∈ e.scheduler.running, id ∈ out.num_scheduled_tokens →
    (e.scheduler.objs id).num_computed_tokens = (e.scheduler.objs id).num_tokens
  caught : ∀ id ∈ e.scheduler.running, (∀ i out, e.Pending i out → id ∉ out.num_scheduled_tokens) →
    Caught cfg (e.scheduler.objs id)

theorem synced_init (kv : K) (objs : ReqId → Request) : Synced cfg (init kv objs) where
  sound := sound_init kv objs
  spec := by simp [init]
  last := fun i out h => by simp [Pending, init] at h
  no_spec := fun i out h => by simp [Pending, init] at h
  waiting := fun i out h => by simp [Pending, init] at h
  computed := fun i out h => by simp [Pending, init] at h
  caught := by simp [init]

variable {e e' : Engine K} {op : Op K LP}

-- Between two steps every running request lacks one token.
theorem Synced.idle (h : Synced cfg e) (hok : SyncAllowed e (.schedule : Op K LP)) :
    (∀ i out, ¬e.Pending i out) ∧
    ∀ id ∈ e.scheduler.running, Caught cfg (e.scheduler.objs id) := by
  have hidle : ∀ i out, ¬e.Pending i out := fun i out hp =>
    hp.2 (hok.2 i (List.mem_range.mpr (List.getElem?_eq_some_iff.mp hp.1).1))
  exact ⟨hidle, fun id hid => h.caught id hid fun i out hp => absurd hp (hidle i out)⟩

-- The calls that leave the outputs and the kept requests as they are.
theorem Synced.congr (h : Synced cfg e) (hsound : Sound cfg e') (hissued : e'.issued = e.issued)
    (hupdated : e'.updated = e.updated)
    (hwaiting : ∀ id ∈ e'.scheduler.waiting, id ∈ e.scheduler.waiting)
    (hrunning : ∀ id ∈ e'.scheduler.running, id ∈ e.scheduler.running ∧
      e'.scheduler.objs id = e.scheduler.objs id)
    (hspec : ∀ id ∈ e'.scheduler.requests, (e'.scheduler.objs id).spec_token_ids = []) :
    Synced cfg e' := by
  have hpending : ∀ i out, e'.Pending i out ↔ e.Pending i out := fun i out => by
    rw [Pending, Pending, hissued, hupdated]
  refine ⟨hsound, hspec, fun i out hp => ?_, fun i out hp => ?_, fun i out hp id hid => ?_,
    fun i out hp id hid hs => ?_, fun id hid hnot => ?_⟩
  · rw [hissued]
    exact h.last i out ((hpending i out).mp hp)
  · exact h.no_spec i out ((hpending i out).mp hp)
  · exact h.waiting i out ((hpending i out).mp hp) id (hwaiting id hid)
  · obtain ⟨hr, hobj⟩ := hrunning id hid
    rw [hobj]
    exact h.computed i out ((hpending i out).mp hp) id hr hs
  · obtain ⟨hr, hobj⟩ := hrunning id hid
    rw [hobj]
    exact h.caught id hr fun i out hp => hnot i out ((hpending i out).mpr hp)

theorem Synced.add_request {id : ReqId} {request : Request} {s : Scheduler K}
    (h : Synced cfg e) (hok : SyncAllowed e (.add_request id request : Op K LP))
    (hr : id ∉ e.scheduler.running) (ha : AddedTo e.scheduler s id request)
    (hsound : Sound cfg { e with scheduler := s }) : Synced cfg { e with scheduler := s } := by
  obtain ⟨-, hnil, hfresh⟩ := hok
  have hother : ∀ id' ≠ id, s.objs id' = e.scheduler.objs id' := fun id' hne => by
    rw [ha.objs, Function.update_of_ne hne]
  have hne : ∀ id' ∈ e.scheduler.running, id' ≠ id := by
    rintro id' hid' rfl
    exact hr hid'
  refine ⟨hsound, fun id' hid' => ?_, h.last, h.no_spec, fun i out hp id' hid' => ?_,
    fun i out hp id' hid' hs => ?_, fun id' hid' hnot => ?_⟩
  · by_cases he : id' = id
    · subst he
      rw [ha.objs, Function.update_self]
      exact hnil
    · rw [ha.requests, Finset.mem_insert] at hid'
      rw [hother id' he]
      exact h.spec id' (hid'.resolve_left he)
  · rw [ha.waiting] at hid'
    rcases List.mem_append.mp hid' with hw | hw
    · exact h.waiting i out hp id' hw
    · rw [List.mem_singleton.mp hw]
      exact hfresh i (List.mem_range.mpr (List.getElem?_eq_some_iff.mp hp.1).1) hp.2 out hp.1
  · rw [ha.running] at hid'
    rw [hother id' (hne id' hid')]
    exact h.computed i out hp id' hid' hs
  · rw [ha.running] at hid'
    rw [hother id' (hne id' hid')]
    exact h.caught id' hid' hnot

theorem Synced.schedule {out : Output} {s : Scheduler K} (h : Synced cfg e)
    (hok : SyncAllowed e (.schedule : Op K LP))
    (hs : AscendScheduler.schedule cfg base e.scheduler = .ok (out, s))
    (hsound : Sound cfg { e with scheduler := s, issued := e.issued ++ [out] }) :
    Synced cfg { e with scheduler := s, issued := e.issued ++ [out] } := by
  obtain ⟨hidle, hcaught⟩ := h.idle hok
  obtain ⟨-, hspec, hno, hcomputed, hcaught'⟩ :=
    schedule_caught h.sound.consistent h.sound.room hcaught h.spec hs
  -- the new output is the only one that is pending
  have hpending : ∀ i out', Pending { e with scheduler := s, issued := e.issued ++ [out] } i out' →
      i = e.issued.length ∧ out' = out := by
    rintro i out' ⟨hi, hnot⟩
    dsimp only at hi hnot
    rcases Nat.lt_trichotomy i e.issued.length with hlt | heq | hgt
    · rw [List.getElem?_append_left hlt] at hi
      exact absurd ⟨hi, hnot⟩ (hidle i out')
    · subst heq
      rw [List.getElem?_append_right (Nat.le_refl _), Nat.sub_self] at hi
      exact ⟨rfl, (Option.some.inj hi).symm⟩
    · have := (List.getElem?_eq_some_iff.mp hi).1
      rw [List.length_append, List.length_singleton] at this
      omega
  have hself : Pending { e with scheduler := s, issued := e.issued ++ [out] }
      e.issued.length out := by
    refine ⟨List.getElem?_concat_length, fun hm => ?_⟩
    exact Nat.lt_irrefl _ (h.sound.updated _ hm)
  refine ⟨hsound, hspec, fun i out' hp => ?_, fun i out' hp => ?_, fun i out' hp id hid hm => ?_,
    fun i out' hp id hid hm => ?_, fun id hid hnot => ?_⟩
  · rw [(hpending i out' hp).1, List.length_append, List.length_singleton]
  · obtain ⟨rfl, rfl⟩ := hpending i out' hp
    exact hno
  · obtain ⟨rfl, rfl⟩ := hpending i out' hp
    have hr := (hcomputed id hm).1
    exact (List.nodup_append.mp hsound.consistent.nodup).2.2 id hid id hr rfl
  · obtain ⟨rfl, rfl⟩ := hpending i out' hp
    exact (hcomputed id hm).2
  · exact hcaught' id hid (hnot _ out hself)

-- Each scheduled request that goes on gets its next token.
theorem Synced.update_from_output {i : Nat} {model_runner_output : ModelRunnerOutput LP}
    {out : Output} {ids : Finset ReqId} {s : Scheduler K} {stopped : Finset ReqId}
    (h : Synced cfg e)
    (hok : SyncAllowed e (.update_from_output i model_runner_output : Op K LP))
    (hout : e.issued[i]? = some out)
    (hu : UpdatedBy cfg { e.scheduler with scheduled_req_ids := ids } s out model_runner_output
      stopped)
    (hsound : Sound cfg { e with scheduler := s, updated := insert i e.updated }) :
    Synced cfg { e with scheduler := s, updated := insert i e.updated } := by
  obtain ⟨hi, hone⟩ := hok
  have hp : e.Pending i out := ⟨hout, hi⟩
  have honly : ∀ j out', e.Pending j out' → j = i ∧ out' = out := by
    intro j out' hp'
    have hj := h.last j out' hp'
    have hi := h.last i out hp
    obtain rfl : j = i := by omega
    exact ⟨rfl, Option.some.inj (hp'.1.symm.trans hout)⟩
  have hidle : ∀ j out',
      ¬Pending { e with scheduler := s, updated := insert i e.updated } j out' := by
    rintro j out' ⟨hj, hnot⟩
    obtain ⟨hne, hnot⟩ := not_or.mp (mt Finset.mem_insert.mpr hnot)
    exact hne (honly j out' ⟨hj, hnot⟩).1
  have hrunning : ∀ id ∈ s.running, id ∈ e.scheduler.running ∧ id ∉ stopped := fun id hid => by
    rw [hu.running, List.mem_filter, decide_eq_true_iff] at hid
    exact hid
  have hspec : ∀ id ∈ e.scheduler.requests, (s.objs id).spec_token_ids = [] := by
    intro id hid
    by_cases hm : id ∈ out.num_scheduled_tokens
    · rw [(hu.computed id (h.no_spec i out hp id hm)).2]
      exact h.spec id hid
    · rw [hu.other id hm]
      exact h.spec id hid
  refine ⟨hsound, fun id hid => hspec id (hu.requests hid),
    fun j out' hp => absurd hp (hidle j out'), fun j out' hp => absurd hp (hidle j out'),
    fun j out' hp => absurd hp (hidle j out'), fun j out' hp => absurd hp (hidle j out'),
    fun id hid _ => ?_⟩
  obtain ⟨hr, hgoes⟩ := hrunning id hid
  by_cases hm : id ∈ out.num_scheduled_tokens
  · obtain ⟨hprompt, houtput⟩ := hu.tokens id hr hm hgoes
    have hlen := hone out hout id (AList.mem_keys.mp hm)
    have hcomputed := h.computed i out hp id hr hm
    refine ⟨?_, ?_, hspec id (h.sound.consistent.registered id (List.mem_append_right _ hr))⟩
    · rw [(hu.computed id (h.no_spec i out hp id hm)).1, hcomputed]
      simp only [Request.num_tokens, hprompt, houtput, List.length_append, hlen]
      omega
    · apply hu.shorter id hr hm hgoes
      intro hnil
      rw [hnil] at hlen
      cases hlen
  · rw [hu.other id hm]
    apply h.caught id hr
    intro j out' hp'
    rw [(honly j out' hp').2]
    exact hm

theorem Synced.step (h : Synced cfg e) (hok : SyncAllowed e op) (hs : Steps cfg base e op e') :
    Synced cfg e' := by
  have hsound := h.sound.step hs
  cases hs with
  | add_request _ hr _ ha => exact h.add_request hok hr ha hsound
  | schedule hs => exact h.schedule hok hs hsound
  | update_from_output _ hout _ hu => exact h.update_from_output hok hout hu hsound
  | finish_requests _ _ hf =>
      apply h.congr hsound rfl rfl
      · intro id hid
        rw [hf.waiting] at hid
        exact (List.mem_filter.mp hid).1
      · intro id hid
        rw [hf.running, List.mem_filter, decide_eq_true_iff] at hid
        exact ⟨hid.1, by rw [hf.objs, if_neg hid.2]⟩
      · intro id hid
        rw [hf.objs]
        split <;> exact h.spec id (hf.requests hid)
  | set_forced_mode | progress =>
      apply h.congr hsound rfl rfl
      · exact fun id hid => hid
      · exact fun id hid => ⟨hid, rfl⟩
      · exact h.spec

theorem synced_reachable (hl : base.Lawful cfg) {kv : K} {objs : ReqId → Request}
    (h : Run.Reachable (step cfg base) SyncAllowed (init kv objs) e) : Synced cfg e :=
  h.invariant (Synced cfg) (synced_init kv objs) fun _ _ _ hinv hok hstep =>
    hinv.step hok (steps_of_step hl hinv.sound.consistent hok.1 hstep)

-- In every run, each step is a prefill or a decode within its limits, and no assertion fails.
theorem homogeneous_steps (hl : base.Lawful cfg) {kv : K} {objs : ReqId → Request}
    (h : Run.Reachable (step cfg base) SyncAllowed (init kv objs) e)
    (hok : SyncAllowed e (.schedule : Op K LP)) :
    (∀ out s', AscendScheduler.schedule cfg base e.scheduler = .ok (out, s') →
      Homogeneous cfg e.scheduler s' out) ∧
    ∀ err, AscendScheduler.schedule cfg base e.scheduler = .error err →
      err.is_inconsistency = false := by
  have hsync := synced_reachable hl h
  obtain ⟨-, hcaught⟩ := hsync.idle hok
  exact ⟨fun out s' => schedule_homogeneous hl hsync.sound.consistent hsync.sound.room hcaught,
    fun err => schedule_ne_error hsync.sound.consistent hsync.sound.room hcaught⟩

-- A prompt, its first token, and the step that decodes the next.
def promptThenDecode : List (Op Pool Unit) := [
  .add_request "req" (newRequest [5, 6, 7]),
  .schedule,
  .update_from_output 0 {
    req_ids := ["req"]
    req_id_to_index := (∅ : Dict ReqId Nat).insert "req" 0
    sampled_token_ids := [[9]]
    logprobs := none }]

def afterToken : Engine Pool :=
  (Run.exec (step smallPool (poolBase smallPool)) SyncAllowed start promptThenDecode).get
    (by decide +kernel)

theorem afterToken_homogeneous :
    ∃ out s', AscendScheduler.schedule smallPool (poolBase smallPool) afterToken.scheduler =
      .ok (out, s') ∧ out.num_scheduled_tokens.entries = [⟨"req", 1⟩] ∧
      Homogeneous smallPool afterToken.scheduler s' out := by
  have hrun : ∃ r, (AscendScheduler.schedule smallPool (poolBase smallPool)
      afterToken.scheduler).toOption = some r ∧
      r.1.num_scheduled_tokens.entries = [⟨"req", 1⟩] := by
    refine ⟨_, (Option.some_get (by decide +kernel)).symm, by decide +kernel⟩
  obtain ⟨⟨out, s'⟩, hr, hcount⟩ := hrun
  have hs := Excepts.eq_ok_of_toOption hr
  refine ⟨out, s', hs, hcount, ?_⟩
  exact (homogeneous_steps (poolBase_lawful smallPool)
    (.of_exec promptThenDecode .start (Option.some_get _).symm) (by decide +kernel)).1 out s' hs

end Engine

end TTXla.VllmTT.AscendScheduler
