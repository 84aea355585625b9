import TTXla.VllmTT.AscendScheduler.Decode

-- The calls of the scheduler, one by one.
namespace TTXla.VllmTT.AscendScheduler

open Excepts (ensure bind_eq_ok bind_eq_error ensure_eq_ok get_eq_ok)

variable {K LP : Type} {cfg : Config} {base : Base K LP} {s s' : Scheduler K}

theorem run_loops_spec {p : Pass K} (h : Consistent s)
    (hroom : s.running.length ≤ cfg.max_num_running_reqs) (hp : run_loops cfg base s = .ok p) :
    Consistent p.self ∧ ((∃ w, Prefilling cfg s w p) ∨ ∃ i, Decoding cfg s i p) := by
  obtain ⟨p₀, hp₀, hp⟩ := bind_eq_ok.mp hp
  obtain ⟨w, hw, hc⟩ := prefill_loop_spec h hroom hp₀
  dsimp only at hp
  split at hp
  · rename_i hidle
    obtain ⟨i, hd⟩ := decode_loop_spec (decoding_start hw hc hidle.1) hp
    exact ⟨hd.queued, Or.inr ⟨i, hd⟩⟩
  · cases hp
    exact ⟨hc, Or.inl ⟨w, hw⟩⟩

theorem new_request_data_spec {p : Pass K} {id : ReqId} {d : NewRequestData}
    (h : p.new_request_data id = .ok d) :
    d.req_id = id ∧ d.num_computed_tokens = (p.self.objs id).num_computed_tokens := by
  obtain ⟨blocks, -, h⟩ := bind_eq_ok.mp h
  cases h
  exact ⟨rfl, rfl⟩

-- The output and the state after the loops.
structure Scheduled (cfg : Config) (base : Base K LP) (s s' : Scheduler K) (out : Output)
    (p : Pass K) : Prop where
  loops : run_loops cfg base s = .ok p
  constraints : check_constraints cfg p = .ok ()
  output : p.output base = .ok out
  counts : out.num_scheduled_tokens = p.num_scheduled_tokens
  total : out.total_num_scheduled_tokens =
    (out.num_scheduled_tokens.entries.map Sigma.snd).sum
  spec : out.scheduled_spec_decode_tokens = p.scheduled_spec_decode_tokens
  new_reqs : out.scheduled_new_reqs.map NewRequestData.req_id = p.scheduled_new_reqs
  waiting : s'.waiting = p.self.waiting
  running : s'.running = p.self.running
  requests : s'.requests = p.self.requests
  scheduled : s'.scheduled_req_ids = p.self.scheduled_req_ids
  mode : s'.forced_mode = p.self.forced_mode
  status : ∀ id, (s'.objs id).status = (p.self.objs id).status
  tokens : ∀ id, SameTokens (p.self.objs id) (s'.objs id)
  computed : ∀ id, (s'.objs id).num_computed_tokens =
    match p.num_scheduled_tokens.lookup id with
    | none => (p.self.objs id).num_computed_tokens
    | some n => (((p.self.objs id).num_computed_tokens : Int) + n).toNat

theorem schedule_spec {out : Output} (h : schedule cfg base s = .ok (out, s')) :
    ∃ p, Scheduled cfg base s s' out p := by
  obtain ⟨p, hp, h⟩ := bind_eq_ok.mp h
  obtain ⟨u, hcheck, h⟩ := bind_eq_ok.mp h
  obtain ⟨out', hout, h⟩ := bind_eq_ok.mp h
  obtain ⟨s₁, hs₁, h⟩ := bind_eq_ok.mp h
  cases h
  obtain ⟨u', hkeys, hs₁⟩ := bind_eq_ok.mp hs₁
  cases hs₁
  have hout' := hout
  obtain ⟨new_reqs_data, hnew, hout'⟩ := bind_eq_ok.mp hout'
  cases hout'
  refine ⟨p, hp, hcheck, hout, rfl, rfl, rfl, ?_, rfl, rfl, rfl, rfl, rfl, fun id => ?_, fun id => ?_,
    fun id => ?_⟩
  · exact Excepts.map_of_mapM (fun id d hd => (new_request_data_spec hd).1) hnew
  · dsimp only
    split <;> rfl
  · dsimp only
    split <;> exact ⟨rfl, rfl, rfl⟩
  · dsimp only
    cases p.num_scheduled_tokens.lookup id <;> rfl

theorem Scheduled.consistent {out : Output} {p : Pass K} (h : Scheduled cfg base s s' out p)
    (hp : Consistent p.self) : Consistent s' :=
  hp.congr h.running h.requests h.status (by rw [h.waiting])

-- What a call of `schedule` does to a consistent state.
theorem schedule_consistent {out : Output} (hc : Consistent s)
    (hroom : s.running.length ≤ cfg.max_num_running_reqs)
    (h : schedule cfg base s = .ok (out, s')) :
    Consistent s' ∧ s'.running.length ≤ cfg.max_num_running_reqs := by
  obtain ⟨p, hs⟩ := schedule_spec h
  obtain ⟨hp, -⟩ := run_loops_spec hc hroom hs.loops
  refine ⟨hs.consistent hp, ?_⟩
  obtain ⟨u₁, -, hcheck⟩ := bind_eq_ok.mp hs.constraints
  obtain ⟨u₂, -, hcheck⟩ := bind_eq_ok.mp hcheck
  obtain ⟨u₃, hrunning, -⟩ := bind_eq_ok.mp hcheck
  rw [hs.running]
  exact ensure_eq_ok.mp hrunning

-- The loop of `finish_requests` takes the running requests among the ids from the set.
theorem mem_discard_running {ids : List ReqId} {id : ReqId} :
    id ∈ (discard_running s ids).scheduled_req_ids ↔ id ∈ s.scheduled_req_ids ∧
      ¬(id ∈ ids ∧ id ∈ s.requests ∧ (s.objs id).status = .RUNNING) := by
  unfold discard_running
  induction ids generalizing s with
  | nil => simp
  | cons id' ids ih =>
      rw [List.foldl_cons, ih]
      split
      · rename_i hrun
        rw [Finset.mem_erase, List.mem_cons]
        by_cases he : id = id'
        · subst he
          simp [hrun]
        · simp [he]
      · rename_i hrun
        rw [List.mem_cons]
        by_cases he : id = id'
        · subst he
          simp [hrun]
        · simp [he]

theorem discard_running_eq (s : Scheduler K) (ids : List ReqId) :
    discard_running s ids =
      { s with scheduled_req_ids := (discard_running s ids).scheduled_req_ids } := by
  unfold discard_running
  induction ids generalizing s with
  | nil => rfl
  | cons id ids ih =>
      rw [List.foldl_cons]
      split
      · rw [ih]
      · rw [ih]

-- The loop of `update_from_output`.
theorem mem_update_scheduled {counts : Dict ReqId Int} {running : List ReqId}
    {ids : Finset ReqId} {id : ReqId} :
    id ∈ running.foldl (fun ids id => if (counts.lookup id).getD 0 = 0 then ids else ids.erase id)
      ids ↔ id ∈ ids ∧ ¬(id ∈ running ∧ (counts.lookup id).getD 0 ≠ 0) := by
  induction running generalizing ids with
  | nil => simp
  | cons id' running ih =>
      rw [List.foldl_cons, ih, List.mem_cons]
      by_cases he : id = id'
      · subst he
        split
        · rename_i h0
          simp [h0]
        · rename_i h0
          simp [h0]
      · split
        · simp [he]
        · simp [he]

end TTXla.VllmTT.AscendScheduler
