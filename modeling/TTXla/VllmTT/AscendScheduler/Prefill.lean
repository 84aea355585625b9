import TTXla.VllmTT.AscendScheduler.Queues

-- The prefill loop of `schedule`.
namespace TTXla.VllmTT.AscendScheduler

open Excepts (ensure bind_eq_ok bind_eq_error ensure_eq_ok get_eq_ok)

variable {K LP : Type} {cfg : Config} {base : Base K LP}

-- The loop goes on, and decides about the request at the head of the queue.
structure Decides (cfg : Config) (base : Base K LP) (p : Pass K) (id : ReqId) (kv : K)
    (request : Request) (v : Verdict) : Prop where
  budget : 0 < p.token_budget
  mode : p.self.forced_mode ≠ some 0
  room : p.self.running.length ≠ cfg.max_num_running_reqs
  judge : judge cfg base p.self.kv p.scheduled_loras p.token_budget id (p.self.objs id) =
    .ok (kv, request, v)

-- One iteration that takes a request from the queue.
inductive PrefillStep (cfg : Config) (base : Base K LP) :
    List ReqId × Pass K → List ReqId × Pass K → Prop
  | skip {id : ReqId} {w : List ReqId} {p : Pass K} {kv : K} {request : Request}
      (h : Decides cfg base p id kv request .skip) :
      PrefillStep cfg base (id :: w, p) (w, (p.setRequest kv id request).skip id)
  | ignore {id : ReqId} {w : List ReqId} {p : Pass K} {kv : K} {request : Request}
      (h : Decides cfg base p id kv request .ignore) :
      PrefillStep cfg base (id :: w, p) (w, (p.setRequest kv id request).ignore id)
  | load {id : ReqId} {w : List ReqId} {p : Pass K} {kv : K} {request : Request}
      (h : Decides cfg base p id kv request .load) :
      PrefillStep cfg base (id :: w, p) (w, (p.setRequest kv id request).load id)
  | enter {id : ReqId} {w : List ReqId} {p p' : Pass K} {kv : K} {request : Request} {c n : Nat}
      {blocks : KVCacheBlocks} (h : Decides cfg base p id kv request (.enter c n blocks))
      (henter : (p.setRequest kv id request).enter cfg id c n blocks = .ok p') :
      PrefillStep cfg base (id :: w, p) (w, p')

abbrev PrefillSteps (cfg : Config) (base : Base K LP) :
    List ReqId × Pass K → List ReqId × Pass K → Prop :=
  Relation.ReflTransGen (PrefillStep cfg base)

-- How the loop ends: the request at the head stays in the queue, changed or not.
inductive PrefillEnds (cfg : Config) (base : Base K LP) : List ReqId → Pass K → Pass K → Prop
  | done {w : List ReqId} {p : Pass K} : PrefillEnds cfg base w p (p.setWaiting w)
  | stop {id : ReqId} {w : List ReqId} {p : Pass K} {kv : K} {request : Request}
      (h : Decides cfg base p id kv request .stop) :
      PrefillEnds cfg base (id :: w) p ((p.setRequest kv id request).setWaiting (id :: w))

theorem prefill_loop_steps {w : List ReqId} {p p' : Pass K}
    (h : prefill_loop cfg base w p = .ok p') :
    ∃ w₀ p₀, PrefillSteps cfg base (w, p) (w₀, p₀) ∧ PrefillEnds cfg base w₀ p₀ p' := by
  induction w generalizing p with
  | nil =>
      cases h
      exact ⟨[], p, .refl, .done⟩
  | cons id w ih =>
      unfold prefill_loop at h
      split at h
      · rename_i hguard
        obtain ⟨⟨kv, request, v⟩, hjudge, h⟩ := bind_eq_ok.mp h
        have hd : Decides cfg base p id kv request v := ⟨hguard.1, hguard.2.1, hguard.2.2, hjudge⟩
        cases v with
        | stop =>
            cases h
            exact ⟨id :: w, p, .refl, .stop hd⟩
        | skip =>
            obtain ⟨w₀, p₀, hsteps, hends⟩ := ih h
            exact ⟨w₀, p₀, .head (.skip hd) hsteps, hends⟩
        | ignore =>
            obtain ⟨w₀, p₀, hsteps, hends⟩ := ih h
            exact ⟨w₀, p₀, .head (.ignore hd) hsteps, hends⟩
        | load =>
            obtain ⟨w₀, p₀, hsteps, hends⟩ := ih h
            exact ⟨w₀, p₀, .head (.load hd) hsteps, hends⟩
        | enter c n blocks =>
            obtain ⟨p₁, henter, h⟩ := bind_eq_ok.mp h
            obtain ⟨w₀, p₀, hsteps, hends⟩ := ih h
            exact ⟨w₀, p₀, .head (.enter hd henter) hsteps, hends⟩
      · cases h
        exact ⟨id :: w, p, .refl, .done⟩

-- The loop goes on from where a step leads.
theorem prefill_loop_step {s s' : List ReqId × Pass K} (h : PrefillStep cfg base s s') :
    prefill_loop cfg base s.1 s.2 = prefill_loop cfg base s'.1 s'.2 := by
  cases h with
  | skip hd | ignore hd | load hd =>
      dsimp only
      rw [prefill_loop, if_pos ⟨hd.budget, hd.mode, hd.room⟩, hd.judge]
      rfl
  | enter hd henter =>
      dsimp only
      rw [prefill_loop, if_pos ⟨hd.budget, hd.mode, hd.room⟩, hd.judge]
      change Except.bind (Pass.enter cfg (Pass.setRequest _ _ _ _) _ _ _ _) _ = _
      rw [henter]
      rfl

theorem prefill_loop_eq {s s' : List ReqId × Pass K} (h : PrefillSteps cfg base s s') :
    prefill_loop cfg base s.1 s.2 = prefill_loop cfg base s'.1 s'.2 := by
  induction h with
  | refl => rfl
  | tail _ hstep ih => exact ih.trans (prefill_loop_step hstep)

-- What it means to schedule a request from the waiting queue.
structure Admitted (cfg : Config) (p p' : Pass K) (id : ReqId) (c n : Nat) : Prop where
  running : p'.self.running = p.self.running ++ [id]
  scheduled : p'.self.scheduled_req_ids = insert id p.self.scheduled_req_ids
  requests : p'.self.requests = p.self.requests
  mode : p'.self.forced_mode = p.self.forced_mode
  skipped : p'.skipped_waiting_requests = p.skipped_waiting_requests
  status : (p'.self.objs id).status = .RUNNING
  tokens : SameTokens (p.self.objs id) (p'.self.objs id)
  computed : (p'.self.objs id).num_computed_tokens = c
  other : ∀ id', id' ≠ id → p'.self.objs id' = p.self.objs id'
  budget : p'.token_budget = p.token_budget - n
  counts : p'.num_scheduled_tokens = p.num_scheduled_tokens.insert id n
  lists : (p'.scheduled_new_reqs ++ p'.scheduled_resumed_reqs).Perm
    (id :: (p.scheduled_new_reqs ++ p.scheduled_resumed_reqs))
  running_reqs : p'.scheduled_running_reqs = p.scheduled_running_reqs
  spec : p'.scheduled_spec_decode_tokens = p.scheduled_spec_decode_tokens

theorem enter_spec {p p' : Pass K} {id : ReqId} {c n : Nat} {blocks : KVCacheBlocks}
    (h : p.enter cfg id c n blocks = .ok p') : Admitted cfg p p' id c n := by
  unfold Pass.enter at h
  dsimp only at h
  split at h
  · cases h
    refine ⟨rfl, rfl, rfl, rfl, rfl, ?_, ?_, ?_, fun id' hne => ?_, rfl, rfl, ?_, rfl, rfl⟩
    · simp [Pass.setRequest, Scheduler.setRequest]
    · constructor <;> simp [Pass.setRequest, Scheduler.setRequest]
    · simp [Pass.setRequest, Scheduler.setRequest]
    · exact Function.update_of_ne hne _ _
    · simp only [Pass.setRequest, List.append_assoc, List.singleton_append]
      exact List.perm_middle
  · cases h
    refine ⟨rfl, rfl, rfl, rfl, rfl, ?_, ?_, ?_, fun id' hne => ?_, rfl, rfl, ?_, rfl, rfl⟩
    · simp [Pass.setRequest, Scheduler.setRequest]
    · constructor <;> simp [Pass.setRequest, Scheduler.setRequest]
    · simp [Pass.setRequest, Scheduler.setRequest]
    · exact Function.update_of_ne hne _ _
    · simp only [Pass.setRequest]
      rw [← List.append_assoc]
      exact List.perm_append_singleton _ _
  · cases h

-- What holds at the head of the loop, when it started in a consistent state `s` and `w` is left
-- of the waiting queue.
structure Prefilling (cfg : Config) (s : Scheduler K) (w : List ReqId) (p : Pass K) : Prop where
  queued : Queued p.self (p.skipped_waiting_requests ++ w)
  requests : p.self.requests = s.requests
  mode : p.self.forced_mode = s.forced_mode
  running : ∃ l, p.self.running = s.running ++ l ∧
    l.Perm (p.scheduled_new_reqs ++ p.scheduled_resumed_reqs) ∧ l.Perm p.num_scheduled_tokens.keys
  scheduled : ∀ id, id ∈ p.self.scheduled_req_ids ↔
    id ∈ s.scheduled_req_ids ∨ id ∈ p.num_scheduled_tokens
  running_reqs : p.scheduled_running_reqs = []
  spec : p.scheduled_spec_decode_tokens = ∅
  budget : p.token_budget + (p.num_scheduled_tokens.entries.map Sigma.snd).sum =
    cfg.max_num_scheduled_tokens ∧ 0 ≤ p.token_budget
  room : p.self.running.length ≤ cfg.max_num_running_reqs
  counts : ∀ id n, p.num_scheduled_tokens.lookup id = some n → 0 < n ∧
    ((p.self.objs id).num_computed_tokens : Int) + n = (p.self.objs id).num_tokens
  others : ∀ id ∈ s.running, p.self.objs id = s.objs id
  tokens : ∀ id, SameTokens (s.objs id) (p.self.objs id)
  fate : ∀ id, ¬(s.objs id).status.is_finished → ¬(p.self.objs id).status.is_finished ∨
    (p.self.objs id).status = .FINISHED_IGNORED

theorem prefilling_start {s : Scheduler K} (h : Consistent s)
    (hroom : s.running.length ≤ cfg.max_num_running_reqs) :
    Prefilling cfg s s.waiting (Pass.start cfg s) where
  queued := h
  requests := rfl
  mode := rfl
  running := ⟨[], by simp [Pass.start], List.Perm.refl _, List.Perm.refl _⟩
  scheduled := fun id => by simp [Pass.start]
  running_reqs := rfl
  spec := rfl
  budget := by simp [Pass.start]
  room := hroom
  counts := fun id n hn => by simp [Pass.start] at hn
  others := fun id _ => rfl
  tokens := fun id => .refl _
  fate := fun id hf => Or.inl hf

namespace Prefilling

variable {s : Scheduler K} {w w' : List ReqId} {p p' : Pass K} {id : ReqId}

theorem notMem_running (h : Prefilling cfg s (id :: w) p) : id ∉ p.self.running := by
  have hnodup := h.queued.nodup
  intro hr
  exact (List.nodup_append.mp hnodup).2.2 id (by simp) id hr rfl

theorem mem_running (h : Prefilling cfg s w p) (hid : id ∈ p.num_scheduled_tokens) :
    id ∈ p.self.running := by
  obtain ⟨l, hl, -, hkeys⟩ := h.running
  rw [hl]
  exact List.mem_append_right _ (hkeys.mem_iff.mpr (AList.mem_keys.mp hid))

-- Only the request at the head of the queue changes, and nothing is scheduled.
theorem touch (h : Prefilling cfg s (id :: w) p) (kv : K) (objs : ReqId → Request)
    (finished skipped : List ReqId)
    (hother : ∀ id', id' ≠ id → objs id' = p.self.objs id')
    (htokens : SameTokens (p.self.objs id) (objs id))
    (hfate : ¬(objs id).status.is_finished ∨ (objs id).status = .FINISHED_IGNORED)
    (hqueued : Queued { p.self with kv := kv, objs := objs, finished_req_ids := finished }
      (skipped ++ w')) :
    Prefilling cfg s w' { p with
      self := { p.self with kv := kv, objs := objs, finished_req_ids := finished }
      skipped_waiting_requests := skipped } where
  queued := hqueued
  requests := h.requests
  mode := h.mode
  running := h.running
  scheduled := h.scheduled
  running_reqs := h.running_reqs
  spec := h.spec
  budget := h.budget
  room := h.room
  counts := fun id' n hn => by
    have hne : id' ≠ id := by
      rintro rfl
      exact h.notMem_running (h.mem_running ((Dict.mem_iff _ _).mpr ⟨n, hn⟩))
    dsimp only
    rw [hother id' hne]
    exact h.counts id' n hn
  others := fun id' hid' => by
    have hne : id' ≠ id := by
      rintro rfl
      obtain ⟨l, hl, -⟩ := h.running
      exact h.notMem_running (hl ▸ List.mem_append_left _ hid')
    dsimp only
    rw [hother id' hne]
    exact h.others id' hid'
  tokens := fun id' => by
    by_cases he : id' = id
    · subst he
      exact (h.tokens id').trans htokens
    · dsimp only
      rw [hother id' he]
      exact h.tokens id'
  fate := fun id' hf => by
    by_cases he : id' = id
    · subst he
      exact hfate
    · dsimp only
      rw [hother id' he]
      exact h.fate id' hf

-- The request at the head changes and stays in the queue, or joins the skipped ones.
theorem requeued (h : Prefilling cfg s (id :: w) p) {kv : K} {objs : ReqId → Request}
    {finished skipped : List ReqId} (hother : ∀ id', id' ≠ id → objs id' = p.self.objs id')
    (hwaiting : (objs id).status.is_waiting)
    (hperm : (skipped ++ w').Perm (p.skipped_waiting_requests ++ id :: w)) :
    Queued { p.self with kv := kv, objs := objs, finished_req_ids := finished }
      (skipped ++ w') := by
  have hnot := h.notMem_running
  have hmem : id ∈ p.skipped_waiting_requests ++ id :: w ++ p.self.running := by simp
  refine h.queued.move hmem (hperm.append_right _) rfl (fun id' hne => ?_)
    (fun id' hid' => Or.inr (hperm.mem_iff.mp hid')) (fun id' hid' => Or.inr hid')
    (fun _ => hwaiting) (fun hr => absurd hr hnot)
  dsimp only
  rw [hother id' hne]

-- A request that is too long leaves the queues.
theorem ignored (h : Prefilling cfg s (id :: w) p) {kv : K} {objs : ReqId → Request}
    {finished : List ReqId} (hother : ∀ id', id' ≠ id → objs id' = p.self.objs id')
    (hstatus : (objs id).status = .FINISHED_IGNORED) :
    Queued { p.self with kv := kv, objs := objs, finished_req_ids := finished }
      (p.skipped_waiting_requests ++ w) := by
  have hperm : (id :: (p.skipped_waiting_requests ++ w)).Perm
      (p.skipped_waiting_requests ++ id :: w) := List.perm_middle.symm
  have hqueued : Queued p.self (id :: (p.skipped_waiting_requests ++ w)) :=
    h.queued.congr rfl rfl (fun _ => rfl) hperm
  refine hqueued.drop rfl rfl (fun id' hne => ?_) ?_
  · dsimp only
    rw [hother id' hne]
  · dsimp only
    rw [hstatus]
    rfl

theorem admitted (h : Prefilling cfg s (id :: w) p) (hfull : p.self.running.length ≠
      cfg.max_num_running_reqs) {c n : Nat} (ha : Admitted cfg p p' id c n)
    (hpos : 0 < n) (hbudget : (n : Int) ≤ p.token_budget)
    (hall : c + n = (p'.self.objs id).num_tokens) : Prefilling cfg s w p' := by
  have hnot := h.notMem_running
  have hkey : id ∉ p.num_scheduled_tokens := fun hm => hnot (h.mem_running hm)
  have hmem : id ∈ p.skipped_waiting_requests ++ id :: w ++ p.self.running := by simp
  have hnodup := h.queued.nodup
  obtain ⟨l, hl, hlists, hkeys⟩ := h.running
  have hroom := h.room
  have hwid : id ∉ p.skipped_waiting_requests ++ w := by
    intro hw
    rw [List.append_assoc, List.cons_append, List.nodup_middle, List.nodup_cons,
      ← List.append_assoc] at hnodup
    exact hnodup.1 (List.mem_append_left _ hw)
  refine ⟨?_, ha.requests.trans h.requests, ha.mode.trans h.mode, ⟨l ++ [id], ?_, ?_, ?_⟩,
    fun id' => ?_, ha.running_reqs.trans h.running_reqs, ha.spec.trans h.spec, ⟨?_, ?_⟩, ?_, fun id' n' hn' => ?_,
    fun id' hid' => ?_, fun id' => ?_, fun id' hf => ?_⟩
  · refine h.queued.move hmem ?_ ha.requests (fun id' hne => by rw [ha.other id' hne])
      (fun id' hid' => ?_) (fun id' hid' => ?_) (fun hw => ?_) (fun _ => ha.status)
    · rw [ha.skipped, ha.running, List.append_assoc, List.append_assoc, List.cons_append]
      apply List.Perm.append_left
      rw [← List.append_assoc]
      exact List.perm_append_singleton _ _
    · rw [ha.skipped] at hid'
      right
      rcases List.mem_append.mp hid' with hs | hw
      · exact List.mem_append_left _ hs
      · exact List.mem_append_right _ (List.mem_cons_of_mem _ hw)
    · rw [ha.running] at hid'
      rcases List.mem_append.mp hid' with hr | he
      · exact Or.inr hr
      · exact Or.inl (List.mem_singleton.mp he)
    · rw [ha.skipped] at hw
      exact absurd hw hwid
  · rw [ha.running, hl, List.append_assoc]
  · exact (List.perm_append_singleton _ _).trans ((hlists.cons id).trans ha.lists.symm)
  · rw [ha.counts, Dict.keys_insert_of_notMem _ _ _ hkey]
    exact (List.perm_append_singleton _ _).trans (hkeys.cons id)
  · rw [ha.scheduled, ha.counts, Finset.mem_insert, AList.mem_insert, h.scheduled]
    tauto
  · rw [ha.budget, ha.counts, Dict.sum_values_insert _ _ _ hkey]
    have := h.budget.1
    omega
  · rw [ha.budget]
    omega
  · rw [ha.running, List.length_append, List.length_singleton]
    omega
  · rw [ha.counts, Dict.lookup_insert'] at hn'
    by_cases he : id' = id
    · rw [if_pos he] at hn'
      cases hn'
      subst he
      rw [ha.computed]
      omega
    · rw [if_neg he] at hn'
      rw [ha.other id' he]
      exact h.counts id' n' hn'
  · have hne : id' ≠ id := by
      rintro rfl
      exact hnot (hl ▸ List.mem_append_left _ hid')
    rw [ha.other id' hne]
    exact h.others id' hid'
  · by_cases he : id' = id
    · subst he
      exact (h.tokens id').trans ha.tokens
    · rw [ha.other id' he]
      exact h.tokens id'
  · by_cases he : id' = id
    · subst he
      rw [ha.status]
      exact Or.inl (by decide)
    · rw [ha.other id' he]
      exact h.fate id' hf

theorem step {q q' : List ReqId × Pass K} (h : Prefilling cfg s q.1 q.2)
    (hstep : PrefillStep cfg base q q') : Prefilling cfg s q'.1 q'.2 := by
  cases hstep with
  | @skip id w p kv request hd =>
      have hj := judge_spec hd.judge
      have hwaiting := hj.waiting (h.queued.waiting_status id (by simp))
      have hother : ∀ id', id' ≠ id → Function.update p.self.objs id request id' =
        p.self.objs id' := fun id' hne => Function.update_of_ne hne _ _
      have hself : Function.update p.self.objs id request id = request := Function.update_self ..
      apply h.touch kv (Function.update p.self.objs id request) p.self.finished_req_ids
        (id :: p.skipped_waiting_requests) hother
      · rw [hself]
        exact hj.tokens
      · rw [hself]
        exact Or.inl (RequestStatus.not_finished_of_waiting hwaiting)
      · apply h.requeued hother
        · rw [hself]
          exact hwaiting
        · exact List.perm_middle.symm
  | @ignore id w p kv request hd =>
      have hj := judge_spec hd.judge
      let objs := ((p.setRequest kv id request).ignore id).self.objs
      have hother : ∀ id', id' ≠ id → objs id' = p.self.objs id' := fun id' hne =>
        (Function.update_of_ne hne _ _).trans (Function.update_of_ne hne _ _)
      have hself : objs id = { request with status := .FINISHED_IGNORED } := by
        simp [objs, Pass.ignore, Pass.setStatus, Pass.setRequest, Scheduler.setRequest]
      apply h.touch kv objs (p.self.finished_req_ids.insert id) p.skipped_waiting_requests hother
      · rw [hself]
        exact ⟨hj.tokens.prompt, hj.tokens.output, hj.tokens.spec⟩
      · rw [hself]
        exact Or.inr rfl
      · apply h.ignored hother
        rw [hself]
  | @load id w p kv request hd =>
      have hj := judge_spec hd.judge
      let objs := ((p.setRequest kv id request).load id).self.objs
      have hother : ∀ id', id' ≠ id → objs id' = p.self.objs id' := fun id' hne =>
        (Function.update_of_ne hne _ _).trans (Function.update_of_ne hne _ _)
      have hself : objs id = { request with status := .WAITING_FOR_REMOTE_KVS } := by
        simp [objs, Pass.load, Pass.skip, Pass.setStatus, Pass.setRequest, Scheduler.setRequest]
      apply h.touch kv objs p.self.finished_req_ids (id :: p.skipped_waiting_requests) hother
      · rw [hself]
        exact ⟨hj.tokens.prompt, hj.tokens.output, hj.tokens.spec⟩
      · rw [hself]
        exact Or.inl nofun
      · apply h.requeued hother
        · rw [hself]
          rfl
        · exact List.perm_middle.symm
  | @enter id w p p' kv request c n blocks hd henter =>
      have hj := judge_spec hd.judge
      have hwaiting := hj.waiting (h.queued.waiting_status id (by simp))
      obtain ⟨hpos, hall, hbudget⟩ := hj.enter c n blocks rfl
      have hother : ∀ id', id' ≠ id → Function.update p.self.objs id request id' =
        p.self.objs id' := fun id' hne => Function.update_of_ne hne _ _
      have hself : Function.update p.self.objs id request id = request := Function.update_self ..
      have hmid : Prefilling cfg s (id :: w) (p.setRequest kv id request) := by
        apply h.touch kv (Function.update p.self.objs id request) p.self.finished_req_ids
          p.skipped_waiting_requests hother
        · rw [hself]
          exact hj.tokens
        · rw [hself]
          exact Or.inl (RequestStatus.not_finished_of_waiting hwaiting)
        · apply h.requeued hother
          · rw [hself]
            exact hwaiting
          · exact List.Perm.refl _
      have ha := enter_spec henter
      apply hmid.admitted hd.room ha hpos hbudget
      rw [ha.tokens.num_tokens]
      change c + n = (Function.update p.self.objs id request id).num_tokens
      rw [hself]
      exact hall

theorem steps {q q' : List ReqId × Pass K} (h : Prefilling cfg s q.1 q.2)
    (hsteps : PrefillSteps cfg base q q') : Prefilling cfg s q'.1 q'.2 := by
  induction hsteps with
  | refl => exact h
  | tail _ hstep ih => exact ih.step hstep

theorem setWaiting (h : Prefilling cfg s w p) (waiting : List ReqId) :
    Prefilling cfg s w (p.setWaiting waiting) :=
  ⟨h.queued.congr rfl rfl (fun _ => rfl) (.refl _), h.requests, h.mode, h.running, h.scheduled,
    h.running_reqs, h.spec, h.budget, h.room, h.counts, h.others, h.tokens, h.fate⟩

theorem ends (h : Prefilling cfg s w p) (hends : PrefillEnds cfg base w p p') :
    Prefilling cfg s w p' ∧ p'.self.waiting = w := by
  cases hends with
  | done => exact ⟨h.setWaiting w, rfl⟩
  | @stop id w _ kv request hd =>
      have hj := judge_spec hd.judge
      have hwaiting := hj.waiting (h.queued.waiting_status id (by simp))
      have hother : ∀ id', id' ≠ id → Function.update p.self.objs id request id' =
        p.self.objs id' := fun id' hne => Function.update_of_ne hne _ _
      have hself : Function.update p.self.objs id request id = request := Function.update_self ..
      refine ⟨setWaiting ?_ (id :: w), rfl⟩
      apply h.touch kv (Function.update p.self.objs id request) p.self.finished_req_ids
        p.skipped_waiting_requests hother
      · rw [hself]
        exact hj.tokens
      · rw [hself]
        exact Or.inl (RequestStatus.not_finished_of_waiting hwaiting)
      · apply h.requeued hother
        · rw [hself]
          exact hwaiting
        · exact List.Perm.refl _

end Prefilling

theorem extendleft_eq (l skipped : List ReqId) : extendleft l skipped = skipped.reverse ++ l := by
  induction skipped generalizing l with
  | nil => rfl
  | cons id skipped ih =>
      rw [extendleft, List.foldl_cons, ← extendleft, ih, List.reverse_cons, List.append_assoc]
      rfl

-- What holds after the loop, with the skipped requests back in the waiting queue.
theorem prefill_loop_spec {s : Scheduler K} {p : Pass K} (h : Consistent s)
    (hroom : s.running.length ≤ cfg.max_num_running_reqs)
    (hp : prefill_loop cfg base s.waiting (Pass.start cfg s) = .ok p) :
    ∃ w, Prefilling cfg s w p.putBack ∧ Consistent p.putBack.self := by
  obtain ⟨w, p₀, hsteps, hends⟩ := prefill_loop_steps hp
  obtain ⟨h₁, hw⟩ := ((prefilling_start h hroom).steps hsteps).ends hends
  have h₂ := h₁.setWaiting (extendleft p.self.waiting p.skipped_waiting_requests)
  refine ⟨w, h₂, h₂.queued.congr rfl rfl (fun _ => rfl) ?_⟩
  change (extendleft p.self.waiting p.skipped_waiting_requests).Perm _
  rw [extendleft_eq, hw]
  exact (List.reverse_perm _).append_right _

end TTXla.VllmTT.AscendScheduler
