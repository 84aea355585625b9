import TTXla.VllmTT.AscendScheduler.Engine

-- The set of the requests that are in flight.
namespace TTXla.VllmTT.AscendScheduler.Engine

variable {K LP : Type} {cfg : Config} {base : Base K LP} {e e' : Engine K} {op : Op K LP}

-- The last step that scheduled the request is not updated yet.
def LastPending (e : Engine K) (id : ReqId) : Prop :=
  ∃ (i : Nat) (out : Output), e.issued[i]? = some out ∧ id ∈ out.num_scheduled_tokens ∧
    i ∉ e.updated ∧ ∀ (j : Nat) (out' : Output), i < j → e.issued[j]? = some out' →
      id ∉ out'.num_scheduled_tokens

-- `scheduled_req_ids` has only requests that run and whose last step is pending.
def Guarded (e : Engine K) : Prop :=
  ∀ id ∈ e.scheduler.scheduled_req_ids, id ∈ e.scheduler.running ∧ LastPending e id

-- `finish_requests` finishes the same requests as the base class does.
def SameFinish (base : Base K LP) (e : Engine K) : Op K LP → Prop
  | .finish_requests request_ids status => ∀ s s',
      AscendScheduler.finish_requests base e.scheduler request_ids status = some s →
      base.finish_requests e.scheduler request_ids status = some s' →
      ∀ id, (s.objs id).status.is_finished ↔ (s'.objs id).status.is_finished
  | _ => True

-- A string that is a scheduled id has one character, and ids that can be traversed only once
-- name no unfinished request.
def Meets (e : Engine K) : Op K LP → Prop
  | .finish_requests (.str s) _ => s.length = 1 ∨ s ∉ e.scheduler.scheduled_req_ids
  | .finish_requests (.iterator ids) _ =>
      ∀ id ∈ ids, id ∈ e.scheduler.requests → (e.scheduler.objs id).status.is_finished
  | _ => True

instance (e : Engine K) : (op : Op K LP) → Decidable (Meets e op)
  | .finish_requests (.str s) _ =>
      inferInstanceAs (Decidable (s.length = 1 ∨ s ∉ e.scheduler.scheduled_req_ids))
  | .finish_requests (.iterator ids) _ => inferInstanceAs (Decidable
      (∀ id ∈ ids, id ∈ e.scheduler.requests → (e.scheduler.objs id).status.is_finished))
  | .finish_requests (.collection _) _ | .add_request _ _ | .update_from_output _ _ | .schedule
  | .set_forced_mode _ | .progress _ => inferInstanceAs (Decidable True)

theorem mem_traverse_str {s id : String} :
    id ∈ (RequestIds.str s).traverse → id.length = 1 := by
  intro h
  obtain ⟨c, -, rfl⟩ := List.mem_map.mp h
  simp

theorem mem_traverse_self {s : String} (h : s.length = 1) : s ∈ (RequestIds.str s).traverse := by
  obtain ⟨c, hc⟩ := List.length_eq_one_iff.mp (String.length_toList.trans h)
  refine List.mem_map.mpr ⟨c, by rw [hc]; simp, ?_⟩
  rw [← hc, String.ofList_toList]

-- Every output gives its requests some tokens.
def Counted (e : Engine K) : Prop :=
  ∀ out ∈ e.issued, ∀ id n, out.num_scheduled_tokens.lookup id = some n → n ≠ 0

theorem schedule_counts {s s' : Scheduler K} {out : Output} (hc : Consistent s)
    (hroom : s.running.length ≤ cfg.max_num_running_reqs)
    (h : AscendScheduler.schedule cfg base s = .ok (out, s')) :
    (∀ id n, out.num_scheduled_tokens.lookup id = some n → n ≠ 0) ∧
      (∀ id ∈ out.num_scheduled_tokens, id ∈ s'.running) ∧
      ∀ id ∈ s'.scheduled_req_ids, id ∈ out.num_scheduled_tokens ∨
        (id ∈ s.scheduled_req_ids ∧ ∀ id' ∈ s.running, id' ∈ s'.running) := by
  obtain ⟨p, hs⟩ := schedule_spec h
  obtain ⟨-, ⟨w, hp⟩ | ⟨i, hd⟩⟩ := run_loops_spec hc hroom hs.loops
  · refine ⟨fun id n hn => ?_, fun id hid => ?_, fun id hid => ?_⟩
    · rw [hs.counts] at hn
      have := (hp.counts id n hn).1
      omega
    · rw [hs.running]
      rw [hs.counts] at hid
      exact hp.mem_running hid
    · rw [hs.scheduled] at hid
      rcases (hp.scheduled id).mp hid with hm | hm
      · right
        refine ⟨hm, fun id' hid' => ?_⟩
        obtain ⟨l, hl, -⟩ := hp.running
        rw [hs.running, hl]
        exact List.mem_append_left _ hid'
      · left
        rwa [hs.counts]
  · refine ⟨fun id n hn => ?_, fun id hid => ?_, fun id hid => ?_⟩
    · rw [hs.counts] at hn
      exact (hd.counts id n hn).1
    · rw [hs.running]
      rw [hs.counts] at hid
      obtain ⟨j, -, hj⟩ := hd.processed id hid
      exact List.mem_of_getElem? hj
    · rw [hs.scheduled] at hid
      left
      rw [hs.counts]
      exact (hd.scheduled id).mp hid

theorem Counted.step (h : Counted e) (hsound : Sound cfg e) (hs : Steps cfg base e op e') :
    Counted e' := by
  cases hs with
  | schedule hs =>
      intro out hout
      rcases List.mem_append.mp hout with hm | hm
      · exact h out hm
      · rw [List.mem_singleton.mp hm]
        exact (schedule_counts hsound.consistent hsound.room hs).1
  | _ => exact h

-- A step that issues nothing and updates nothing leaves the pending steps.
theorem LastPending.congr {id : ReqId} (h : LastPending e id) (hissued : e'.issued = e.issued)
    (hupdated : e'.updated = e.updated) : LastPending e' id := by
  unfold LastPending
  rw [hissued, hupdated]
  exact h

theorem Guarded.schedule {out : Output} {s : Scheduler K} (h : Guarded e) (hsound : Sound cfg e)
    (hs : AscendScheduler.schedule cfg base e.scheduler = .ok (out, s)) :
    Guarded { e with scheduler := s, issued := e.issued ++ [out] } := by
  obtain ⟨-, hrun, hfrom⟩ := schedule_counts hsound.consistent hsound.room hs
  intro id hid
  by_cases hkey : id ∈ out.num_scheduled_tokens
  · refine ⟨hrun id hkey, e.issued.length, out, by simp, hkey, fun hu => ?_, fun j out' hj hout' => ?_⟩
    · have := hsound.updated _ hu
      omega
    · have := (List.getElem?_eq_some_iff.mp hout').1
      rw [List.length_append, List.length_singleton] at this
      omega
  · obtain ⟨hold, hkept⟩ := (hfrom id hid).resolve_left hkey
    obtain ⟨hr, i, out₀, hout₀, hkey₀, hi, hlast⟩ := h id hold
    refine ⟨hkept id hr, i, out₀, ?_, hkey₀, hi, fun j out' hj hout' => ?_⟩
    · rw [List.getElem?_append_left (List.getElem?_eq_some_iff.mp hout₀).1]
      exact hout₀
    · dsimp only at hout'
      rw [List.getElem?_append] at hout'
      split at hout'
      · exact hlast j out' hj hout'
      · obtain rfl := List.mem_singleton.mp (List.mem_of_getElem? hout')
        exact hkey

theorem Guarded.update {i : Nat} {model_runner_output : ModelRunnerOutput LP} {out : Output}
    {ids : Finset ReqId} {s : Scheduler K} {stopped : Finset ReqId} (h : Guarded e)
    (hcount : Counted e) (hout : e.issued[i]? = some out)
    (hids : ∀ id, id ∈ ids ↔ id ∈ e.scheduler.scheduled_req_ids ∧
      ¬(id ∈ e.scheduler.running ∧ (out.num_scheduled_tokens.lookup id).getD 0 ≠ 0))
    (hu : UpdatedBy cfg { e.scheduler with scheduled_req_ids := ids } s out model_runner_output
      stopped) : Guarded { e with scheduler := s, updated := insert i e.updated } := by
  intro id hid
  rw [hu.scheduled] at hid
  obtain ⟨hold, hnot⟩ := (hids id).mp hid
  obtain ⟨hr, j, out₀, hout₀, hkey₀, hj, hlast⟩ := h id hold
  have hkey : id ∉ out.num_scheduled_tokens := by
    intro hkey
    obtain ⟨n, hn⟩ := (Dict.mem_iff _ _).mp hkey
    apply hnot
    refine ⟨hr, ?_⟩
    rw [hn]
    exact hcount out (List.mem_of_getElem? hout) id n hn
  refine ⟨?_, j, out₀, hout₀, hkey₀, ?_, hlast⟩
  · rw [hu.running, List.mem_filter, decide_eq_true_iff]
    exact ⟨hr, fun hstop => hkey (hu.stopped_scheduled id hstop)⟩
  · rw [Finset.mem_insert, not_or]
    refine ⟨?_, hj⟩
    rintro rfl
    obtain rfl := Option.some.inj (hout₀.symm.trans hout)
    exact hkey hkey₀

-- What finishing requests leaves in the set, as far as it still runs.
theorem guarded_finish_iff {request_ids : RequestIds} {status : RequestStatus}
    {ids : Finset ReqId} {s : Scheduler K} (h : Guarded e) (hsound : Sound cfg e)
    (hids : ∀ id, id ∈ ids ↔ id ∈ e.scheduler.scheduled_req_ids ∧
      ¬(id ∈ request_ids.traverse ∧ id ∈ e.scheduler.requests ∧
        (e.scheduler.objs id).status = .RUNNING))
    (hf : FinishedBy { e.scheduler with scheduled_req_ids := ids } s request_ids.rest.named
      status) :
    Guarded { e with scheduler := s } ↔ ∀ id ∈ e.scheduler.scheduled_req_ids,
      id ∈ request_ids.rest.named → id ∈ request_ids.traverse := by
  -- a scheduled request is registered and running
  have hrunning : ∀ id ∈ e.scheduler.scheduled_req_ids, id ∈ e.scheduler.running ∧
      id ∈ e.scheduler.requests ∧ (e.scheduler.objs id).status = .RUNNING := by
    intro id hid
    have hr := (h id hid).1
    exact ⟨hr, hsound.consistent.registered id (List.mem_append_right _ hr),
      hsound.consistent.running_status id hr⟩
  constructor
  · intro hg id hid hnamed
    by_contra hnot
    obtain ⟨hr, hreg, hstatus⟩ := hrunning id hid
    have hin : id ∈ s.scheduled_req_ids := by
      rw [hf.scheduled]
      exact (hids id).mpr ⟨hid, fun hm => hnot hm.1⟩
    have hr' := (hg id hin).1
    rw [hf.running, List.mem_filter, decide_eq_true_iff] at hr'
    exact hr'.2 ⟨hnamed, hreg, by rw [hstatus]; decide⟩
  · intro hall id hid
    rw [hf.scheduled] at hid
    obtain ⟨hold, hnot⟩ := (hids id).mp hid
    obtain ⟨hr, hreg, hstatus⟩ := hrunning id hold
    refine ⟨?_, (h id hold).2⟩
    rw [hf.running, List.mem_filter, decide_eq_true_iff]
    exact ⟨hr, fun hhit => hnot ⟨hall id hold hhit.1, hreg, hstatus⟩⟩

-- The base class finishes what its argument names, and the plugin what is left of it.
theorem sameFinish_iff {request_ids : RequestIds} {status : RequestStatus}
    (hl : base.Lawful cfg) (hsound : Sound cfg e) (hstatus : status.is_finished) :
    SameFinish base e (.finish_requests request_ids status) ↔
      ∀ id, e.scheduler.Hits request_ids.rest.named id ↔ e.scheduler.Hits request_ids.named id := by
  have hmid := hsound.consistent.setScheduled
    (discard_running e.scheduler request_ids.traverse).scheduled_req_ids
  obtain ⟨s, hs, hf⟩ := hl.finish_requests _ request_ids.rest status hmid hstatus
  obtain ⟨s', hs', hf'⟩ := hl.finish_requests _ request_ids status hsound.consistent hstatus
  have hplugin : AscendScheduler.finish_requests base e.scheduler request_ids status = some s := by
    unfold AscendScheduler.finish_requests
    rw [discard_running_eq]
    exact hs
  -- an unfinished request is finished exactly when it is named
  have hfin : ∀ id, ((s.objs id).status.is_finished ↔ (s'.objs id).status.is_finished) ↔
      (e.scheduler.Hits request_ids.rest.named id ↔ e.scheduler.Hits request_ids.named id) := by
    intro id
    rw [hf.objs, hf'.objs]
    have hhits : Scheduler.Hits { e.scheduler with
        scheduled_req_ids := (discard_running e.scheduler request_ids.traverse).scheduled_req_ids }
        request_ids.rest.named id ↔ e.scheduler.Hits request_ids.rest.named id := Iff.rfl
    rw [if_congr hhits rfl rfl]
    by_cases hrest : e.scheduler.Hits request_ids.rest.named id
    · rw [if_pos hrest]
      by_cases hnamed : e.scheduler.Hits request_ids.named id
      · rw [if_pos hnamed]
        simp [hrest, hnamed]
      · rw [if_neg hnamed]
        simp [hrest, hnamed, hstatus, hrest.2.2]
    · rw [if_neg hrest]
      by_cases hnamed : e.scheduler.Hits request_ids.named id
      · rw [if_pos hnamed]
        simp [hrest, hnamed, hstatus, hnamed.2.2]
      · rw [if_neg hnamed]
        simp [hrest, hnamed]
  constructor
  · intro h id
    exact (hfin id).mp (h s s' hplugin hs' id)
  · intro h s₁ s₂ hs₁ hs₂ id
    obtain rfl := Option.some.inj (hplugin.symm.trans hs₁)
    obtain rfl := Option.some.inj (hs'.symm.trans hs₂)
    exact (hfin id).mpr (h id)

theorem meets_iff {request_ids : RequestIds} {status : RequestStatus} (hl : base.Lawful cfg)
    (hsound : Sound cfg e) (hstatus : status.is_finished) :
    (∀ id ∈ e.scheduler.scheduled_req_ids, id ∈ request_ids.rest.named →
        id ∈ request_ids.traverse) ∧ SameFinish base e (.finish_requests request_ids status) ↔
      Meets e (.finish_requests request_ids status : Op K LP) := by
  rw [sameFinish_iff hl hsound hstatus]
  cases request_ids with
  | str s =>
      unfold Meets
      constructor
      · intro h
        by_cases hin : s ∈ e.scheduler.scheduled_req_ids
        · exact Or.inl (mem_traverse_str (h.1 s hin (List.mem_singleton.mpr rfl)))
        · exact Or.inr hin
      · intro h
        refine ⟨fun id hid hnamed => ?_, fun id => Iff.rfl⟩
        obtain rfl := List.mem_singleton.mp hnamed
        exact mem_traverse_self (h.resolve_right (not_not.mpr hid))
  | collection ids => exact ⟨fun _ => trivial, fun _ => ⟨fun _ _ hm => hm, fun id => Iff.rfl⟩⟩
  | iterator ids =>
      constructor
      · intro h id hid hreg
        by_contra hf
        exact absurd ((h.2 id).mpr ⟨hid, hreg, hf⟩).1 List.not_mem_nil
      · intro h
        refine ⟨fun id _ hm => absurd hm List.not_mem_nil, fun id => ?_⟩
        exact iff_of_false (fun hhit => absurd hhit.1 List.not_mem_nil)
          (fun hhit => hhit.2.2 (h id hhit.1 hhit.2.1))

theorem guarded_step_iff (hl : base.Lawful cfg) (h : Guarded e) (hsound : Sound cfg e)
    (hcount : Counted e) (hok : Allowed e op) (hs : Steps cfg base e op e') :
    (Guarded e' ∧ SameFinish base e op) ↔ Meets e op := by
  cases hs with
  | add_request hw hr hstatus ha =>
      refine iff_of_true ⟨fun id hid => ?_, trivial⟩ trivial
      rw [ha.scheduled] at hid
      rw [ha.running]
      exact h id hid
  | schedule hs => exact iff_of_true ⟨h.schedule hsound hs, trivial⟩ trivial
  | update_from_output hi hout hids hu =>
      exact iff_of_true ⟨h.update hcount hout hids hu, trivial⟩ trivial
  | finish_requests hstatus hids hf =>
      rw [guarded_finish_iff h hsound hids hf]
      exact meets_iff hl hsound hstatus
  | set_forced_mode | progress => exact iff_of_true ⟨h, trivial⟩ trivial

-- In every run whose calls of `finish_requests` meet the condition the guard holds, and a
-- further call keeps it exactly when it meets the condition too.
theorem guarded_iff (hl : base.Lawful cfg) {kv : K} {objs : ReqId → Request}
    (h : Run.Reachable (step cfg base) (fun e op => Allowed e op ∧ Meets e op) (init kv objs) e) :
    Guarded e ∧ ∀ (op : Op K LP) (e' : Engine K), Allowed e op → step cfg base e op = some e' →
      ((Guarded e' ∧ SameFinish base e op) ↔ Meets e op) := by
  have hinv : Sound cfg e ∧ Counted e ∧ Guarded e := by
    apply h.invariant (fun e => Sound cfg e ∧ Counted e ∧ Guarded e)
    · refine ⟨sound_init kv objs, fun out hout => ?_, fun id hid => ?_⟩
      · cases hout
      · simp [init] at hid
    · intro e op e' hinv hop hstep
      obtain ⟨hsound, hcount, hg⟩ := hinv
      obtain ⟨hok, hmeets⟩ := hop
      have hs := steps_of_step hl hsound.consistent hok hstep
      exact ⟨hsound.step hs, hcount.step hsound hs,
        ((guarded_step_iff hl hg hsound hcount hok hs).mpr hmeets).1⟩
  obtain ⟨hsound, hcount, hg⟩ := hinv
  refine ⟨hg, fun op e' hok hstep => ?_⟩
  exact guarded_step_iff hl hg hsound hcount hok (steps_of_step hl hsound.consistent hok hstep)

section Example

-- A request is scheduled, and aborted by its id.
def abortById : List (Op Pool Unit) :=
  [.add_request "req" (newRequest [5, 6, 7]), .schedule,
    .finish_requests (.str "req") .FINISHED_ABORTED]

def afterAbort : Engine Pool :=
  (Run.exec (step smallPool (poolBase smallPool)) Allowed start abortById).get
    (by decide +kernel)

-- Its id stays in the set, and it does not run any more.
theorem afterAbort_not_guarded :
    Run.Reachable (step smallPool (poolBase smallPool)) Allowed start afterAbort ∧
    ¬Guarded afterAbort := by
  refine ⟨.of_exec abortById .start (Option.some_get _).symm, fun h => ?_⟩
  have hin : "req" ∈ afterAbort.scheduler.scheduled_req_ids := by decide +kernel
  have hrun : afterAbort.scheduler.running = [] := by decide +kernel
  have := (h "req" hin).1
  rw [hrun] at this
  cases this

-- Aborted by a list of ids, it leaves the set.
def abortByList : List (Op Pool Unit) :=
  [.add_request "req" (newRequest [5, 6, 7]), .schedule,
    .finish_requests (.collection ["req"]) .FINISHED_ABORTED]

def afterListAbort : Engine Pool :=
  (Run.exec (step smallPool (poolBase smallPool)) (fun e op => Allowed e op ∧ Meets e op) start
    abortByList).get (by decide +kernel)

theorem afterListAbort_guarded : Guarded afterListAbort :=
  (guarded_iff (poolBase_lawful smallPool)
    (.of_exec abortByList .start (Option.some_get _).symm)).1

end Example

end TTXla.VllmTT.AscendScheduler.Engine
