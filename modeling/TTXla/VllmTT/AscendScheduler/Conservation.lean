import TTXla.VllmTT.AscendScheduler.Engine

-- No request is lost between the queues.
namespace TTXla.VllmTT.AscendScheduler

open Excepts (bind_eq_ok get_eq_ok)

variable {K LP : Type} {cfg : Config} {base : Base K LP}

-- What a call of `schedule` does to the requests that are registered and not finished: they are
-- in one of the queues, once, or finished as too long and removed from everywhere.
structure Conserves (s s' : Scheduler K) : Prop where
  once : ∀ id ∈ s'.requests, ¬(s'.objs id).status.is_finished →
    (s'.waiting ++ s'.running).count id = 1
  kept : ∀ id ∈ s.requests, ¬(s.objs id).status.is_finished →
    ¬(s'.objs id).status.is_finished → id ∈ s'.requests
  ignored : ∀ id, ¬(s.objs id).status.is_finished → (s'.objs id).status.is_finished →
    (s'.objs id).status = .FINISHED_IGNORED
  removed : ∀ id ∈ s.requests, ¬(s.objs id).status.is_finished →
    (s'.objs id).status.is_finished → id ∉ s'.waiting ∧ id ∉ s'.running ∧ id ∉ s'.requests

-- The prefill loop comes to a request that is longer than the prompt limit.
def ReachesTooLong (cfg : Config) (base : Base K LP) (s : Scheduler K) : Prop :=
  ∃ id w p kv request, PrefillSteps cfg base (s.waiting, Pass.start cfg s) (id :: w, p) ∧
    Decides cfg base p id kv request .ignore

-- A step changes the request that it takes from the queue only.
theorem PrefillStep.other {q q' : List ReqId × Pass K} (h : PrefillStep cfg base q q') {id : ReqId}
    (hid : id ∉ q.1) : q'.2.self.objs id = q.2.self.objs id ∧ id ∉ q'.1 := by
  cases h with
  | skip hd =>
      rw [List.mem_cons, not_or] at hid
      exact ⟨Function.update_of_ne hid.1 _ _, hid.2⟩
  | ignore hd | load hd =>
      rw [List.mem_cons, not_or] at hid
      exact ⟨(Function.update_of_ne hid.1 _ _).trans (Function.update_of_ne hid.1 _ _), hid.2⟩
  | enter hd henter =>
      rw [List.mem_cons, not_or] at hid
      exact ⟨((enter_spec henter).other id hid.1).trans (Function.update_of_ne hid.1 _ _), hid.2⟩

theorem prefillSteps_other {q q' : List ReqId × Pass K} (h : PrefillSteps cfg base q q')
    {id : ReqId} (hid : id ∉ q.1) : q'.2.self.objs id = q.2.self.objs id ∧ id ∉ q'.1 := by
  induction h with
  | refl => exact ⟨rfl, hid⟩
  | tail _ hstep ih =>
      obtain ⟨h1, h2⟩ := hstep.other ih.2
      exact ⟨h1.trans ih.1, h2⟩

theorem PrefillEnds.other {w : List ReqId} {p p' : Pass K} (h : PrefillEnds cfg base w p p')
    {id : ReqId} (hid : id ∉ w) : p'.self.objs id = p.self.objs id := by
  cases h with
  | done => rfl
  | stop hd =>
      rw [List.mem_cons, not_or] at hid
      exact Function.update_of_ne hid.1 _ _

-- The decode loop preempts running requests, and leaves the status of the others.
theorem preempt_status (base : Base K LP) {p : Pass K} {victim : ReqId}
    (hlast : p.self.running.getLast? = some victim) (id : ReqId) :
    let p' := p.preempt base p.self.running.dropLast victim
    ((p'.self.objs id).status = (p.self.objs id).status ∨
      (id ∈ p.self.running ∧ (p'.self.objs id).status = .PREEMPTED)) ∧
    (id ∈ p'.self.running → id ∈ p.self.running) := by
  refine ⟨?_, List.mem_of_mem_dropLast⟩
  by_cases he : id = victim
  · subst he
    refine Or.inr ⟨List.mem_of_getLast? hlast, ?_⟩
    simp [Pass.preempt, Pass.setRequest, Scheduler.setRequest]
  · left
    simp [Pass.preempt, Pass.setRequest, Scheduler.setRequest, he]

theorem allocate_or_preempt_status {fuel : Nat} {p p' : Pass K} {id₀ : ReqId} {n : Int}
    {r : Option KVCacheBlocks} (h : allocate_or_preempt cfg base fuel p id₀ n = .ok (p', r))
    (id : ReqId) : ((p'.self.objs id).status = (p.self.objs id).status ∨
      (id ∈ p.self.running ∧ (p'.self.objs id).status = .PREEMPTED)) ∧
    (id ∈ p'.self.running → id ∈ p.self.running) := by
  induction fuel generalizing p with
  | zero => cases h
  | succ fuel ih =>
      unfold allocate_or_preempt at h
      dsimp only at h
      split at h
      · cases h
        exact ⟨Or.inl rfl, fun hm => hm⟩
      · obtain ⟨victim, hlast, h⟩ := bind_eq_ok.mp h
        have hlast := get_eq_ok.mp hlast
        have hpre := preempt_status base hlast id
        dsimp only at hpre
        split at h
        · cases h
          exact hpre
        · obtain ⟨h1, h2⟩ := ih h
          refine ⟨?_, fun hm => hpre.2 (h2 hm)⟩
          rcases h1 with h1 | ⟨h1, h3⟩
          · rw [h1]
            exact hpre.1
          · exact Or.inr ⟨hpre.2 h1, h3⟩

theorem trimSpec_status (p : Pass K) (id id' : ReqId) (n : Int) :
    ((p.trimSpec id n).self.objs id').status = (p.self.objs id').status ∧
      (p.trimSpec id n).self.running = p.self.running := by
  unfold Pass.trimSpec
  dsimp only
  split
  · refine ⟨?_, rfl⟩
    by_cases he : id' = id
    · subst he
      simp [Pass.setRequest, Scheduler.setRequest]
    · simp [Pass.setRequest, Scheduler.setRequest, he]
  · exact ⟨rfl, rfl⟩

theorem decode_loop_status {fuel i : Nat} {p p' : Pass K}
    (h : decode_loop cfg base fuel i p = .ok p') (id : ReqId) :
    (p'.self.objs id).status = (p.self.objs id).status ∨
      (id ∈ p.self.running ∧ (p'.self.objs id).status = .PREEMPTED) := by
  induction fuel generalizing i p with
  | zero =>
      cases h
      exact Or.inl rfl
  | succ fuel ih =>
      unfold decode_loop at h
      split at h
      · cases h
        exact Or.inl rfl
      split at h
      · cases h
        exact Or.inl rfl
      split at h
      · exact ih h
      obtain ⟨n, -, h⟩ := bind_eq_ok.mp h
      split at h
      · exact ih h
      obtain ⟨⟨p₁, r⟩, halloc, h⟩ := bind_eq_ok.mp h
      obtain ⟨h1, h2⟩ := allocate_or_preempt_status halloc id
      cases r with
      | none =>
          cases h
          exact h1
      | some blocks =>
          obtain ⟨hstatus, hrunning⟩ := trimSpec_status (p₁.record cfg _ n blocks) _ id n
          rcases ih h with h3 | ⟨h3, h4⟩
          · rw [h3, hstatus]
            exact h1
          · rw [hrunning] at h3
            exact Or.inr ⟨h2 h3, h4⟩

section Schedule

variable {s s' : Scheduler K} {out : Output}

-- Without such a request the loop finishes nothing.
theorem prefillSteps_unfinished (hc : Consistent s)
    (hroom : s.running.length ≤ cfg.max_num_running_reqs) (hno : ¬ReachesTooLong cfg base s)
    {q : List ReqId × Pass K} (h : PrefillSteps cfg base (s.waiting, Pass.start cfg s) q)
    (id : ReqId) (hf : ¬(s.objs id).status.is_finished) :
    ¬(q.2.self.objs id).status.is_finished := by
  induction h with
  | refl => exact hf
  | tail hsteps hstep ih =>
      have hp := (prefilling_start hc hroom).steps hsteps
      have hp' := hp.step hstep
      rcases hp'.fate id hf with h | h
      · exact h
      · -- the status comes from this step
        cases hstep with
        | @ignore id' w p kv request hd =>
            exact absurd ⟨id', w, p, kv, request, hsteps, hd⟩ hno
        | @skip id' w p kv request hd =>
            by_cases he : id = id'
            · subst he
              exact hp'.queued.unfinished (by simp [Pass.skip])
            · change ¬(Function.update p.self.objs id' request id).status.is_finished
              rw [Function.update_of_ne he]
              exact ih
        | @load id' w p kv request hd =>
            by_cases he : id = id'
            · subst he
              exact hp'.queued.unfinished (by simp [Pass.load, Pass.skip, Pass.setStatus,
                Pass.setRequest])
            · change ¬(Function.update (Function.update p.self.objs id' request) id' _
                id).status.is_finished
              rw [Function.update_of_ne he, Function.update_of_ne he]
              exact ih
        | @enter id' w p p' kv request c n blocks hd henter =>
            by_cases he : id = id'
            · subst he
              rw [(enter_spec henter).status]
              decide
            · dsimp only
              rw [(enter_spec henter).other id he]
              change ¬(Function.update p.self.objs id' request id).status.is_finished
              rw [Function.update_of_ne he]
              exact ih

-- The status of a request after the loops, from that after the prefill steps.
theorem run_loops_status {p : Pass K} (hp : run_loops cfg base s = .ok p) :
    ∃ w p₀ p₁, PrefillSteps cfg base (s.waiting, Pass.start cfg s) (w, p₀) ∧
      prefill_loop cfg base s.waiting (Pass.start cfg s) = .ok p₁ ∧
      PrefillEnds cfg base w p₀ p₁ ∧
      ∀ id, (p.self.objs id).status = (p₁.self.objs id).status ∨
        (id ∈ p₁.self.running ∧ (p.self.objs id).status = .PREEMPTED) := by
  obtain ⟨p₁, hp₁, hp⟩ := bind_eq_ok.mp hp
  obtain ⟨w, p₀, hsteps, hends⟩ := prefill_loop_steps hp₁
  refine ⟨w, p₀, p₁, hsteps, hp₁, hends, fun id => ?_⟩
  dsimp only at hp
  split at hp
  · exact decode_loop_status hp id
  · cases hp
    exact Or.inl rfl

-- A request that is too long is finished, and stays registered.
theorem finished_of_reachesTooLong (hc : Consistent s)
    (hroom : s.running.length ≤ cfg.max_num_running_reqs)
    (hs : schedule cfg base s = .ok (out, s')) (h : ReachesTooLong cfg base s) :
    ∃ id ∈ s.requests, ¬(s.objs id).status.is_finished ∧
      (s'.objs id).status = .FINISHED_IGNORED ∧ id ∈ s'.requests := by
  obtain ⟨id, w, p, kv, request, hsteps, hd⟩ := h
  obtain ⟨pf, hsched⟩ := schedule_spec hs
  have hp := (prefilling_start hc hroom).steps hsteps
  have hmem : id ∈ p.skipped_waiting_requests ++ id :: w ++ p.self.running := by simp
  have hreg : id ∈ s.requests := hp.requests ▸ hp.queued.registered id hmem
  have hstart : id ∈ s.waiting ++ s.running := by
    apply hc.complete id hreg
    intro hf
    -- a finished request is in no queue, and its object is not touched
    have hnot : id ∉ s.waiting := fun hw =>
      RequestStatus.not_finished_of_waiting (hc.waiting_status id hw) hf
    have := (prefillSteps_other hsteps hnot).2
    exact this List.mem_cons_self
  refine ⟨id, hreg, hc.unfinished hstart, ?_, ?_⟩
  · obtain ⟨w₀, p₀, p₁, -, hp₁, -, hstatus⟩ := run_loops_status hsched.loops
    have hloop := prefill_loop_eq (hsteps.tail (.ignore hd))
    dsimp only at hloop
    rw [hp₁] at hloop
    obtain ⟨w₁, p₂, hsteps₁, hends₁⟩ := prefill_loop_steps hloop.symm
    have hnot : id ∉ w := by
      have hnodup := hp.queued.nodup
      intro hw
      rw [List.append_assoc, List.nodup_append] at hnodup
      have := (List.nodup_append.mp hnodup.2.1).1
      exact (List.nodup_cons.mp this).1 hw
    obtain ⟨h1, h2⟩ := prefillSteps_other hsteps₁ hnot
    have hself : (p₁.self.objs id).status = .FINISHED_IGNORED := by
      rw [hends₁.other h2, h1]
      simp [Pass.ignore, Pass.setStatus, Pass.setRequest, Scheduler.setRequest]
    obtain ⟨w₂, hpref, hcons⟩ := prefill_loop_spec hc hroom hp₁
    rw [hsched.status]
    rcases hstatus id with h3 | ⟨h3, -⟩
    · rw [h3, hself]
    · have := hpref.queued.running_status id h3
      change (p₁.self.objs id).status = _ at this
      rw [hself] at this
      cases this
  · rw [hsched.requests]
    obtain ⟨-, ⟨w', hp'⟩ | ⟨i, hd'⟩⟩ := run_loops_spec hc hroom hsched.loops
    · rw [hp'.requests]
      exact hreg
    · rw [hd'.requests]
      exact hreg

theorem conserves_iff_of_consistent (hc : Consistent s)
    (hroom : s.running.length ≤ cfg.max_num_running_reqs)
    (hs : schedule cfg base s = .ok (out, s')) :
    Conserves s s' ↔ ¬ReachesTooLong cfg base s := by
  obtain ⟨hc', -⟩ := schedule_consistent hc hroom hs
  obtain ⟨p, hsched⟩ := schedule_spec hs
  obtain ⟨-, hloops⟩ := run_loops_spec hc hroom hsched.loops
  have hrequests : s'.requests = s.requests := by
    rw [hsched.requests]
    rcases hloops with ⟨w, hp⟩ | ⟨i, hd⟩
    · exact hp.requests
    · exact hd.requests
  have hfate : ∀ id, ¬(s.objs id).status.is_finished → ¬(s'.objs id).status.is_finished ∨
      (s'.objs id).status = .FINISHED_IGNORED := by
    intro id hf
    rw [hsched.status]
    rcases hloops with ⟨w, hp⟩ | ⟨i, hd⟩
    · exact hp.fate id hf
    · exact hd.fate id hf
  constructor
  · intro h hlong
    obtain ⟨id, hreg, hf, hstatus, hreg'⟩ := finished_of_reachesTooLong hc hroom hs hlong
    exact (h.removed id hreg hf (by rw [hstatus]; rfl)).2.2 hreg'
  · intro hno
    have hunfinished : ∀ id, ¬(s.objs id).status.is_finished →
        ¬(s'.objs id).status.is_finished := by
      intro id hf
      obtain ⟨w, p₀, p₁, hsteps, hp₁, hends, hstatus⟩ := run_loops_status hsched.loops
      have hp := (prefilling_start hc hroom).steps hsteps
      have h₀ := prefillSteps_unfinished hc hroom hno hsteps id hf
      have h₁ : ¬(p₁.self.objs id).status.is_finished := by
        by_cases hw : id ∈ w
        · have hpe := hp.ends hends
          exact hpe.1.queued.unfinished (by simp [hw])
        · rw [hends.other hw]
          exact h₀
      rw [hsched.status]
      rcases hstatus id with h | ⟨-, h⟩
      · rwa [h]
      · rw [h]
        decide
    refine ⟨fun id hid hf => ?_, fun id hid _ _ => ?_, fun id hf hf' => ?_,
      fun id _ hf hf' => absurd hf' (hunfinished id hf)⟩
    · exact List.count_eq_one_of_mem hc'.nodup (hc'.complete id hid hf)
    · rwa [hrequests]
    · exact (hfate id hf).resolve_left (not_not.mpr hf')

end Schedule

-- In every run, a call of `schedule` conserves the requests exactly when no request that its
-- prefill loop comes to is too long.
theorem Engine.conserves_iff (hl : base.Lawful cfg) {kv : K} {objs : ReqId → Request}
    {e : Engine K} {s' : Scheduler K} {out : Output}
    (h : Run.Reachable (step cfg base) Allowed (init kv objs) e)
    (hs : schedule cfg base e.scheduler = .ok (out, s')) :
    Conserves e.scheduler s' ↔ ¬ReachesTooLong cfg base e.scheduler := by
  have hsound := sound_reachable hl h
  exact conserves_iff_of_consistent hsound.consistent hsound.room hs

section Example

open Engine (step start Allowed)

-- A prompt that is longer than a step is finished, and stays registered.
def addLong : List (Op Pool Unit) := [.add_request "long" (newRequest (List.replicate 9 1))]

def afterLong : Engine Pool :=
  (Run.exec (step smallPool (poolBase smallPool)) Allowed start addLong).get (by decide +kernel)

def ignoredLong : Output × Scheduler Pool :=
  (schedule smallPool (poolBase smallPool) afterLong.scheduler).toOption.get (by decide +kernel)

theorem ignoredLong_eq : schedule smallPool (poolBase smallPool) afterLong.scheduler =
    .ok (ignoredLong.1, ignoredLong.2) := by
  rw [Prod.mk.eta]
  exact Excepts.eq_ok_of_toOption (Option.some_get _).symm

theorem ignoredLong_not_conserves :
    Run.Reachable (step smallPool (poolBase smallPool)) Allowed start afterLong ∧
    schedule smallPool (poolBase smallPool) afterLong.scheduler =
      .ok (ignoredLong.1, ignoredLong.2) ∧
    ¬Conserves afterLong.scheduler ignoredLong.2 := by
  refine ⟨.of_exec addLong .start (Option.some_get _).symm, ignoredLong_eq, fun h => ?_⟩
  obtain ⟨-, -, hnot⟩ := h.removed "long" (by decide +kernel) (by decide +kernel)
    (by decide +kernel)
  exact hnot (by decide +kernel)

-- A short prompt is scheduled, and in `running` then.
def addShort : List (Op Pool Unit) := [.add_request "req" (newRequest [5, 6, 7])]

def afterShort : Engine Pool :=
  (Run.exec (step smallPool (poolBase smallPool)) Allowed start addShort).get (by decide +kernel)

def servedShort : Output × Scheduler Pool :=
  (schedule smallPool (poolBase smallPool) afterShort.scheduler).toOption.get (by decide +kernel)

theorem servedShort_eq : schedule smallPool (poolBase smallPool) afterShort.scheduler =
    .ok (servedShort.1, servedShort.2) := by
  rw [Prod.mk.eta]
  exact Excepts.eq_ok_of_toOption (Option.some_get _).symm

theorem not_reachesTooLong :
    ¬ReachesTooLong smallPool (poolBase smallPool) afterShort.scheduler := by
  rintro ⟨id, w, p, kv, request, hsteps, hd⟩
  have hwaiting : afterShort.scheduler.waiting = ["req"] := by decide +kernel
  rw [hwaiting] at hsteps
  rcases Relation.ReflTransGen.cases_head hsteps with he | ⟨q, hstep, hrest⟩
  · obtain ⟨hw, rfl⟩ := Prod.mk.inj he
    cases hw
    -- the request is scheduled
    have hv : (judge smallPool (poolBase smallPool) afterShort.scheduler.kv ∅ 8 "req"
        (afterShort.scheduler.objs "req")).toOption.map
        (fun r => match r.2.2 with | .ignore => true | _ => false) = some false := by
      decide +kernel
    have hjudge := hd.judge
    simp only [Pass.start, smallPool] at hjudge hv
    rw [show ((8 : Nat) : Int) = 8 from rfl] at hjudge
    rw [hjudge] at hv
    cases hv
  · have hnil : q.1 = [] := by
      cases hstep <;> rfl
    have hnot := (prefillSteps_other hrest (hnil ▸ List.not_mem_nil : id ∉ q.1)).2
    exact hnot List.mem_cons_self

theorem servedShort_conserves : Conserves afterShort.scheduler servedShort.2 :=
  (Engine.conserves_iff (poolBase_lawful smallPool)
    (.of_exec addShort .start (Option.some_get _).symm) servedShort_eq).mpr not_reachesTooLong

end Example

end TTXla.VllmTT.AscendScheduler
