import TTXla.VllmTT.AscendScheduler.Engine

-- The order of the waiting queue.
namespace TTXla.VllmTT.AscendScheduler

open Excepts (bind_eq_ok get_eq_ok)

variable {K LP : Type} {cfg : Config} {base : Base K LP} {s s' : Scheduler K}

-- How a call of `schedule` moves the requests: the preempted ones are put before those that are
-- left in the waiting queue, and both are in the order in which they were.
structure Moved (s s' : Scheduler K) (out : Output)
    (preempted kept entered ignored : List ReqId) : Prop where
  waiting : s'.waiting = preempted ++ kept
  order : kept.Sublist s.waiting
  left : s.waiting.Perm (kept ++ (entered ++ ignored))
  running : s.running ++ entered = s'.running ++ preempted
  separate : entered = [] ∨ preempted = []
  scheduled : ∀ id ∈ entered, id ∈ out.num_scheduled_tokens
  finished : ∀ id ∈ ignored, id ∈ out.finished_req_ids

-- What holds in the prefill loop: the skipped requests and the rest of the queue are in order.
structure Taking (s : Scheduler K) (entered ignored w : List ReqId) (p : Pass K) : Prop where
  order : (p.skipped_waiting_requests.reverse ++ w).Sublist s.waiting
  left : s.waiting.Perm (p.skipped_waiting_requests.reverse ++ w ++ (entered ++ ignored))
  running : p.self.running = s.running ++ entered
  scheduled : ∀ id ∈ entered, id ∈ p.num_scheduled_tokens ∧ id ∈ p.self.scheduled_req_ids
  finished : ∀ id ∈ ignored, id ∈ p.self.finished_req_ids

theorem enter_finished {p p' : Pass K} {id : ReqId} {c n : Nat} {blocks : KVCacheBlocks}
    (h : p.enter cfg id c n blocks = .ok p') :
    p'.self.finished_req_ids = p.self.finished_req_ids := by
  unfold Pass.enter at h
  dsimp only at h
  split at h
  · cases h
    rfl
  · cases h
    rfl
  · cases h

namespace Taking

variable {entered ignored w : List ReqId} {p p' : Pass K} {id : ReqId}

-- A request is skipped, or put aside.
theorem skip (h : Taking s entered ignored (id :: w) p)
    (hskipped : p'.skipped_waiting_requests = id :: p.skipped_waiting_requests)
    (hrunning : p'.self.running = p.self.running)
    (hcounts : p'.num_scheduled_tokens = p.num_scheduled_tokens)
    (hscheduled : p'.self.scheduled_req_ids = p.self.scheduled_req_ids)
    (hfinished : p'.self.finished_req_ids = p.self.finished_req_ids) :
    Taking s entered ignored w p' := by
  have hsame : p'.skipped_waiting_requests.reverse ++ w =
      p.skipped_waiting_requests.reverse ++ id :: w := by
    rw [hskipped, List.reverse_cons, List.append_assoc, List.singleton_append]
  refine ⟨?_, ?_, hrunning.trans h.running, ?_, ?_⟩
  · rw [hsame]
    exact h.order
  · rw [hsame]
    exact h.left
  · rw [hcounts, hscheduled]
    exact h.scheduled
  · rw [hfinished]
    exact h.finished

theorem order_tail (h : Taking s entered ignored (id :: w) p) :
    (p.skipped_waiting_requests.reverse ++ w).Sublist s.waiting :=
  ((List.sublist_cons_self id w).append_left _).trans h.order

theorem ignore (h : Taking s entered ignored (id :: w) p)
    (hskipped : p'.skipped_waiting_requests = p.skipped_waiting_requests)
    (hrunning : p'.self.running = p.self.running)
    (hcounts : p'.num_scheduled_tokens = p.num_scheduled_tokens)
    (hscheduled : p'.self.scheduled_req_ids = p.self.scheduled_req_ids)
    (hfinished : p'.self.finished_req_ids = p.self.finished_req_ids.insert id) :
    Taking s entered (id :: ignored) w p' := by
  refine ⟨?_, ?_, hrunning.trans h.running, ?_, fun id' hid' => ?_⟩
  · rw [hskipped]
    exact h.order_tail
  · rw [hskipped]
    refine h.left.trans ?_
    rw [List.append_assoc, List.append_assoc]
    refine List.Perm.append_left _ ?_
    rw [List.cons_append]
    refine List.perm_middle.symm.trans ?_
    exact List.Perm.append_left _ List.perm_middle.symm
  · rw [hcounts, hscheduled]
    exact h.scheduled
  · rw [hfinished, List.mem_insert_iff]
    cases hid' with
    | head => exact .inl rfl
    | tail _ hid' => exact .inr (h.finished id' hid')

theorem enter {n : Nat} (h : Taking s entered ignored (id :: w) p)
    (hskipped : p'.skipped_waiting_requests = p.skipped_waiting_requests)
    (hrunning : p'.self.running = p.self.running ++ [id])
    (hcounts : p'.num_scheduled_tokens = p.num_scheduled_tokens.insert id n)
    (hscheduled : p'.self.scheduled_req_ids = insert id p.self.scheduled_req_ids)
    (hfinished : p'.self.finished_req_ids = p.self.finished_req_ids) :
    Taking s (entered ++ [id]) ignored w p' := by
  refine ⟨?_, ?_, ?_, fun id' hid' => ?_, ?_⟩
  · rw [hskipped]
    exact h.order_tail
  · rw [hskipped]
    refine h.left.trans ?_
    rw [List.append_assoc, List.append_assoc, List.append_assoc, List.singleton_append]
    refine List.Perm.append_left _ ?_
    rw [List.cons_append]
    refine List.perm_middle.symm.trans ?_
    exact List.Perm.append_left _ List.perm_middle.symm
  · rw [hrunning, h.running, List.append_assoc]
  · rw [hcounts, hscheduled, AList.mem_insert, Finset.mem_insert]
    obtain hid' | hid' := List.mem_append.mp hid'
    · exact ⟨.inr (h.scheduled id' hid').1, .inr (h.scheduled id' hid').2⟩
    · exact ⟨.inl (List.mem_singleton.mp hid'), .inl (List.mem_singleton.mp hid')⟩
  · rw [hfinished]
    exact h.finished

theorem step {q q' : List ReqId × Pass K} (h : Taking s entered ignored q.1 q.2)
    (hstep : PrefillStep cfg base q q') :
    ∃ entered' ignored', Taking s entered' ignored' q'.1 q'.2 := by
  cases hstep with
  | skip hd => exact ⟨entered, ignored, h.skip rfl rfl rfl rfl rfl⟩
  | load hd => exact ⟨entered, ignored, h.skip rfl rfl rfl rfl rfl⟩
  | @ignore id w p kv request hd => exact ⟨entered, id :: ignored, h.ignore rfl rfl rfl rfl rfl⟩
  | @enter id w p p' kv request c n blocks hd henter =>
      have ha := enter_spec henter
      have hfinished : p'.self.finished_req_ids = (p.setRequest kv id request).self.finished_req_ids :=
        enter_finished henter
      exact ⟨entered ++ [id], ignored, h.enter ha.skipped ha.running ha.counts ha.scheduled
        hfinished⟩

theorem steps {q q' : List ReqId × Pass K} (h : Taking s entered ignored q.1 q.2)
    (hsteps : PrefillSteps cfg base q q') :
    ∃ entered' ignored', Taking s entered' ignored' q'.1 q'.2 := by
  induction hsteps with
  | refl => exact ⟨entered, ignored, h⟩
  | tail _ hstep ih =>
      obtain ⟨entered', ignored', ih⟩ := ih
      exact ih.step hstep

theorem start : Taking s [] [] s.waiting (Pass.start cfg s) where
  order := List.Sublist.refl _
  left := by simp [Pass.start]
  running := (List.append_nil _).symm
  scheduled _ hid := nomatch hid
  finished _ hid := nomatch hid

end Taking

-- What holds in the decode loop: the preempted requests stand before those that were waiting.
structure Preempting (running waiting : List ReqId) (finished : List ReqId)
    (preempted : List ReqId) (p : Pass K) : Prop where
  waiting : p.self.waiting = preempted ++ waiting
  running : running = p.self.running ++ preempted
  finished : p.self.finished_req_ids = finished

namespace Preempting

variable {running waiting finished preempted : List ReqId} {p p' : Pass K} {id : ReqId}

theorem setKv (h : Preempting running waiting finished preempted p) (kv : K) :
    Preempting running waiting finished preempted { p with self := { p.self with kv := kv } } :=
  ⟨h.waiting, h.running, h.finished⟩

theorem preempt (base : Base K LP) (h : Preempting running waiting finished preempted p)
    (hlast : p.self.running.getLast? = some id) :
    Preempting running waiting finished (id :: preempted)
      (p.preempt base p.self.running.dropLast id) := by
  have hsplit := List.dropLast_append_getLast? id hlast
  refine ⟨?_, ?_, h.finished⟩
  · change id :: p.self.waiting = _
    rw [h.waiting, List.cons_append]
  · change running = p.self.running.dropLast ++ id :: preempted
    rw [h.running, ← List.singleton_append, ← List.append_assoc, hsplit]

theorem allocate (fuel : Nat) {n : Int} {r : Option KVCacheBlocks}
    (h : Preempting running waiting finished preempted p)
    (hr : allocate_or_preempt cfg base fuel p id n = .ok (p', r)) :
    ∃ preempted', Preempting running waiting finished preempted' p' := by
  induction fuel generalizing p preempted with
  | zero => cases hr
  | succ fuel ih =>
      unfold allocate_or_preempt at hr
      dsimp only at hr
      split at hr
      · cases hr
        exact ⟨preempted, h.setKv _⟩
      · obtain ⟨victim, hlast, hr⟩ := bind_eq_ok.mp hr
        have hpre := (h.setKv (base.allocate_slots p.self.kv id (p.self.objs id) n 0 none
          cfg.num_lookahead_tokens false).1).preempt base (get_eq_ok.mp hlast)
        split at hr
        · cases hr
          exact ⟨_, hpre⟩
        · exact ih hpre hr

theorem record (h : Preempting running waiting finished preempted p) (n : Int)
    (blocks : KVCacheBlocks) :
    Preempting running waiting finished preempted ((p.record cfg id n blocks).trimSpec id n) := by
  unfold Pass.trimSpec
  dsimp only
  split
  · exact ⟨h.waiting, h.running, h.finished⟩
  · exact ⟨h.waiting, h.running, h.finished⟩

theorem decode (fuel i : Nat) (h : Preempting running waiting finished preempted p)
    (hr : decode_loop cfg base fuel i p = .ok p') :
    ∃ preempted', Preempting running waiting finished preempted' p' := by
  induction fuel generalizing i p preempted with
  | zero =>
      cases hr
      exact ⟨preempted, h⟩
  | succ fuel ih =>
      unfold decode_loop at hr
      split at hr
      · cases hr
        exact ⟨preempted, h⟩
      · split at hr
        · cases hr
          exact ⟨preempted, h⟩
        split at hr
        · exact ih _ h hr
        obtain ⟨n, hn, hr⟩ := bind_eq_ok.mp hr
        split at hr
        · exact ih _ h hr
        obtain ⟨⟨p₁, r⟩, halloc, hr⟩ := bind_eq_ok.mp hr
        obtain ⟨preempted₁, h₁⟩ := h.allocate _ halloc
        cases r with
        | none =>
            cases hr
            exact ⟨preempted₁, h₁⟩
        | some blocks => exact ih _ (h₁.record n blocks) hr

end Preempting

theorem prefill_loop_taking {p : Pass K}
    (hp : prefill_loop cfg base s.waiting (Pass.start cfg s) = .ok p) :
    ∃ entered ignored, Taking s entered ignored p.self.waiting p := by
  obtain ⟨w, p₀, hsteps, hends⟩ := prefill_loop_steps hp
  obtain ⟨entered, ignored, h⟩ := Taking.start.steps hsteps
  cases hends with
  | done => exact ⟨entered, ignored, h.order, h.left, h.running, h.scheduled, h.finished⟩
  | stop hd => exact ⟨entered, ignored, h.order, h.left, h.running, h.scheduled, h.finished⟩

-- The queues after a call.
theorem schedule_moved {out : Output} (h : schedule cfg base s = .ok (out, s')) :
    ∃ preempted kept entered ignored, Moved s s' out preempted kept entered ignored := by
  obtain ⟨p, hs⟩ := schedule_spec h
  obtain ⟨p₀, hp₀, hp⟩ := bind_eq_ok.mp hs.loops
  obtain ⟨entered, ignored, ht⟩ := prefill_loop_taking hp₀
  have hwaiting : p₀.putBack.self.waiting =
      p₀.skipped_waiting_requests.reverse ++ p₀.self.waiting := extendleft_eq _ _
  have hfinished : out.finished_req_ids = p.self.finished_req_ids := by
    obtain ⟨new_reqs_data, -, hout⟩ := bind_eq_ok.mp hs.output
    cases hout
    rfl
  dsimp only at hp
  split at hp
  · rename_i hidle
    have hnone : entered = [] := by
      rw [List.eq_nil_iff_forall_not_mem]
      intro id hid
      have hempty : p₀.self.scheduled_req_ids = ∅ := hidle.1
      have hmem := (ht.scheduled id hid).2
      rw [hempty] at hmem
      exact Finset.notMem_empty id hmem
    subst hnone
    have hstart : Preempting s.running p₀.putBack.self.waiting p₀.self.finished_req_ids []
        p₀.putBack := by
      refine ⟨rfl, ?_, rfl⟩
      rw [List.append_nil]
      exact (ht.running.trans (List.append_nil _)).symm
    obtain ⟨preempted, hd⟩ := hstart.decode _ _ hp
    refine ⟨preempted, _, [], ignored, ?_, ht.order, ht.left, ?_, .inl rfl,
      fun id hid => (nomatch hid), fun id hid => ?_⟩
    · rw [hs.waiting, hd.waiting, hwaiting]
    · rw [List.append_nil, hs.running]
      exact hd.running
    · rw [hfinished, hd.finished]
      exact ht.finished id hid
  · cases hp
    refine ⟨[], _, entered, ignored, ?_, ht.order, ht.left, ?_, .inr rfl, fun id hid => ?_,
      fun id hid => ?_⟩
    · rw [hs.waiting, hwaiting, List.nil_append]
    · rw [hs.running, List.append_nil]
      exact ht.running.symm
    · rw [hs.counts]
      exact (ht.scheduled id hid).1
    · rw [hfinished]
      exact ht.finished id hid

-- `a` is before `b` in the waiting queue.
def Before (a b : ReqId) (s : Scheduler K) : Prop := [a, b].Sublist s.waiting

-- A request that waits before and after a call was not taken from the queue.
theorem Moved.mem_kept {out : Output} {preempted kept entered ignored : List ReqId} {id : ReqId}
    (h : Moved s s' out preempted kept entered ignored) (hc : Consistent s)
    (hid : id ∈ s.waiting) (hid' : id ∈ s'.waiting) : id ∈ kept := by
  rw [h.waiting, List.mem_append] at hid'
  refine hid'.resolve_left fun hpre => ?_
  obtain hnone | hnone := h.separate
  · have hrunning := h.running
    rw [hnone, List.append_nil] at hrunning
    have hmem : id ∈ s.running := by
      rw [hrunning]
      exact List.mem_append_right _ hpre
    exact (List.nodup_append.mp hc.nodup).2.2 id hid id hmem rfl
  · rw [hnone] at hpre
    cases hpre

-- Two elements that a part of a list keeps are in their order there.
theorem sublist_pair_of_mem {a b : ReqId} {l kept : List ReqId} (hab : [a, b].Sublist l)
    (hnd : l.Nodup) (hkept : kept.Sublist l) (ha : a ∈ kept) (hb : b ∈ kept) :
    [a, b].Sublist kept := by
  induction hkept with
  | slnil => cases ha
  | @cons kept l id hkept ih =>
      obtain ⟨hid, hnd⟩ := List.nodup_cons.mp hnd
      obtain hab | ⟨r, heq, -⟩ := List.sublist_cons_iff.mp hab
      · exact ih hab hnd ha hb
      · cases heq
        exact absurd (hkept.subset ha) hid
  | @cons_cons kept l id hkept ih =>
      obtain ⟨hid, hnd⟩ := List.nodup_cons.mp hnd
      have hrest : ∀ c ∈ l, c ∈ id :: kept → c ∈ kept := fun c hc hmem => by
        cases hmem with
        | head => exact absurd hc hid
        | tail _ hmem => exact hmem
      obtain hab | ⟨r, heq, hr⟩ := List.sublist_cons_iff.mp hab
      · have ha' := hrest a (hab.subset List.mem_cons_self) ha
        have hb' := hrest b (hab.subset (List.mem_cons_of_mem _ List.mem_cons_self)) hb
        exact (ih hab hnd ha' hb').cons _
      · cases heq
        have hb' := hrest b (hr.subset List.mem_cons_self) hb
        exact (List.singleton_sublist.mpr hb').cons_cons _

-- Two requests that stay in the queue keep their order when the queue is a part of what it was.
theorem Before.of_part {a b : ReqId} {kept : List ReqId} (h : Before a b s) (hc : Consistent s)
    (hkept : kept.Sublist s.waiting) (ha : a ∈ kept) (hb : b ∈ kept)
    (hwaiting : kept.Sublist s'.waiting) : Before a b s' :=
  (sublist_pair_of_mem h (List.nodup_append.mp hc.nodup).1 hkept ha hb).trans hwaiting

namespace Engine

variable {e e' : Engine K} {op : Op K LP} {a b : ReqId}

-- Two requests are in the waiting queue.
def BothWait (a b : ReqId) (e : Engine K) : Prop :=
  a ∈ e.scheduler.waiting ∧ b ∈ e.scheduler.waiting

instance (a b : ReqId) (e : Engine K) : Decidable (BothWait a b e) :=
  inferInstanceAs (Decidable (_ ∧ _))

-- The steps after which both requests are still in the waiting queue.
def waiting_step (cfg : Config) (base : Base K LP) (a b : ReqId) (e : Engine K) (op : Op K LP) :
    Option (Engine K) :=
  (step cfg base e op).filter fun e' => BothWait a b e'

theorem before_step (hsound : Sound cfg e) (h : Before a b e.scheduler)
    (hs : Steps cfg base e op e') (hwait : BothWait a b e') : Before a b e'.scheduler := by
  obtain ⟨ha, hb⟩ := hwait
  have ha₀ : a ∈ e.scheduler.waiting := h.subset List.mem_cons_self
  have hb₀ : b ∈ e.scheduler.waiting := h.subset (List.mem_cons_of_mem _ List.mem_cons_self)
  cases hs with
  | add_request hw hr hstatus hadd =>
      refine h.of_part hsound.consistent (.refl _) ha₀ hb₀ ?_
      rw [hadd.waiting]
      exact List.sublist_append_left _ _
  | schedule hs =>
      obtain ⟨preempted, kept, entered, ignored, hm⟩ := schedule_moved hs
      refine h.of_part hsound.consistent hm.order (hm.mem_kept hsound.consistent ha₀ ha)
        (hm.mem_kept hsound.consistent hb₀ hb) ?_
      dsimp only
      rw [hm.waiting]
      exact List.sublist_append_right _ _
  | update_from_output hi hout hids hu =>
      dsimp only at ha hb ⊢
      have hpart := hu.waiting
      refine h.of_part hsound.consistent ?_ ha hb (.refl _)
      rw [hpart]
      exact List.filter_sublist
  | finish_requests hstatus hids hf =>
      dsimp only at ha hb ⊢
      have hpart := hf.waiting
      refine h.of_part hsound.consistent ?_ ha hb (.refl _)
      rw [hpart]
      exact List.filter_sublist
  | set_forced_mode => exact h
  | progress => exact h

-- Both hold in the whole run.
theorem before_reachable (hl : base.Lawful cfg) (hsound : Sound cfg e)
    (h : Before a b e.scheduler)
    (hrun : Run.Reachable (waiting_step cfg base a b) Allowed e e') :
    Sound cfg e' ∧ Before a b e'.scheduler := by
  refine hrun.invariant (fun e => Sound cfg e ∧ Before a b e.scheduler) ⟨hsound, h⟩ ?_
  intro e op e' ⟨hsound, h⟩ hok hstep
  obtain ⟨hstep, hwait⟩ := Option.filter_eq_some_iff.mp hstep
  have hs := steps_of_step hl hsound.consistent hok hstep
  exact ⟨hsound.step hs, before_step hsound h hs (of_decide_eq_true hwait)⟩

-- Every call keeps the order of the queue, and no request overtakes another while both wait.
theorem waiting_order (hl : base.Lawful cfg) :
    (∀ (s s' : Scheduler K) (out : Output), AscendScheduler.schedule cfg base s = .ok (out, s') →
      ∃ preempted kept entered ignored, Moved s s' out preempted kept entered ignored) ∧
    ∀ (kv : K) (objs : ReqId → Request) (e e' : Engine K) (a b : ReqId),
      Run.Reachable (step cfg base) Allowed (init kv objs) e → Before a b e.scheduler →
      Run.Reachable (waiting_step cfg base a b) Allowed e e' → Before a b e'.scheduler :=
  ⟨fun _ _ _ h => schedule_moved h, fun _ _ _ _ _ _ hreach h hrun =>
    (before_reachable hl (sound_reachable hl hreach) h hrun).2⟩

end Engine

section Example

-- After the first prompt the budget of a step is too small for the next two, but not for the
-- last one.
def fourWaiting : List (Op Pool Unit) := [
  .add_request "a" (newRequest (List.replicate 7 1)),
  .add_request "b" (newRequest (List.replicate 7 1)),
  .add_request "c" (newRequest (List.replicate 7 1)),
  .add_request "d" (newRequest [1])]

def beforeSkipping : Engine Pool :=
  (Run.exec (Engine.step smallPool (poolBase smallPool)) Engine.Allowed Engine.start
    fourWaiting).get (by decide +kernel)

def skipping : Output × Scheduler Pool :=
  (schedule smallPool (poolBase smallPool) beforeSkipping.scheduler).toOption.get (by decide +kernel)

theorem skipping_eq : schedule smallPool (poolBase smallPool) beforeSkipping.scheduler =
    .ok (skipping.1, skipping.2) :=
  Excepts.eq_ok_of_toOption (Option.some_get _).symm

def afterSkipping : Engine Pool :=
  (Run.exec (Engine.waiting_step smallPool (poolBase smallPool) "b" "c") Engine.Allowed
    beforeSkipping [.schedule]).get (by decide +kernel)

theorem skipping_order : skipping.2.waiting = ["b", "c"] ∧
    Before "b" "c" afterSkipping.scheduler ∧ ∃ preempted kept entered ignored,
      Moved beforeSkipping.scheduler skipping.2 skipping.1 preempted kept entered ignored := by
  obtain ⟨hmoved, hbefore⟩ := Engine.waiting_order (poolBase_lawful smallPool)
  refine ⟨by decide +kernel, ?_, hmoved _ _ _ skipping_eq⟩
  refine hbefore _ _ beforeSkipping afterSkipping "b" "c"
    (.of_exec fourWaiting .start (Option.some_get _).symm) ?_
    (.of_exec [.schedule] .start (Option.some_get _).symm)
  have hwaiting : beforeSkipping.scheduler.waiting = ["a", "b", "c", "d"] := by decide +kernel
  rw [Before, hwaiting]
  decide +kernel

end Example

end TTXla.VllmTT.AscendScheduler
