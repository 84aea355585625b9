import TTXla.PJRT.EventInstance.Protocol

-- Callbacks are called once, when the event is ready, and the event is not used after that.
namespace TTXla.PJRT

open Threads Run

variable {T : Type} [DecidableEq T] [Fintype T]

-- The steps of the frame do not depend on the contents of the event, and do not change them.
def Frame.Detached (T : Type) (f : Frame) : Prop :=
  ∀ (t : T) (event : EventInstance T) (o : Outcome T), f.run t event = some o →
    ∀ event', o.event = event ∧ f.run t event' = some { o with event := event' }

namespace Process

variable {p p' : Process T} {t : T} {f : Frame} {rest : List Frame} {a : Action T}

structure Delivers (p : Process T) : Prop where
  once : (p.invoked.map Prod.fst).Nodup
  registered : ∀ cb ∈ p.invoked.map Prod.fst, cb.id < p.registered
  all : p.event.m_ready = true → (∀ t, p.threads t = []) →
    ∀ id < p.registered, ⟨id⟩ ∈ p.invoked.map Prod.fst
  ready : ∀ {t p'}, p.step (.run t) = some p' → p'.invoked ≠ p.invoked →
    p.event.m_ready = true ∧ p.event.m_ready_mutex ≠ some t
  status : ∀ x ∈ p.invoked, ∃ status, p.marks.head? = some status ∧ x.2 = makeError status
  unlocked : ∀ {t cb rest}, p.threads t = .callback cb :: rest →
    p.event.m_ready_mutex ≠ some t
  -- what a thread does when its callback returns
  returning : ∀ {t cb rest}, p.threads t = .callback cb :: rest → ∀ g ∈ rest, g.Detached T

-- A bound on the steps that the threads can take without new calls once the event is ready.
def remaining (p : Process T) : Nat :=
  2 * p.event.m_on_ready_callbacks.length + total Frame.fuel p.threads

-- No function of the event is called during or after its destruction, and it is not destroyed
-- while a function of the event is at work on it.
def contract (p : Process T) : Action T → Prop
  | .call _ call => p.freed = false ∧ (∀ t, ∀ f ∈ p.threads t, f.destroys = false) ∧
      (call = .destroy → ∀ t, ∀ f ∈ p.threads t, f.touches = false)
  | .run _ => True

instance (p : Process T) (a : Action T) : Decidable (p.contract a) :=
  match a with
  | .call _ call => inferInstanceAs (Decidable (_ ∧ _ ∧ (call = .destroy → _)))
  | .run _ => inferInstanceAs (Decidable True)

theorem Sound.step (h : p.Sound) (hs : p.step a = some p') : p'.Sound := by
  obtain ⟨-, ⟨t, call, -, huser, rfl⟩ | ⟨t, f, rest, -, -, -, -, rfl⟩ |
    ⟨t, f, rest, o, -, ht, -, ho, rfl⟩⟩ := step_cases hs
  · exact h.invoke huser call
  · exact ⟨h.counted, h.awaiting, h.waiting, h.locked, h.marked, h.valid, h.left, h.invoked⟩
  · exact h.advance ht ho

theorem Sound.delivers (h : p.Sound) : p.Delivers where
  once := by
    rw [List.nodup_iff_count_le_one]
    intro cb
    have hcount := h.counted cb
    split at hcount <;> omega
  registered cb hcb := by
    have hcount := h.counted cb
    have hpos := List.count_pos_iff.mpr hcb
    by_contra hlt
    rw [if_neg hlt] at hcount
    omega
  all hr ht id hid := by
    have hcount := h.counted ⟨id⟩
    rw [if_pos hid] at hcount
    have htotal : total (fun g => g.callbacks.count ⟨id⟩) p.threads = 0 :=
      total_eq_zero fun t f hf => by rw [ht t] at hf; cases hf
    have hnil : p.event.m_on_ready_callbacks = [] := by
      by_contra hne
      obtain ⟨t, status, rest, hmove, -⟩ := h.left hr hne
      rw [ht t] at hmove
      cases hmove
    rw [hnil, htotal] at hcount
    exact List.count_pos_iff.mp (by rw [List.count_nil] at hcount; omega)
  ready := by
    intro t p' hs hne
    obtain ⟨-, ⟨t', call, ha, -, -⟩ | ⟨t', f, rest, -, -, -, -, rfl⟩ |
      ⟨t', f, rest, o, ha, ht, -, ho, rfl⟩⟩ := step_cases hs
    · cases ha
    · exact (hne rfl).elim
    · cases ha
      have hsome : o.invoked ≠ [] := by
        intro hnil
        exact hne (by
          change p.invoked ++ o.invoked = p.invoked
          rw [hnil, List.append_nil])
      obtain ⟨x, hx⟩ := List.exists_mem_of_ne_nil _ hsome
      have hf := h.valid t f (by rw [ht]; exact List.mem_cons_self)
      obtain ⟨hready, hholds, -⟩ := Frame.run_invoked ho hf x hx
      refine ⟨hready, fun hm => ?_⟩
      obtain ⟨f', rest', ht', hf'⟩ := (h.locked t).mp hm
      cases ht.symm.trans ht'
      rw [hholds] at hf'
      cases hf'
  status x hx := by
    obtain ⟨hready, hvalue⟩ := h.invoked x hx
    exact ⟨p.event.m_status, by rw [h.marked, if_pos hready], hvalue⟩
  unlocked := by
    intro t cb rest ht hm
    obtain ⟨f', rest', ht', hf'⟩ := (h.locked t).mp hm
    cases ht.symm.trans ht'
    cases hf'
  returning := by
    intro t cb rest ht g hg t' event o ho
    exact Frame.run_of_not_touches ho (h.waiting ht g hg)

-- The thread that holds the mutex can always take a step.
theorem Sound.progress (h : p.Sound) (hrun : p.terminated = false ∧ p.fault = false)
    (ht : p.threads t ≠ []) : ∃ t', (p.step (.run t')).isSome = true := by
  have hor : (p.terminated || p.fault) = false := Bool.or_eq_false_iff.mpr hrun
  have hstep : ∀ {t f rest}, p.threads t = f :: rest → f.run t p.event ≠ none →
      (p.step (.run t)).isSome = true := by
    intro t f rest ht hf
    simp only [Process.step, hor, Bool.false_eq_true, if_false, ht]
    split
    · rfl
    · rw [Option.isSome_map]
      exact Option.isSome_iff_ne_none.mpr hf
  obtain ⟨f, rest, hcons⟩ := List.exists_cons_of_ne_nil ht
  by_cases hf : f.run t p.event = none
  · obtain ⟨hm, -⟩ := Frame.run_eq_none hf
    obtain ⟨t', ht'⟩ := Option.ne_none_iff_exists'.mp hm
    obtain ⟨f', rest', hcons', hholds⟩ := (h.locked t').mp ht'
    refine ⟨t', hstep hcons' fun hnone => ?_⟩
    rw [(Frame.run_eq_none hnone).2] at hholds
    cases hholds
  · exact ⟨t, hstep hcons hf⟩

theorem remaining_lt (hr : p.event.m_ready = true) (hs : p.step (.run t) = some p') :
    p'.fault = true ∨ p'.terminated = true ∨ p'.remaining < p.remaining := by
  obtain ⟨-, ⟨t', call, ha, -, -⟩ | ⟨t', f, rest, -, -, -, -, rfl⟩ |
    ⟨t', f, rest, o, ha, ht, -, ho, rfl⟩⟩ := step_cases hs
  · cases ha
  · exact .inl rfl
  · cases ha
    refine .inr ?_
    cases hterm : o.terminated with
    | true => exact .inl hterm
    | false =>
        have hfuel := Frame.run_fuel ho hr hterm
        have htotal := total_step (w := Frame.fuel) o.frames ht
        refine .inr ?_
        simp only [remaining, advance]
        omega

-- What the contract keeps.
structure Careful (p : Process T) : Prop where
  fault : p.fault = false
  freed : p.freed = true → ∀ t, ∀ f ∈ p.threads t, f.touches = false
  alone : ∀ {t t' f g}, f ∈ p.threads t → f.destroys = true → g ∈ p.threads t' →
    g.touches = true → t' = t ∧ g = f
  terminated : p.terminated = true → p.event.m_ready = false

omit [Fintype T] in
theorem mem_invoke {t' : T} {g : Frame} {call : Call} (hg : g ∈ (p.invoke t call).threads t') :
    (t' = t ∧ g = call.frame p.registered) ∨ g ∈ p.threads t' := by
  cases mem_update hg with
  | inl hnew =>
      obtain ⟨rfl, hmem⟩ := hnew
      cases hmem with
      | head => exact .inl ⟨rfl, rfl⟩
      | tail _ hold => exact .inr hold
  | inr hold => exact .inr hold.2

-- Of the frames that touch the event, a step replaces the one that ran.
theorem Sound.touches_advance (h : p.Sound) (ht : p.threads t = f :: rest) {o : Outcome T}
    (ho : f.run t p.event = some o) {t' : T} {g : Frame}
    (hg : g ∈ (p.advance t rest o).threads t') (htouch : g.touches = true) :
    (t' = t ∧ f.touches = true ∧ o.frames.head? = some g) ∨ (t' ≠ t ∧ g ∈ p.threads t') := by
  cases mem_update hg with
  | inr hold => exact .inr hold
  | inl hnew =>
      refine .inl ⟨hnew.1, ?_⟩
      cases List.mem_append.mp hnew.2 with
      | inr hrest =>
          rw [h.waiting ht g hrest] at htouch
          cases htouch
      | inl hmem =>
          have hf : f.touches = true := by
            by_contra hne
            rw [Bool.not_eq_true] at hne
            rw [Frame.run_touches ho hne g hmem] at htouch
            cases htouch
          refine ⟨hf, ?_⟩
          obtain hnil | ⟨g', gs, hcons, hgs⟩ := Frame.run_frames ho
          · rw [hnil] at hmem
            cases hmem
          · rw [hcons] at hmem ⊢
            cases hmem with
            | head => rfl
            | tail _ htail =>
                rw [hgs g htail] at htouch
                cases htouch

omit [Fintype T] in
theorem Careful.invoke (h : p.Careful) {call : Call} (hok : p.contract (.call t call)) :
    (p.invoke t call).Careful where
  fault := h.fault
  freed hfreed := by
    have := hfreed.symm.trans hok.1
    cases this
  alone := by
    intro t₁ t₂ f g hf hdestroys hg htouches
    obtain ⟨-, hnone, huntouched⟩ := hok
    obtain ⟨rfl, rfl⟩ | hold := mem_invoke hf
    · have hcall : call = .destroy := by
        rw [Call.frame_destroys] at hdestroys
        exact of_decide_eq_true hdestroys
      obtain ⟨rfl, rfl⟩ | hold := mem_invoke hg
      · exact ⟨rfl, rfl⟩
      · rw [huntouched hcall _ g hold] at htouches
        cases htouches
    · rw [hnone _ f hold] at hdestroys
      cases hdestroys
  terminated := h.terminated

theorem Careful.advance (h : p.Careful) (hsound : p.Sound) (ht : p.threads t = f :: rest)
    (hfreed : p.freed = true → f.touches = false) {o : Outcome T}
    (ho : f.run t p.event = some o) : (p.advance t rest o).Careful where
  fault := h.fault
  freed hf' t' g hg := by
    by_contra htouches
    rw [Bool.not_eq_false] at htouches
    have hmem : f ∈ p.threads t := by rw [ht]; exact List.mem_cons_self
    cases hold : p.freed with
    | true =>
        obtain ⟨-, hf, -⟩ | ⟨-, hmem'⟩ := hsound.touches_advance ht ho hg htouches
        · rw [hfreed hold] at hf
          cases hf
        · rw [h.freed hold t' g hmem'] at htouches
          cases htouches
    | false =>
        have hfree : o.freed = true := by
          simp only [Process.advance, hold, Bool.false_or] at hf'
          exact hf'
        have hdestroys : f.destroys = true := by
          by_contra hne
          rw [Bool.not_eq_true] at hne
          have := ((Frame.run_destroys ho).1 hne).1
          rw [hfree] at this
          cases this
        obtain ⟨-, -, hhead⟩ | ⟨hne, hmem'⟩ := hsound.touches_advance ht ho hg htouches
        · rw [(Frame.run_destroys ho).2 hfree] at hhead
          cases hhead
        · exact hne (h.alone hmem hdestroys hmem' htouches).1
  alone := by
    intro t₁ t₂ f₁ g hf₁ hdestroys hg htouches
    have hmem : f ∈ p.threads t := by rw [ht]; exact List.mem_cons_self
    obtain ⟨rfl, -, hhead⟩ | ⟨hne, hold⟩ :=
      hsound.touches_advance ht ho hf₁ (Frame.destroys_touches hdestroys)
    · -- the frame that ran was one of the destructor
      have hf : f.destroys = true := by
        by_contra hne
        rw [Bool.not_eq_true] at hne
        rw [((Frame.run_destroys ho).1 hne).2.2 f₁ (List.mem_of_mem_head? hhead)] at hdestroys
        cases hdestroys
      obtain ⟨rfl, -, hhead'⟩ | ⟨hne, hold⟩ := hsound.touches_advance ht ho hg htouches
      · exact ⟨rfl, Option.some.inj (hhead'.symm.trans hhead)⟩
      · exact (hne (h.alone hmem hf hold htouches).1).elim
    · obtain ⟨rfl, hf, -⟩ | ⟨-, hold'⟩ := hsound.touches_advance ht ho hg htouches
      · exact (hne (h.alone hold hdestroys hmem hf).1.symm).elim
      · exact h.alone hold hdestroys hold' htouches
  terminated hterm := by
    have hmem : f ∈ p.threads t := by rw [ht]; exact List.mem_cons_self
    obtain ⟨hevent, hdestroys, hconsumer⟩ := Frame.run_terminated ho hterm
    rw [← Bool.not_eq_true]
    intro hready
    change o.event.m_ready = true at hready
    rw [hevent] at hready
    cases hconsumer with
    | inl hawaiting =>
        rw [hsound.awaiting] at hawaiting
        obtain ⟨t', g, hg, hpos⟩ := exists_of_total_pos (Nat.pos_of_ne_zero hawaiting)
        obtain ⟨-, rfl⟩ := h.alone hmem hdestroys hg (Frame.awaits_touches hpos)
        cases g <;> simp [Frame.destroys, Frame.awaits] at hdestroys hpos
    | inr hcallbacks =>
        obtain ⟨t', status, rest', ht', -⟩ := hsound.left hready hcallbacks
        have hmove : Frame.mark_move status ∈ p.threads t' := by
          rw [ht']
          exact List.mem_cons_self
        obtain ⟨-, rfl⟩ := h.alone hmem hdestroys hmove rfl
        cases hdestroys

theorem Careful.step (h : p.Careful) (hsound : p.Sound) (hok : p.contract a)
    (hs : p.step a = some p') : p'.Careful := by
  obtain ⟨-, ⟨t, call, rfl, -, rfl⟩ | ⟨t, f, rest, -, ht, hfreed, htouches, rfl⟩ |
    ⟨t, f, rest, o, -, ht, hfreed, ho, rfl⟩⟩ := step_cases hs
  · exact h.invoke hok
  · rw [h.freed hfreed t f (by rw [ht]; exact List.mem_cons_self)] at htouches
    cases htouches
  · exact h.advance hsound ht hfreed ho

omit [DecidableEq T] [Fintype T] in
theorem createInstance_careful (m_indestructible : Bool) :
    (createInstance m_indestructible : Process T).Careful where
  fault := rfl
  freed h := by cases h
  alone h := by cases h
  terminated h := by cases h

theorem callbacks_delivered (m_indestructible : Bool)
    (h : Reachable step (fun _ _ => True) (createInstance m_indestructible) p) :
    p.Delivers ∧
      (p.terminated = false ∧ p.fault = false → (∃ t, p.threads t ≠ []) →
        ∃ t, (p.step (.run t)).isSome = true) ∧
      (p.event.m_ready = true → ∀ t p', p.step (.run t) = some p' →
        p'.fault = true ∨ p'.terminated = true ∨ p'.remaining < p.remaining) ∧
      (Reachable step contract (createInstance m_indestructible) p →
        p.fault = false ∧ (p.terminated = true → p.event.m_ready = false)) := by
  have hsound : p.Sound :=
    h.invariant Sound (createInstance_sound m_indestructible) fun _ _ _ hp _ hs => hp.step hs
  refine ⟨hsound.delivers, fun hrun ⟨t, ht⟩ => hsound.progress hrun ht,
    fun hr t p' hs => remaining_lt hr hs, fun hc => ?_⟩
  have hcareful : p.Sound ∧ p.Careful :=
    hc.invariant (fun p => p.Sound ∧ p.Careful)
      ⟨createInstance_sound m_indestructible, createInstance_careful m_indestructible⟩
      fun _ _ _ hp hok hs => ⟨hp.1.step hs, hp.2.step hp.1 hok hs⟩
  exact ⟨hcareful.2.fault, hcareful.2.terminated⟩

-- One thread registers a callback, and another marks the event. The callback registers a
-- second one and destroys the event.
def reentrant : List (Action Bool) :=
  .call true .onReady :: List.replicate 3 (.run true) ++
    .call false (.markAsReadyAndCallback .kInternal) :: List.replicate 5 (.run false) ++
    .call false .onReady :: List.replicate 5 (.run false) ++
    .call false .destroy :: List.replicate 7 (.run false)

theorem reentrant_delivers : ∃ p, exec step contract (createInstance false) reentrant = some p ∧
    p.freed = true ∧ p.invoked = [(⟨0⟩, some .kInternal), (⟨1⟩, some .kInternal)] ∧
    (∀ t, p.threads t = []) ∧ p.Delivers ∧ p.fault = false := by
  have hrun : (exec step contract (createInstance false) reentrant).map
      (fun p => (p.freed, p.invoked, p.threads true, p.threads false)) =
        some (true, [(⟨0⟩, some .kInternal), (⟨1⟩, some .kInternal)], [], []) := by
    decide +kernel
  obtain ⟨p, hp, hvalues⟩ := Option.map_eq_some_iff.mp hrun
  simp only [Prod.mk.injEq] at hvalues
  obtain ⟨hfreed, hinvoked, htrue, hfalse⟩ := hvalues
  have hreached := Reachable.of_exec reentrant .start hp
  obtain ⟨hdelivers, -, -, hcontract⟩ := callbacks_delivered false (hreached.mono fun _ _ _ => trivial)
  exact ⟨p, hp, hfreed, hinvoked, fun t => by cases t <;> assumption, hdelivers,
    (hcontract hreached).1⟩

end Process

end TTXla.PJRT
