import TTXla.PJRT.EventInstance.Frames

-- What holds of the callbacks of an event in every interleaving of the threads.
namespace TTXla.PJRT

open Threads

@[ext] theorem OnReadyCallback.ext {cb cb' : OnReadyCallback} (h : cb.id = cb'.id) : cb = cb' := by
  cases cb
  cases cb'
  cases h
  rfl

namespace Call

variable (id : Nat) (call : Call)

theorem frame_callbacks :
    (call.frame id).callbacks = if call = .onReady then [⟨id⟩] else [] := by
  cases call <;> rfl

@[simp] theorem frame_awaits : (call.frame id).awaits = 0 := by
  cases call <;> rfl

@[simp] theorem frame_holds : (call.frame id).holds = false := by
  cases call <;> rfl

theorem frame_valid {T : Type} (event : EventInstance T) : (call.frame id).valid event := by
  cases call <;> trivial

theorem frame_destroys : (call.frame id).destroys = decide (call = .destroy) := by
  cases call <;> rfl

end Call

namespace Process

variable {T : Type} [DecidableEq T] {p p' : Process T} {t : T} {f g : Frame}
  {rest : List Frame} {o : Outcome T} {call : Call} {a : Action T}

-- Everything a step can do.
theorem step_cases (h : p.step a = some p') :
    (p.terminated = false ∧ p.fault = false) ∧
      ((∃ t call, a = .call t call ∧ p.in_user_code t = true ∧ p' = p.invoke t call) ∨
        (∃ t f rest, a = .run t ∧ p.threads t = f :: rest ∧ p.freed = true ∧
          f.touches = true ∧ p' = { p with fault := true }) ∨
        ∃ t f rest o, a = .run t ∧ p.threads t = f :: rest ∧
          (p.freed = true → f.touches = false) ∧ f.run t p.event = some o ∧
          p' = p.advance t rest o) := by
  have hrun : p.terminated = false ∧ p.fault = false := by
    by_contra hne
    rw [← Bool.or_eq_false_iff, Bool.not_eq_false] at hne
    cases a <;> simp [step, hne] at h
  have hor : (p.terminated || p.fault) = false := Bool.or_eq_false_iff.mpr hrun
  refine ⟨hrun, ?_⟩
  cases a with
  | call t call =>
      simp only [step, hor, Bool.false_eq_true, if_false] at h
      split at h <;> cases h
      rename_i huser
      exact .inl ⟨t, call, rfl, huser, rfl⟩
  | run t =>
      simp only [step, hor, Bool.false_eq_true, if_false] at h
      refine .inr ?_
      split at h
      · cases h
      rename_i f rest hthreads
      split at h
      · rename_i hfreed
        rw [Bool.and_eq_true] at hfreed
        cases h
        exact .inl ⟨t, f, rest, rfl, hthreads, hfreed.1, hfreed.2, rfl⟩
      · rename_i hfreed
        obtain ⟨o, ho, rfl⟩ := Option.map_eq_some_iff.mp h
        refine .inr ⟨t, f, rest, o, rfl, hthreads, fun hf => ?_, ho, rfl⟩
        simpa [hf] using hfreed

variable [Fintype T]

structure Sound (p : Process T) : Prop where
  -- each registration is in one place
  counted : ∀ cb : OnReadyCallback, p.event.m_on_ready_callbacks.count cb
      + total (·.callbacks.count cb) p.threads + (p.invoked.map Prod.fst).count cb =
    if cb.id < p.registered then 1 else 0
  awaiting : p.event.m_awaiters_count = total Frame.awaits p.threads
  waiting : ∀ {t f rest}, p.threads t = f :: rest → ∀ g ∈ rest, g.touches = false
  locked : ∀ t, p.event.m_ready_mutex = some t ↔
    ∃ f rest, p.threads t = f :: rest ∧ f.holds = true
  marked : p.marks.head? = if p.event.m_ready then some p.event.m_status else none
  valid : ∀ t, ∀ f ∈ p.threads t, f.valid p.event
  left : p.event.m_ready = true → p.event.m_on_ready_callbacks ≠ [] →
    ∃ t status rest, p.threads t = .mark_move status :: rest ∧ p.event.m_status = status
  invoked : ∀ x ∈ p.invoked, p.event.m_ready = true ∧ x.2 = makeError p.event.m_status

omit [DecidableEq T] in
theorem createInstance_sound (m_indestructible : Bool) :
    (createInstance m_indestructible : Process T).Sound where
  counted cb := by simp [createInstance, total]
  awaiting := by simp [createInstance, total]
  waiting h := by cases h
  locked t := by simp [createInstance]
  marked := rfl
  valid t f hf := by cases hf
  left h := by cases h
  invoked x hx := by cases hx

namespace Sound

omit [DecidableEq T] in
theorem user_code (h : p.Sound) (hu : p.in_user_code t = true) :
    ∀ g ∈ p.threads t, g.touches = false := by
  intro g hg
  unfold in_user_code at hu
  split at hu
  · rename_i hnil
    rw [hnil] at hg
    cases hg
  · rename_i hcons
    have hwaiting := h.waiting hcons
    rw [hcons] at hg
    cases hg with
    | head => rfl
    | tail _ hg => exact hwaiting g hg
  · cases hu

-- Two threads do not hold the mutex at once.
omit [DecidableEq T] in
theorem holds_unique (h : p.Sound) {t' : T} {rest' : List Frame} (ht : p.threads t = f :: rest)
    (hf : f.holds = true) (ht' : p.threads t' = g :: rest') (hg : g.holds = true) : t' = t := by
  have hm := (h.locked t).mpr ⟨f, rest, ht, hf⟩
  have hm' := (h.locked t').mpr ⟨g, rest', ht', hg⟩
  exact Option.some.inj (hm'.symm.trans hm)

theorem invoke (h : p.Sound) (hu : p.in_user_code t = true) (call : Call) :
    (p.invoke t call).Sound where
  counted cb := by
    have hcount := h.counted cb
    simp only [Process.invoke, total_call, Call.frame_callbacks]
    split
    · have hid : (⟨p.registered⟩ : OnReadyCallback) = cb ↔ p.registered = cb.id :=
        ⟨fun he => by rw [← he], fun he => OnReadyCallback.ext he⟩
      simp only [List.count_singleton, beq_iff_eq, hid]
      split at hcount <;> split <;> split <;> omega
    · simpa using hcount
  awaiting := by
    simp only [Process.invoke, total_call, Call.frame_awaits]
    exact h.awaiting
  waiting := by
    intro t' f' rest' ht'
    simp only [Process.invoke] at ht'
    by_cases hne : t' = t
    · subst hne
      rw [Function.update_self] at ht'
      cases ht'
      exact h.user_code hu
    · rw [Function.update_of_ne hne] at ht'
      exact h.waiting ht'
  locked t' := by
    simp only [Process.invoke]
    rw [h.locked t']
    by_cases hne : t' = t
    · subst hne
      rw [Function.update_self]
      constructor
      · rintro ⟨f, rest, ht, hf⟩
        have := h.user_code hu f (by rw [ht]; exact List.mem_cons_self)
        rw [Frame.holds_touches hf] at this
        cases this
      · rintro ⟨f, rest, ht, hf⟩
        cases ht
        rw [Call.frame_holds] at hf
        cases hf
    · rw [Function.update_of_ne hne]
  marked := h.marked
  valid t' f hf := by
    cases mem_update hf with
    | inl hnew =>
        cases hnew.2 with
        | head => exact call.frame_valid _ _
        | tail _ hold => exact h.valid t f hold
    | inr hold => exact h.valid t' f hold.2
  left hr hl := by
    obtain ⟨t', status, rest, ht', hstatus⟩ := h.left hr hl
    refine ⟨t', status, rest, ?_, hstatus⟩
    have hne : t' ≠ t := by
      rintro rfl
      have := h.user_code hu (.mark_move status) (by rw [ht']; exact List.mem_cons_self)
      cases this
    simp only [Process.invoke, Function.update_of_ne hne]
    exact ht'
  invoked := h.invoked

-- A thread that moves callbacks out of the event made it ready itself.
omit [DecidableEq T] in
theorem mark_move (h : p.Sound) {status : tt_pjrt_status}
    (ht : p.threads t = .mark_move status :: rest)
    (hl : p.event.m_on_ready_callbacks ≠ []) : p.event.m_status = status := by
  have hvalid := h.valid t (.mark_move status) (by rw [ht]; exact List.mem_cons_self)
  obtain ⟨t', status', rest', ht', hstatus⟩ := h.left hvalid hl
  obtain rfl := h.holds_unique ht rfl ht' rfl
  cases ht.symm.trans ht'
  exact hstatus

-- A frame under the frames of the step does not hold the mutex.
omit [DecidableEq T] in
theorem not_holds_of_frames (h : p.Sound) (ht : p.threads t = f :: rest) {frames : List Frame}
    (hframes : ∀ g ∈ frames, g.holds = false) :
    ¬∃ g rest', frames ++ rest = g :: rest' ∧ g.holds = true := by
  rintro ⟨g, rest', heq, hg⟩
  have hmem : g ∈ frames ++ rest := by rw [heq]; exact List.mem_cons_self
  cases List.mem_append.mp hmem with
  | inl hmem => rw [hframes g hmem] at hg; cases hg
  | inr hmem =>
      have := h.waiting ht g hmem
      rw [Frame.holds_touches hg] at this
      cases this

theorem locked_advance (h : p.Sound) (ht : p.threads t = f :: rest)
    (ho : f.run t p.event = some o) (t' : T) :
    (p.advance t rest o).event.m_ready_mutex = some t' ↔
      ∃ f rest', (p.advance t rest o).threads t' = f :: rest' ∧ f.holds = true := by
  have hlocked : p.event.m_ready_mutex = some t ↔ f.holds = true := by
    rw [h.locked t, ht]
    constructor
    · rintro ⟨f', rest', heq, hf'⟩
      cases heq
      exact hf'
    · exact fun hf => ⟨f, rest, rfl, hf⟩
  by_cases hne : t' = t
  · subst hne
    simp only [Process.advance, Function.update_self]
    cases hf : f.holds with
    | true =>
        cases Frame.run_of_holds ho hf with
        | inl hkept =>
            obtain ⟨hmutex, g, hg, hholds⟩ := hkept
            rw [hmutex, hg]
            exact ⟨fun _ => ⟨g, rest, rfl, hholds⟩, fun _ => hlocked.mpr hf⟩
        | inr hreleased =>
            obtain ⟨hmutex, hframes⟩ := hreleased
            rw [hmutex]
            exact ⟨fun hm => (Option.some_ne_none t' hm.symm).elim,
              fun hex => (h.not_holds_of_frames ht hframes hex).elim⟩
    | false =>
        cases Frame.run_of_not_holds ho hf with
        | inl hkept =>
            obtain ⟨hmutex, hframes⟩ := hkept
            rw [hmutex, hlocked, hf]
            exact ⟨fun hm => (Bool.false_ne_true hm).elim,
              fun hex => (h.not_holds_of_frames ht hframes hex).elim⟩
        | inr htaken =>
            obtain ⟨-, hmutex, g, hg, hholds⟩ := htaken
            rw [hmutex, hg]
            exact ⟨fun _ => ⟨g, rest, rfl, hholds⟩, fun _ => rfl⟩
  · -- the other threads see the mutex held by this one, or as it was
    have hother : o.event.m_ready_mutex = some t' ↔ p.event.m_ready_mutex = some t' := by
      have hsome : ¬(some t : Option T) = some t' := fun he => hne (Option.some.inj he).symm
      cases hf : f.holds with
      | true =>
          have hm := hlocked.mpr hf
          cases Frame.run_of_holds ho hf with
          | inl hkept => rw [hkept.1]
          | inr hreleased => simp [hreleased.1, hm, hsome]
      | false =>
          cases Frame.run_of_not_holds ho hf with
          | inl hkept => rw [hkept.1]
          | inr htaken => simp [htaken.1, htaken.2.1, hsome]
    simp only [Process.advance, Function.update_of_ne hne]
    rw [hother]
    exact h.locked t'

theorem advance (h : p.Sound) (ht : p.threads t = f :: rest)
    (ho : f.run t p.event = some o) : (p.advance t rest o).Sound where
  counted cb := by
    have hrun := Frame.run_count ho cb
    have htotal := total_step (w := fun g => g.callbacks.count cb) o.frames ht
    refine Eq.trans ?_ (h.counted cb)
    simp only [Process.advance, List.map_append, List.count_append]
    omega
  awaiting := by
    have hmem : f ∈ p.threads t := by rw [ht]; exact List.mem_cons_self
    have hcount := h.awaiting
    have hrun := Frame.run_awaits ho (hcount ▸ le_total hmem)
    have htotal := total_step (w := Frame.awaits) o.frames ht
    simp only [Process.advance]
    omega
  waiting := by
    intro t' f' rest' ht'
    simp only [Process.advance] at ht'
    by_cases hne : t' = t
    · subst hne
      rw [Function.update_self] at ht'
      have hrest := h.waiting ht
      cases Frame.run_frames ho with
      | inl hnil =>
          rw [hnil, List.nil_append] at ht'
          intro g hg
          exact hrest g (by rw [ht']; exact List.mem_cons_of_mem _ hg)
      | inr hcons =>
          obtain ⟨g, gs, hgs, hun⟩ := hcons
          rw [hgs, List.cons_append] at ht'
          cases ht'
          intro g' hg'
          cases List.mem_append.mp hg' with
          | inl hmem => exact hun g' hmem
          | inr hmem => exact hrest g' hmem
    · rw [Function.update_of_ne hne] at ht'
      exact h.waiting ht'
  locked := h.locked_advance ht ho
  marked := Frame.run_marks ho h.marked
  valid t' g hg := by
    cases mem_update hg with
    | inl hnew =>
        cases List.mem_append.mp hnew.2 with
        | inl hmem =>
            refine Frame.run_valid ho (h.valid t f (by rw [ht]; exact List.mem_cons_self)) ?_ g hmem
            rintro status rfl hl
            exact h.mark_move ht hl
        | inr hmem =>
            exact Frame.valid_of_ready ho
              (h.valid t g (by rw [ht]; exact List.mem_cons_of_mem _ hmem))
    | inr hold => exact Frame.valid_of_ready ho (h.valid t' g hold.2)
  left hr hl := by
    cases Frame.run_left ho hr hl with
    | inl hkept =>
        obtain ⟨hready, hnil, hne⟩ := hkept
        obtain ⟨t', status, rest', ht', hstatus⟩ := h.left hready hnil
        have ht'' : t' ≠ t := by
          rintro rfl
          cases ht.symm.trans ht'
          exact hne status rfl
        refine ⟨t', status, rest', ?_, (Frame.run_ready ho hready).2.trans hstatus⟩
        simp only [Process.advance, Function.update_of_ne ht'']
        exact ht'
    | inr hset =>
        obtain ⟨status, rfl, hframes, hstatus⟩ := hset
        refine ⟨t, status, rest, ?_, hstatus⟩
        simp only [Process.advance, Function.update_self, hframes]
        rfl
  invoked x hx := by
    have hf := h.valid t f (by rw [ht]; exact List.mem_cons_self)
    cases List.mem_append.mp hx with
    | inl hold =>
        obtain ⟨hready, hvalue⟩ := h.invoked x hold
        obtain ⟨hready', hstatus⟩ := Frame.run_ready ho hready
        exact ⟨hready', hvalue.trans (by rw [← hstatus]; rfl)⟩
    | inr hnew =>
        obtain ⟨hready, -, hvalue⟩ := Frame.run_invoked ho hf x hnew
        obtain ⟨hready', hstatus⟩ := Frame.run_ready ho hready
        exact ⟨hready', hvalue.trans (by rw [← hstatus]; rfl)⟩

end Sound

end Process

end TTXla.PJRT
