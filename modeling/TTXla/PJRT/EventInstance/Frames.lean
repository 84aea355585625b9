import TTXla.PJRT.EventInstance

-- What one step of a frame changes.
namespace TTXla.PJRT

namespace EventInstance

variable {T : Type} (event : EventInstance T) (status : tt_pjrt_status)

@[simp] theorem markAsReadyNoLock_m_ready : (event.markAsReadyNoLock status).m_ready = true := by
  unfold markAsReadyNoLock
  split
  · assumption
  · rfl

theorem markAsReadyNoLock_m_status : (event.markAsReadyNoLock status).m_status =
    if event.m_ready then event.m_status else status := by
  unfold markAsReadyNoLock
  split <;> rfl

@[simp] theorem markAsReadyNoLock_m_ready_mutex :
    (event.markAsReadyNoLock status).m_ready_mutex = event.m_ready_mutex := by
  unfold markAsReadyNoLock
  split <;> rfl

@[simp] theorem markAsReadyNoLock_m_on_ready_callbacks :
    (event.markAsReadyNoLock status).m_on_ready_callbacks = event.m_on_ready_callbacks := by
  unfold markAsReadyNoLock
  split <;> rfl

@[simp] theorem markAsReadyNoLock_m_awaiters_count :
    (event.markAsReadyNoLock status).m_awaiters_count = event.m_awaiters_count := by
  unfold markAsReadyNoLock
  split <;> rfl

end EventInstance

namespace Frame

open EventInstance

variable {T : Type} {t : T} {event : EventInstance T} {f g : Frame} {o : Outcome T}

-- The callbacks that the frame still has to register or to call.
def callbacks : Frame → List OnReadyCallback
  | .onReady_lock cb | .onReady_check cb | .onReady_unlock cb | .onReady_execute cb => [cb]
  | .mark_unlock _ callbacks_to_execute | .mark_execute _ callbacks_to_execute =>
      callbacks_to_execute
  | _ => []

-- The frame is counted as an awaiter.
def awaits : Frame → Nat
  | .await_lock | .await_wait => 1
  | _ => 0

-- Frames that are only reached once the event is ready. The callbacks to execute, if there
-- are any, were taken by the thread that made the event ready.
def valid (event : EventInstance T) : Frame → Prop
  | .onReady_unlock _ | .onReady_execute _ | .mark_move _ => event.m_ready = true
  | .mark_unlock status callbacks | .mark_execute status callbacks =>
      event.m_ready = true ∧ (callbacks ≠ [] → event.m_status = status)
  | _ => True

-- A bound on the steps that the frame can still take once the event is ready.
def fuel : Frame → Nat
  | .onReady_lock _ | .mark_lock _ | .await_count | .destroy_check => 5
  | .onReady_check _ | .mark_ready _ | .await_lock | .destroy_lock => 4
  | .onReady_unlock _ | .mark_move _ | .isReady_lock _ | .await_wait | .destroy_guard => 3
  | .onReady_execute _ | .isReady_read _ | .await_unlock | .destroy_unlock => 2
  | .onReady_return | .getErrorFromStatus | .destroy_free | .callback _ => 1
  | .mark_unlock _ callbacks_to_execute => 2 * callbacks_to_execute.length + 2
  | .mark_execute _ callbacks_to_execute => 2 * callbacks_to_execute.length + 1

-- No callback is lost or doubled in a step.
theorem run_count (h : f.run t event = some o) (cb : OnReadyCallback) :
    o.event.m_on_ready_callbacks.count cb + (o.frames.map (·.callbacks.count cb)).sum
        + (o.invoked.map Prod.fst).count cb =
      event.m_on_ready_callbacks.count cb + f.callbacks.count cb := by
  unfold run locking at h
  split at h <;> (try split at h) <;> cases h <;>
    simp [callbacks, lock, unlock, List.count_cons]
  case h_11 => omega

theorem run_awaits (h : f.run t event = some o) (hle : f.awaits ≤ event.m_awaiters_count) :
    o.event.m_awaiters_count + f.awaits =
      event.m_awaiters_count + (o.frames.map awaits).sum := by
  unfold run locking at h
  split at h <;> (try split at h) <;> cases h <;> simp_all [awaits, lock, unlock]

-- A frame that holds the mutex keeps it or releases it.
theorem run_of_holds (h : f.run t event = some o) (hf : f.holds = true) :
    (o.event.m_ready_mutex = event.m_ready_mutex ∧ ∃ g, o.frames = [g] ∧ g.holds = true) ∨
      (o.event.m_ready_mutex = none ∧ ∀ g ∈ o.frames, g.holds = false) := by
  unfold run locking at h
  split at h <;> (try split at h) <;> cases h <;> simp_all [holds, unlock]

-- Another frame takes the mutex only when it is free.
theorem run_of_not_holds (h : f.run t event = some o) (hf : f.holds = false) :
    (o.event.m_ready_mutex = event.m_ready_mutex ∧ ∀ g ∈ o.frames, g.holds = false) ∨
      (event.m_ready_mutex = none ∧ o.event.m_ready_mutex = some t ∧
        ∃ g, o.frames = [g] ∧ g.holds = true) := by
  unfold run locking at h
  split at h <;> (try split at h) <;> cases h <;> simp_all [holds, lock]

-- A frame that waits under the frame of a callback does not touch the event.
theorem run_frames (h : f.run t event = some o) :
    o.frames = [] ∨ ∃ g gs, o.frames = g :: gs ∧ ∀ g' ∈ gs, g'.touches = false := by
  unfold run locking at h
  split at h <;> (try split at h) <;> cases h <;> simp [touches]

-- Only a mark changes the flag and the status.
theorem run_unmarked (h : f.run t event = some o) (hf : ∀ status, f ≠ .mark_ready status) :
    o.marked = [] ∧ o.event.m_ready = event.m_ready ∧ o.event.m_status = event.m_status := by
  unfold run locking at h
  split at h <;> (try split at h) <;> cases h <;> simp_all [lock, unlock]

theorem run_ready (h : f.run t event = some o) (hr : event.m_ready = true) :
    o.event.m_ready = true ∧ o.event.m_status = event.m_status := by
  by_cases hf : ∃ status, f = .mark_ready status
  · obtain ⟨status, rfl⟩ := hf
    cases h
    simp [markAsReadyNoLock_m_status, hr]
  · obtain ⟨-, hready, hstatus⟩ := run_unmarked h fun status hs => hf ⟨status, hs⟩
    exact ⟨hready.trans hr, hstatus⟩

-- The first mark sets the status, and no step changes it afterwards.
theorem run_marks (h : f.run t event = some o) {marks : List tt_pjrt_status}
    (hm : marks.head? = if event.m_ready then some event.m_status else none) :
    (marks ++ o.marked).head? = if o.event.m_ready then some o.event.m_status else none := by
  by_cases hf : ∃ status, f = .mark_ready status
  · obtain ⟨status, rfl⟩ := hf
    cases h
    rw [List.head?_append, hm]
    cases hr : event.m_ready <;> simp [markAsReadyNoLock_m_status, hr]
  · obtain ⟨hmarked, hready, hstatus⟩ := run_unmarked h fun status hs => hf ⟨status, hs⟩
    rw [hmarked, List.append_nil, hm, hready, hstatus]

theorem valid_of_ready (h : f.run t event = some o) (hg : g.valid event) :
    g.valid o.event := by
  cases g <;> simp only [valid] at hg ⊢
  case onReady_unlock => exact (run_ready h hg).1
  case onReady_execute => exact (run_ready h hg).1
  case mark_move => exact (run_ready h hg).1
  case mark_unlock =>
      exact ⟨(run_ready h hg.1).1, fun hc => (run_ready h hg.1).2.trans (hg.2 hc)⟩
  case mark_execute =>
      exact ⟨(run_ready h hg.1).1, fun hc => (run_ready h hg.1).2.trans (hg.2 hc)⟩

theorem run_valid (h : f.run t event = some o) (hf : f.valid event)
    (hm : ∀ status, f = .mark_move status → event.m_on_ready_callbacks ≠ [] →
      event.m_status = status) :
    ∀ g ∈ o.frames, g.valid o.event := by
  unfold run locking at h
  split at h <;> (try split at h) <;> cases h <;> simp_all [valid, unlock]

-- Callbacks are called once the event is ready, with its status, and without the mutex.
theorem run_invoked (h : f.run t event = some o) (hf : f.valid event)
    (x : OnReadyCallback × Option tt_pjrt_status) (hx : x ∈ o.invoked) :
    event.m_ready = true ∧ f.holds = false ∧ x.2 = makeError event.m_status := by
  unfold run locking at h
  split at h <;> (try split at h) <;> cases h <;>
    simp_all [valid, holds, EventInstance.getErrorFromStatus]

-- Callbacks are left in a ready event only until the thread that made it ready moves them.
theorem run_left (h : f.run t event = some o) (hr : o.event.m_ready = true)
    (hl : o.event.m_on_ready_callbacks ≠ []) :
    (event.m_ready = true ∧ event.m_on_ready_callbacks ≠ [] ∧ ∀ status, f ≠ .mark_move status) ∨
      ∃ status, f = .mark_ready status ∧ o.frames = [.mark_move status] ∧
        o.event.m_status = status := by
  unfold run locking at h
  split at h <;> (try split at h) <;> cases h <;> simp_all [lock, unlock]
  case h_7 => cases hr : event.m_ready <;> simp [markAsReadyNoLock_m_status, hr]

-- A step that waits, waits for the mutex.
theorem run_eq_none (h : f.run t event = none) :
    event.m_ready_mutex ≠ none ∧ f.holds = false := by
  unfold run locking at h
  split at h <;> (try split at h) <;> simp_all [holds]

-- Once the event is ready, every step uses fuel up.
theorem run_fuel (h : f.run t event = some o) (hr : event.m_ready = true)
    (ht : o.terminated = false) :
    2 * o.event.m_on_ready_callbacks.length + (o.frames.map fuel).sum + 1 ≤
      2 * event.m_on_ready_callbacks.length + f.fuel := by
  unfold run locking at h
  split at h <;> (try split at h) <;> cases h <;> simp_all [fuel, lock, unlock] <;> omega

-- A frame does not touch the event: its step is the same for any contents, and leaves them.
theorem run_of_not_touches (h : f.run t event = some o) (hf : f.touches = false)
    (event' : EventInstance T) :
    o.event = event ∧ f.run t event' = some { o with event := event' } := by
  unfold run at h
  split at h <;> cases hf <;> cases h <;> exact ⟨rfl, rfl⟩

theorem holds_touches (h : f.holds = true) : f.touches = true := by
  cases f <;> simp_all [holds, touches]

theorem destroys_touches (h : f.destroys = true) : f.touches = true := by
  cases f <;> simp_all [destroys, touches]

theorem awaits_touches (h : 0 < f.awaits) : f.touches = true := by
  cases f <;> simp_all [awaits, touches]

-- Only a frame of the destructor leaves frames of the destructor behind, and it is the last to
-- touch the event.
theorem run_destroys (h : f.run t event = some o) :
    (f.destroys = false → o.freed = false ∧ o.terminated = false ∧
        ∀ g ∈ o.frames, g.destroys = false) ∧
      (o.freed = true → o.frames = []) := by
  unfold run locking at h
  split at h <;> (try split at h) <;> cases h <;> simp_all [destroys]

theorem run_touches (h : f.run t event = some o) (hf : f.touches = false) :
    ∀ g ∈ o.frames, g.touches = false := by
  unfold run at h
  split at h <;> cases hf <;> cases h <;> simp [touches]

-- The destructor gives up only when there is still a consumer.
theorem run_terminated (h : f.run t event = some o) (ht : o.terminated = true) :
    o.event = event ∧ f.destroys = true ∧
      (event.m_awaiters_count ≠ 0 ∨ event.m_on_ready_callbacks ≠ []) := by
  unfold run locking at h
  split at h <;> (try split at h) <;> cases h <;> simp_all [destroys]

end Frame

end TTXla.PJRT
