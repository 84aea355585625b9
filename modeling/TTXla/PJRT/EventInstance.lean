import TTXla.Lib.Threads
import TTXla.Lib.Run
import TTXla.PJRT.Status
import Mathlib.Data.List.Count

-- Events, and threads that wait for them, mark them and destroy them.
namespace TTXla.PJRT

-- One registration of a callback function with its argument.
structure OnReadyCallback where
  id : Nat
deriving DecidableEq

structure EventInstance (T : Type) where
  m_ready : Bool
  m_status : tt_pjrt_status
  -- the thread that holds the mutex
  m_ready_mutex : Option T
  m_on_ready_callbacks : List OnReadyCallback
  m_indestructible : Bool
  m_awaiters_count : Nat

-- The places at which a thread can be interrupted in a member function: what it does next.
inductive Frame where
  | onReady_lock (cb : OnReadyCallback)
  | onReady_check (cb : OnReadyCallback)
  | onReady_return
  | onReady_unlock (cb : OnReadyCallback)
  | onReady_execute (cb : OnReadyCallback)
  | mark_lock (status : tt_pjrt_status)
  | mark_ready (status : tt_pjrt_status)
  | mark_move (status : tt_pjrt_status)
  | mark_unlock (status : tt_pjrt_status) (callbacks_to_execute : List OnReadyCallback)
  | mark_execute (status : tt_pjrt_status) (callbacks_to_execute : List OnReadyCallback)
  | isReady_lock (onError : Bool)
  | isReady_read (onError : Bool)
  | await_count
  | await_lock
  | await_wait
  | await_unlock
  | getErrorFromStatus
  | destroy_check
  | destroy_lock
  | destroy_guard
  | destroy_unlock
  | destroy_free
  -- the code of the user
  | callback (cb : OnReadyCallback)
deriving DecidableEq

-- What a step of a frame does: the frames that take its place, the marks made and the
-- callbacks called in it.
structure Outcome (T : Type) where
  event : EventInstance T
  frames : List Frame
  marked : List tt_pjrt_status := []
  invoked : List (OnReadyCallback × Option tt_pjrt_status) := []
  freed : Bool := false
  terminated : Bool := false

namespace EventInstance

variable {T : Type} (event : EventInstance T)

def lock (t : T) : EventInstance T := { event with m_ready_mutex := some t }

def unlock : EventInstance T := { event with m_ready_mutex := none }

def getErrorFromStatus : Option tt_pjrt_status := makeError event.m_status

def markAsReadyNoLock (status : tt_pjrt_status) : EventInstance T :=
  if event.m_ready then event else { event with m_ready := true, m_status := status }

-- A thread that locks the mutex waits while it is held.
def locking (t : T) (frame : Frame) : Option (Outcome T) :=
  if event.m_ready_mutex = none then some { event := event.lock t, frames := [frame] } else none

end EventInstance

variable {T : Type}

def Frame.run (t : T) (event : EventInstance T) : Frame → Option (Outcome T)
  | .onReady_lock cb => event.locking t (.onReady_check cb)
  | .onReady_check cb =>
      if event.m_ready then some { event := event, frames := [.onReady_unlock cb] }
      else some {
        event := { event with m_on_ready_callbacks := event.m_on_ready_callbacks ++ [cb] }
        frames := [.onReady_return] }
  | .onReady_return => some { event := event.unlock, frames := [] }
  | .onReady_unlock cb => some { event := event.unlock, frames := [.onReady_execute cb] }
  | .onReady_execute cb => some {
      event := event
      frames := [.callback cb]
      invoked := [(cb, event.getErrorFromStatus)] }
  | .mark_lock status => event.locking t (.mark_ready status)
  | .mark_ready status => some {
      event := event.markAsReadyNoLock status
      frames := [.mark_move status]
      marked := [status] }
  | .mark_move status => some {
      event := { event with m_on_ready_callbacks := [] }
      frames := [.mark_unlock status event.m_on_ready_callbacks] }
  | .mark_unlock status callbacks_to_execute => some {
      event := event.unlock
      frames := [.mark_execute status callbacks_to_execute] }
  | .mark_execute _ [] => some { event := event, frames := [] }
  | .mark_execute status (cb :: callbacks) => some {
      event := event
      frames := [.callback cb, .mark_execute status callbacks]
      invoked := [(cb, makeError status)] }
  | .isReady_lock onError => event.locking t (.isReady_read onError)
  -- `onEventError` throws when the event is not ready
  | .isReady_read onError => some {
      event := event.unlock
      frames := if onError && event.m_ready then [.getErrorFromStatus] else [] }
  | .await_count => some {
      event := { event with m_awaiters_count := event.m_awaiters_count + 1 }
      frames := [.await_lock] }
  | .await_lock => event.locking t .await_wait
  | .await_wait =>
      if event.m_ready then some {
        event := { event with m_awaiters_count := event.m_awaiters_count - 1 }
        frames := [.await_unlock] }
      -- the condition variable releases the mutex, and takes it again when it wakes up
      else some { event := event.unlock, frames := [.await_lock] }
  | .await_unlock => some { event := event.unlock, frames := [.getErrorFromStatus] }
  | .getErrorFromStatus => some { event := event, frames := [] }
  | .destroy_check =>
      if event.m_indestructible then some { event := event, frames := [] }
      else some { event := event, frames := [.destroy_lock] }
  | .destroy_lock => event.locking t .destroy_guard
  | .destroy_guard =>
      if event.m_awaiters_count ≠ 0 ∨ event.m_on_ready_callbacks ≠ [] then some {
        event := event
        frames := [.destroy_guard]
        terminated := true }
      else some { event := event, frames := [.destroy_unlock] }
  | .destroy_unlock => some { event := event.unlock, frames := [.destroy_free] }
  | .destroy_free => some { event := event, frames := [], freed := true }
  | .callback _ => some { event := event, frames := [] }

-- The frame is at a place between a lock of the mutex and its unlock.
def Frame.holds : Frame → Bool
  | .onReady_check _ | .onReady_return | .onReady_unlock _ | .mark_ready _ | .mark_move _
  | .mark_unlock _ _ | .isReady_read _ | .await_wait | .await_unlock | .destroy_guard
  | .destroy_unlock => true
  | _ => false

-- The next step of the frame reads or writes the event.
def Frame.touches : Frame → Bool
  | .mark_execute _ _ | .callback _ => false
  | _ => true

def Frame.destroys : Frame → Bool
  | .destroy_check | .destroy_lock | .destroy_guard | .destroy_unlock | .destroy_free => true
  | _ => false

-- The functions that a thread or a callback can call.
inductive Call where
  | onReady
  | markAsReadyAndCallback (status : tt_pjrt_status)
  | isReady
  | error
  | await
  | destroy
deriving DecidableEq

def Call.frame (id : Nat) : Call → Frame
  | .onReady => .onReady_lock ⟨id⟩
  | .markAsReadyAndCallback status => .mark_lock status
  | .isReady => .isReady_lock false
  | .error => .isReady_lock true
  | .await => .await_count
  | .destroy => .destroy_check

-- The event and the threads, with the log of all registrations, marks and invocations.
structure Process (T : Type) where
  event : EventInstance T
  threads : T → List Frame
  registered : Nat
  marks : List tt_pjrt_status
  invoked : List (OnReadyCallback × Option tt_pjrt_status)
  freed : Bool
  terminated : Bool
  -- memory of the event was used after it had been freed
  fault : Bool

def Process.createInstance (m_indestructible : Bool) : Process T where
  event := {
    m_ready := false
    m_status := .kUnknown
    m_ready_mutex := none
    m_on_ready_callbacks := []
    m_indestructible
    m_awaiters_count := 0 }
  threads := fun _ => []
  registered := 0
  marks := []
  invoked := []
  freed := false
  terminated := false
  fault := false

inductive Action (T : Type) where
  | call (t : T) (call : Call)
  | run (t : T)

namespace Process

variable [DecidableEq T] (p : Process T)

-- A thread that is in no function of the event, or in a callback, can call one.
def in_user_code (t : T) : Bool :=
  match p.threads t with
  | [] | .callback _ :: _ => true
  | _ => false

def invoke (t : T) (call : Call) : Process T :=
  { p with
    threads := Function.update p.threads t (call.frame p.registered :: p.threads t)
    registered := if call = .onReady then p.registered + 1 else p.registered }

def advance (t : T) (rest : List Frame) (o : Outcome T) : Process T :=
  { p with
    event := o.event
    threads := Function.update p.threads t (o.frames ++ rest)
    marks := p.marks ++ o.marked
    invoked := p.invoked ++ o.invoked
    freed := p.freed || o.freed
    terminated := o.terminated }

def step : Action T → Option (Process T)
  | .call t call =>
      if p.terminated || p.fault then none
      else if p.in_user_code t then some (p.invoke t call)
      else none
  | .run t =>
      if p.terminated || p.fault then none
      else
        match p.threads t with
        | [] => none
        | frame :: rest =>
            if p.freed && frame.touches then some { p with fault := true }
            else (frame.run t p.event).map (p.advance t rest)

end Process

end TTXla.PJRT
