import TTXla.PJRT.Mesh

-- Buffers that are made from host memory, the events that give the memory back, and the threads
-- that copy to the host.
namespace TTXla.PJRT

open Excepts

-- The host memory of one call of `copyFromHost`. Memory that two calls are given is lent twice.
abbrev HostBuffer := Nat

inductive HostBufferSemantics where
  | kImmutableOnlyDuringCall
  | kImmutableUntilTransferCompletes
  | kImmutableZeroCopy
  | kMutableZeroCopy
deriving DecidableEq

-- The functions of the runtime on host memory, and the submission. `DT` are the data types of
-- the runtime, `B` the binaries.
structure HostRuntime (RT L D DT B : Type) extends MeshRuntime RT L D where
  isSupportedDataType : DT → Bool
  createBorrowedHostTensor : HostBuffer → D → RT
  submit : B → DeviceHandle → List RT → Option (List RT)

-- An executable image.
structure Executable (B : Type) where
  num_inputs : Nat
  num_devices : Nat
  devices_mesh_shape : List Nat
  binary : B

-- A thread stays joinable when it has ended.
inductive CopyToHostThread where
  | not_joinable
  | running
  | ended
deriving DecidableEq

-- The parts of a buffer beside its tensor. The event is named by its host memory.
structure HostState where
  m_done_with_host_buffer_event : Option HostBuffer
  m_data_deleted : Bool
  m_copy_to_host_thread : CopyToHostThread

def HostState.init : HostState := ⟨none, false, .not_joinable⟩

-- `ready` is the host memory whose event has been marked as ready. A buffer that is not live has
-- the state of a new one.
structure HostClient (RT : Type) where
  client : Client RT
  buffers : BufferId → HostState
  ready : Finset HostBuffer
  next_host_buffer : HostBuffer

inductive HostCall (L D DT B : Type) where
  | copyFromHost (b : BufferId) (data : D) (distributed : Bool) (semantics : HostBufferSemantics)
      (data_type : DT)
  | copyToHost (b : BufferId)
  -- the thread that `copyToHost` starts
  | copy_to_host_thread (b : BufferId)
  | copyFromBuffer (b src_buffer : BufferId)
  | deleteData (b : BufferId)
  | destroy (b : BufferId)
  | compile (env : Environment) (optimization_level : Int) (mesh_shape : List Nat)
      (frontend pipeline : Bool)
  | execute (env : Environment) (executable : Executable B) (device_ids : Finset Int)
      (execute_device : Option Int) (args : List (Argument L))
      (output_lists : List (List BufferId))
  | closeOptimizerSubmesh
  | getOrCreateMeshDevice (env : Environment) (mesh_shape : List Nat)

section

variable {RT L D DT B : Type} (runtime : HostRuntime RT L D DT B)

def Executable.program (executable : Executable B) : Program RT :=
  ⟨executable.num_inputs, executable.num_devices, executable.devices_mesh_shape,
    runtime.submit executable.binary⟩

namespace HostClient

variable (s : HostClient RT)

def init : HostClient RT := ⟨Client.init, fun _ => .init, ∅, 0⟩

def with_world (world : World RT) : HostClient RT := { s with client := { s.client with world } }

def set_buffer (b : BufferId) (state : HostState) : HostClient RT :=
  { s with buffers := Function.update s.buffers b state }

def markAsReady (host_buffer : HostBuffer) : HostClient RT :=
  { s with ready := insert host_buffer s.ready }

def copyFromHost (b : BufferId) (data : D) (distributed : Bool) (semantics : HostBufferSemantics)
    (data_type : DT) : Except Fault (HostClient RT) := do
  let host_buffer := s.next_host_buffer
  let s := { s with next_host_buffer := host_buffer + 1 }
  let world := s.client.world.create_buffer b
  if distributed ∨ semantics = .kImmutableOnlyDuringCall ∨
      runtime.isSupportedDataType data_type = false then
    let world ← world.copyFromHost (runtime.on 0) b data
    return ((s.with_world world).set_buffer b .init).markAsReady host_buffer
  else
    let runtime_tensor := runtime.createBorrowedHostTensor host_buffer data
    let (world, _) ← world.from_runtime_tensor runtime.toRuntime [b] runtime_tensor
    return (s.with_world world).set_buffer b ⟨some host_buffer, false, .not_joinable⟩

-- The thread is joined.
def copyToHost (b : BufferId) : Except Fault (HostClient RT) := do
  let _ ← s.client.world.pjrt_tensor b
  return s.set_buffer b { s.buffers b with m_copy_to_host_thread := .running }

-- A check that fails is caught. `move_to_host` makes its check before it changes anything.
def copy_to_host_thread (b : BufferId) : Except Fault (HostClient RT × Option D) :=
  let ended := s.set_buffer b { s.buffers b with m_copy_to_host_thread := .ended }
  match s.client.world.copyToHost (runtime.on 0) b with
  | .ok (world, data) => return (ended.with_world world, some data)
  | .error (.fatal _) => return (ended, none)
  | .error fault => .error fault

-- The tensor stays.
def deleteData (b : BufferId) : HostClient RT :=
  let state := s.buffers b
  if state.m_data_deleted then s
  else
    let s := s.set_buffer b
      { state with m_data_deleted := true, m_copy_to_host_thread := .not_joinable }
    match state.m_done_with_host_buffer_event with
    | some host_buffer => s.markAsReady host_buffer
    | none => s

-- `~BufferInstance` deletes the data, then the reference to the tensor is destroyed.
def destroy (b : BufferId) : Except Fault (HostClient RT) := do
  let world ← s.client.world.destroy_buffer b
  return ((s.deleteData b).with_world world).set_buffer b .init

-- The state after a call, and the data that a thread has copied.
def run : HostCall L D DT B → Except Fault (HostClient RT × Option D)
  | .copyFromHost b data distributed semantics data_type => do
      let s ← s.copyFromHost runtime b data distributed semantics data_type
      return (s, none)
  | .copyToHost b => do
      let s ← s.copyToHost b
      return (s, none)
  | .copy_to_host_thread b => s.copy_to_host_thread runtime b
  | .copyFromBuffer b src_buffer => do
      let world ←
        (s.client.world.create_buffer b).copyFromBuffer (runtime.on 0) b src_buffer
      return ((s.with_world world).set_buffer b .init, none)
  | .deleteData b => do
      let _ ← s.client.world.buffer b
      return (s.deleteData b, none)
  | .destroy b => do
      let s ← s.destroy b
      return (s, none)
  | .compile env optimization_level mesh_shape frontend pipeline => do
      let client ← s.client.compile runtime.toMeshRuntime env optimization_level mesh_shape
        frontend pipeline
      return ({ s with client }, none)
  | .execute env executable device_ids execute_device args output_lists => do
      let client ← s.client.execute runtime.toMeshRuntime env (executable.program runtime)
        device_ids execute_device args output_lists
      return ({ s with client }, none)
  | .closeOptimizerSubmesh => return ({ s with client := s.client.closeOptimizerSubmesh }, none)
  | .getOrCreateMeshDevice env mesh_shape => do
      let (client, _) ← s.client.getOrCreateMeshDevice runtime.toMeshRuntime env mesh_shape
      return ({ s with client }, none)

-- A join waits for the thread, which runs once. A buffer that was deleted does not join the
-- thread that was started later: when it is destroyed, the thread must have been joined.
def Enabled : HostCall L D DT B → Prop
  | .copyToHost b => (s.buffers b).m_copy_to_host_thread ≠ .running
  | .copy_to_host_thread b => (s.buffers b).m_copy_to_host_thread = .running
  | .deleteData b =>
      (s.buffers b).m_data_deleted = true ∨ (s.buffers b).m_copy_to_host_thread ≠ .running
  | .destroy b =>
      if (s.buffers b).m_data_deleted then (s.buffers b).m_copy_to_host_thread = .not_joinable
      else (s.buffers b).m_copy_to_host_thread ≠ .running
  | _ => True

instance (call : HostCall L D DT B) : Decidable (s.Enabled call) := by
  unfold Enabled
  split <;> infer_instance

def step (call : HostCall L D DT B) : Option (HostClient RT) :=
  if s.Enabled call then (s.run runtime call).toOption.map (·.1) else none

end HostClient

end

end TTXla.PJRT
