import TTXla.PJRT.Tensor

-- Executions: how the tensors of the arguments are prepared, and the buffers of the outputs.
namespace TTXla.PJRT

open Excepts

-- More functions of the runtime. `D` is the data that is copied from a tensor on the host.
structure DeviceRuntime (RT L D : Type) extends Runtime RT where
  hasLayout : RT → L → Bool
  toLayout : RT → L → Bool → RT
  getTensorRetain : RT → Bool
  isTensorAllocated : RT → Bool
  memcpy : RT → D
  createOwnedHostTensor : D → RT

inductive MeshShardType where
  | Identity
  | Replicate
  | Maximal
  | Devices
deriving DecidableEq

structure MeshSharding where
  shard_type : MeshShardType
  mesh_shape : List Int

structure Argument (L : Type) where
  arg_buffers : List BufferId
  sharding : MeshSharding
  expected_layout : L

structure ExecutableImage (RT : Type) where
  num_inputs : Nat
  num_devices : Nat
  devices_mesh_shape : List Nat
  -- `tt::runtime::submit`, which may throw
  submit : List RT → Option (List RT)

inductive Status where
  | kSuccess
  | kInternal
deriving DecidableEq

def fillStrategyMapFromSharding (sharding : MeshSharding) (num_devices : Nat) :
    Except Fault (Option Strategy) :=
  match sharding.shard_type with
  | .Replicate =>
      if num_devices = 1 then return some [("strategy", "identity")]
      else return some [("strategy", "replicate"), ("replication_factor", toString num_devices)]
  | .Devices =>
      match sharding.mesh_shape with
      | [shard_dim] => return some [("strategy", "shard"), ("shard_dim", toString shard_dim)]
      | [y, x] => return some [("strategy", "shard_2d"), ("mesh_shape_y", toString y),
          ("mesh_shape_x", toString x)]
      | _ => .error (.fatal "Mesh shape data size must be 1 or 2")
  | .Identity => return some [("strategy", "identity")]
  | .Maximal => return none

namespace World

variable {RT L D : Type} (runtime : DeviceRuntime RT L D) (w : World RT)

def ensure_layout (t : TensorPtr) (layout : L) : Except Fault (World RT) := do
  let tensor ← w.deref t
  if runtime.hasLayout tensor.m_runtime_tensor layout then return w
  else
    let retain := runtime.getTensorRetain tensor.m_runtime_tensor
    return w.set_tensor t { tensor with
      m_runtime_tensor := runtime.toLayout tensor.m_runtime_tensor layout retain }

def prepareInputTensor (arg : Argument L) (num_devices : Nat) (mesh_shape : List Nat) :
    Except Fault (World RT × Option RT) := do
  let strategy ← fillStrategyMapFromSharding arg.sharding num_devices
  match strategy with
  | none => return (w, none)
  | some strategy =>
      let (w, t) ← w.from_pjrt_buffers runtime.toRuntime arg.arg_buffers mesh_shape strategy
      let w ← w.ensure_layout runtime t arg.expected_layout
      let tensor ← w.deref t
      return (w, some tensor.m_runtime_tensor)

-- The tensors that are prepared until an argument fails.
def getInputRuntimeTensors (num_devices : Nat) (mesh_shape : List Nat) :
    List (Argument L) → World RT → List RT → Except Fault (World RT × Status × List RT)
  | [], w, input_tensors => return (w, .kSuccess, input_tensors)
  | arg :: args, w, input_tensors => do
      let (w, prepared_tensor) ← w.prepareInputTensor runtime arg num_devices mesh_shape
      match prepared_tensor with
      | none => return (w, .kInternal, input_tensors)
      | some prepared_tensor =>
          let input_tensors := input_tensors ++ [prepared_tensor]
          if !runtime.getTensorRetain prepared_tensor then return (w, .kInternal, input_tensors)
          else if !runtime.isTensorAllocated prepared_tensor then
            return (w, .kInternal, input_tensors)
          else getInputRuntimeTensors num_devices mesh_shape args w input_tensors

-- `createOutputBufferInstance` and `createInputBufferInstance`.
def create_buffer (b : BufferId) : World RT :=
  { w with buffers := Function.update w.buffers b (some ⟨none, none⟩) }

-- The buffers of an output, one for each device, get its tensor.
def fillPJRTOutputLists (outputs : List (RT × List BufferId)) : Except Fault (World RT) :=
  outputs.foldlM (fun w x => do
    let w := x.2.foldl create_buffer w
    let (w, _) ← w.from_runtime_tensor runtime.toRuntime x.2 x.1
    return w) w

-- `output_lists` are the buffers that are made for the outputs.
def execute (image : ExecutableImage RT) (args : List (Argument L))
    (output_lists : List (List BufferId)) : Except Fault (World RT × Status × List RT) := do
  if args.length ≠ image.num_inputs then return (w, .kInternal, [])
  else
    let (w, status, input_tensors) ←
      getInputRuntimeTensors runtime image.num_devices image.devices_mesh_shape args w []
    if status ≠ .kSuccess then return (w, status, input_tensors)
    else
      match image.submit input_tensors with
      | none => return (w, .kInternal, input_tensors)
      | some output_tensors =>
          if output_tensors.length ≠ output_lists.length then
            return (w, .kInternal, input_tensors)
          else
            let w ← w.fillPJRTOutputLists runtime (output_tensors.zip output_lists)
            return (w, .kSuccess, input_tensors)

-- The thread of `copyToHost`.
def copyToHost (b : BufferId) : Except Fault (World RT × D) := do
  let t ← w.pjrt_tensor b
  let w ← w.move_to_host runtime.toRuntime t
  let rt_tensor ← w.runtimeTensor b
  return (w, runtime.memcpy rt_tensor)

def copyFromHost (b : BufferId) (data : D) : Except Fault (World RT) := do
  let (w, _) ← w.from_runtime_tensor runtime.toRuntime [b] (runtime.createOwnedHostTensor data)
  return w

def copyFromBuffer (b src_buffer : BufferId) : Except Fault (World RT) := do
  let (w, data) ← w.copyToHost runtime src_buffer
  w.copyFromHost runtime b data

end World

end TTXla.PJRT
