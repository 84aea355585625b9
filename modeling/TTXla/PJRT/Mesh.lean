import Mathlib.Algebra.Ring.Nat
import Mathlib.Data.Finset.Card
import TTXla.PJRT.Execution

-- The mesh device of the client, the submesh of the optimizer, and the calls that open and
-- close them.
namespace TTXla.PJRT

open Excepts

-- `tt::runtime::Device`. The handles of closed meshes are not used again.
abbrev DeviceHandle := Nat

inductive FabricConfig where
  | DISABLED
  | FABRIC_1D
  | FABRIC_1D_RING
  | FABRIC_2D
  | other (value : Nat)
deriving DecidableEq

structure MeshFabricConfig where
  globalConfig : FabricConfig
  perAxisConfig : List FabricConfig

-- A mesh that is open, with the fabric configuration that was set when it was opened.
structure OpenMesh where
  shape : List Nat
  fabric_config : FabricConfig
  parent : Option DeviceHandle

-- What a call depends on outside the client: environment variables, the answers of the runtime,
-- and the order in which the set of the tensor pool is read.
structure Environment where
  distributed : Bool
  using_dualt3k : Bool
  computeMeshFabricConfig : List Nat → MeshFabricConfig
  opens : Bool
  creates_submesh : Bool
  pool_order : Finset TensorPtr → List TensorPtr
  mem_pool_order : ∀ s t, t ∈ pool_order s ↔ t ∈ s
  nodup_pool_order : ∀ s, (pool_order s).Nodup

-- The functions of the runtime that take a device.
structure MeshRuntime (RT L D : Type) extends Runtime RT where
  hasLayout : RT → L → Bool
  toLayout : DeviceHandle → RT → L → Bool → RT
  getTensorRetain : RT → Bool
  isTensorAllocated : RT → Bool
  memcpy : RT → D
  createOwnedHostTensor : D → RT

def MeshRuntime.on {RT L D : Type} (runtime : MeshRuntime RT L D) (device : DeviceHandle) :
    DeviceRuntime RT L D :=
  { runtime with toLayout := runtime.toLayout device }

-- An executable image whose program is submitted to a device.
structure Program (RT : Type) where
  num_inputs : Nat
  num_devices : Nat
  devices_mesh_shape : List Nat
  submit : DeviceHandle → List RT → Option (List RT)

structure Client (RT : Type) where
  world : World RT
  m_parent_mesh : Option DeviceHandle
  m_fabric_config : Option MeshFabricConfig
  m_optimizer_submesh : Option DeviceHandle
  -- the meshes of the runtime
  open_meshes : DeviceHandle → Option OpenMesh
  next_device : DeviceHandle

def Environment.computeFabricConfig (env : Environment) (mesh_shape : List Nat) :
    MeshFabricConfig :=
  if env.distributed then
    if env.using_dualt3k then ⟨.FABRIC_2D, []⟩
    else
      let num_devices := mesh_shape.foldl (fun num_devices dim => num_devices * dim % 2 ^ 32) 1
      ⟨if 1 < num_devices then .FABRIC_1D else .DISABLED, []⟩
  else env.computeMeshFabricConfig mesh_shape

namespace Client

variable {RT L D : Type} (runtime : MeshRuntime RT L D) (c : Client RT) (env : Environment)

-- A client without a mesh, as in the compile-only mode.
def init : Client RT := ⟨World.init, none, none, none, fun _ => none, 0⟩

def getMeshShape (d : DeviceHandle) : Except Fault (List Nat) := do
  let mesh ← get (c.open_meshes d) .use_after_free
  return mesh.shape

-- A handle is returned unless the runtime throws.
def openMeshDevice (mesh_shape : List Nat) : Client RT × Option DeviceHandle :=
  let fabric_config := env.computeFabricConfig mesh_shape
  let c := { c with m_fabric_config := some fabric_config }
  if env.opens then
    ({ c with
      open_meshes := Function.update c.open_meshes c.next_device
        (some ⟨mesh_shape, fabric_config.globalConfig, none⟩)
      next_device := c.next_device + 1 }, some c.next_device)
  else (c, none)

def closeParentMesh : Client RT :=
  match c.m_parent_mesh with
  | some d => { c with
      open_meshes := Function.update c.open_meshes d none
      m_parent_mesh := none
      m_fabric_config := none }
  | none => c

def closeOptimizerSubmesh : Client RT :=
  match c.m_optimizer_submesh with
  | some d => { c with
      open_meshes := Function.update c.open_meshes d none
      m_optimizer_submesh := none }
  | none => c

def closeMeshDevice : Client RT := c.closeOptimizerSubmesh.closeParentMesh

-- `m_parent_mesh` is assigned when the runtime does not throw.
def open_parent (mesh_shape : List Nat) : Client RT × Option DeviceHandle :=
  match c.openMeshDevice env mesh_shape with
  | (c, some d) => ({ c with m_parent_mesh := some d }, some d)
  | (c, none) => (c, none)

def getOrCreateMeshDevice (target_mesh_shape : List Nat) :
    Except Fault (Client RT × Option DeviceHandle) :=
  match c.m_parent_mesh with
  | none => return c.open_parent env target_mesh_shape
  | some d => do
      let parent_mesh_shape ← c.getMeshShape d
      let target_fabric_config := env.computeFabricConfig target_mesh_shape
      let should_reuse := parent_mesh_shape = target_mesh_shape ∧
        c.m_fabric_config.map (·.globalConfig) = some target_fabric_config.globalConfig
      if should_reuse then return (c, some d)
      else
        let world ← c.world.move_tensors_to_host runtime.toRuntime
          (env.pool_order c.world.m_tensors)
        let c := { c with world }.closeMeshDevice
        return c.open_parent env target_mesh_shape

def getOrCreateOptimizerSubmesh (target_mesh_shape : List Nat) :
    Except Fault (Client RT × Option DeviceHandle) := do
  let (c, parent_mesh) ← c.getOrCreateMeshDevice runtime env target_mesh_shape
  match parent_mesh with
  | none => return (c, none)
  | some parent_mesh =>
      let reusable ← match c.m_optimizer_submesh with
        | some d => do
            let optimizer_submesh_shape ← c.getMeshShape d
            pure (decide (optimizer_submesh_shape = target_mesh_shape))
        | none => pure false
      if reusable then return (c, c.m_optimizer_submesh)
      else
        let c := { c with m_optimizer_submesh := none }
        if env.creates_submesh then
          let mesh ← get (c.open_meshes parent_mesh) .use_after_free
          return ({ c with
            m_optimizer_submesh := some c.next_device
            open_meshes := Function.update c.open_meshes c.next_device
              (some ⟨target_mesh_shape, mesh.fabric_config, some parent_mesh⟩)
            next_device := c.next_device + 1 }, some c.next_device)
        else return (c, none)

-- The calls of `buildModule`: the passes before the pipeline and the pipeline can fail.
def compile (optimization_level : Int) (mesh_shape : List Nat) (frontend pipeline : Bool) :
    Except Fault (Client RT) := do
  let current_mesh_shape ← match c.m_parent_mesh with
    | some d => some <$> c.getMeshShape d
    | none => pure none
  if !frontend then return c
  else
    let (c, created) ←
      if 1 ≤ optimization_level then do
        let (c, submesh) ← c.getOrCreateOptimizerSubmesh runtime env mesh_shape
        pure (c, submesh.isSome)
      else pure (c, true)
    if !created then return c
    else
      let c := c.closeOptimizerSubmesh
      if !pipeline then return c
      else if current_mesh_shape.isSome && current_mesh_shape != some mesh_shape then do
        let (c, _) ← c.getOrCreateMeshDevice runtime env mesh_shape
        return c
      else return c

-- `LoadedExecutableInstance::getOrCreateMeshDevice`. The ids are those of the devices of the
-- first arguments.
def executable_mesh (program : Program RT) (device_ids : Finset Int)
    (execute_device : Option Int) : Except Fault (Client RT × Option DeviceHandle) :=
  let mesh_shape_num_devices :=
    program.devices_mesh_shape.foldl (fun product dim => product * dim % 2 ^ 32) 1
  if device_ids.card ≠ mesh_shape_num_devices then return (c, none)
  else if execute_device.all fun id => device_ids = {id} then
    c.getOrCreateMeshDevice runtime env program.devices_mesh_shape
  else return (c, none)

-- `execute` up to the submission: the device and the prepared inputs.
def prepare (program : Program RT) (device_ids : Finset Int) (execute_device : Option Int)
    (args : List (Argument L)) : Except Fault (Client RT × Option (DeviceHandle × List RT)) :=
  if args.length ≠ program.num_inputs then return (c, none)
  else do
    let (c, runtime_device) ← c.executable_mesh runtime env program device_ids execute_device
    match runtime_device with
    | none => return (c, none)
    | some d =>
        let (world, status, input_tensors) ← World.getInputRuntimeTensors (runtime.on d)
          program.num_devices program.devices_mesh_shape args c.world []
        let c := { c with world }
        if status ≠ .kSuccess then return (c, none)
        else return (c, some (d, input_tensors))

def execute (program : Program RT) (device_ids : Finset Int) (execute_device : Option Int)
    (args : List (Argument L)) (output_lists : List (List BufferId)) :
    Except Fault (Client RT) := do
  let (c, prepared) ← c.prepare runtime env program device_ids execute_device args
  match prepared with
  | none => return c
  | some (d, input_tensors) =>
      match program.submit d input_tensors with
      | none => return c.closeMeshDevice
      | some output_tensors =>
          if output_tensors.length ≠ output_lists.length then return c
          else
            let world ← c.world.fillPJRTOutputLists (runtime.on d)
              (output_tensors.zip output_lists)
            return { c with world }

end Client

-- The calls of the users of a client.
inductive ClientCall (RT L D : Type) where
  | compile (env : Environment) (optimization_level : Int) (mesh_shape : List Nat)
      (frontend pipeline : Bool)
  | execute (env : Environment) (program : Program RT) (device_ids : Finset Int)
      (execute_device : Option Int) (args : List (Argument L))
      (output_lists : List (List BufferId))
  | closeOptimizerSubmesh
  -- an executable of the code generation has no program to submit
  | getOrCreateMeshDevice (env : Environment) (mesh_shape : List Nat)
  | copyFromHost (b : BufferId) (data : D)
  | copyToHost (b : BufferId)
  | copyFromBuffer (b src_buffer : BufferId)
  | destroy (b : BufferId)

def Client.run {RT L D : Type} (runtime : MeshRuntime RT L D) (c : Client RT) :
    ClientCall RT L D → Except Fault (Client RT)
  | .compile env optimization_level mesh_shape frontend pipeline =>
      c.compile runtime env optimization_level mesh_shape frontend pipeline
  | .execute env program device_ids execute_device args output_lists =>
      c.execute runtime env program device_ids execute_device args output_lists
  | .closeOptimizerSubmesh => return c.closeOptimizerSubmesh
  | .getOrCreateMeshDevice env mesh_shape => do
      let (c, _) ← c.getOrCreateMeshDevice runtime env mesh_shape
      return c
  | .copyFromHost b data => do
      let world ← (c.world.create_buffer b).copyFromHost (runtime.on 0) b data
      return { c with world }
  | .copyToHost b => do
      let (world, _) ← c.world.copyToHost (runtime.on 0) b
      return { c with world }
  | .copyFromBuffer b src_buffer => do
      let world ← (c.world.create_buffer b).copyFromBuffer (runtime.on 0) b src_buffer
      return { c with world }
  | .destroy b => do
      let world ← c.world.destroy_buffer b
      return { c with world }

def Client.step {RT L D : Type} (runtime : MeshRuntime RT L D) (c : Client RT)
    (call : ClientCall RT L D) : Option (Client RT) :=
  (c.run runtime call).toOption

end TTXla.PJRT
