import TTXla.Lib.Excepts
import Mathlib.Data.Finset.Erase
import Mathlib.Data.Finset.Insert
import Mathlib.Logic.Function.Basic

-- The tensors that the buffers share, and the tensor pool.
namespace TTXla.PJRT

open Excepts

abbrev BufferId := Nat

-- A tensor is named by its address. The addresses of destroyed tensors are not used again.
abbrev TensorPtr := Nat

abbrev Strategy := List (String × String)

-- The functions of the runtime, over its tensors.
structure Runtime (RT : Type) where
  toHost : RT → List RT
  setTensorRetain : RT → Bool → RT
  createMultiDeviceHostTensor : List RT → Strategy → List Nat → RT

inductive Fault where
  -- `TT_FATAL`
  | fatal (message : String)
  | out_of_range
  -- undefined behaviour: a destroyed object, a null pointer, an element that is not there
  | use_after_free
  | null_dereference
  | no_element
deriving DecidableEq, Repr

-- `use_count` is that of the shared pointers to the tensor.
structure PjrtTensor (RT : Type) where
  m_shards : List (Option BufferId)
  m_runtime_tensor : RT
  use_count : Nat

structure PjrtTensorRef where
  m_tensor : Option TensorPtr
  m_shard : Option BufferId

-- The live buffers with their references, the tensors that are not destroyed, and the pool.
structure World (RT : Type) where
  buffers : BufferId → Option PjrtTensorRef
  tensors : TensorPtr → Option (PjrtTensor RT)
  m_tensors : Finset TensorPtr
  next_uid : TensorPtr

namespace World

variable {RT : Type} (runtime : Runtime RT) (w : World RT)

def init : World RT := ⟨fun _ => none, fun _ => none, ∅, 0⟩

def deref (t : TensorPtr) : Except Fault (PjrtTensor RT) := get (w.tensors t) .use_after_free

def buffer (b : BufferId) : Except Fault PjrtTensorRef := get (w.buffers b) .use_after_free

def set_tensor (t : TensorPtr) (tensor : PjrtTensor RT) : World RT :=
  { w with tensors := Function.update w.tensors t (some tensor) }

def set_ref (b : BufferId) (ref : PjrtTensorRef) : World RT :=
  { w with buffers := Function.update w.buffers b (some ref) }

-- `PjrtTensorPool::insert` and `erase`.
def insert (t : TensorPtr) : Except Fault (World RT) := do
  ensure (t ∉ w.m_tensors) (.fatal "Tensor already exists in the pool")
  return { w with m_tensors := Insert.insert t w.m_tensors }

def erase (t : TensorPtr) : Except Fault (World RT) := do
  ensure (t ∈ w.m_tensors) (.fatal "Tensor not found in the pool")
  return { w with m_tensors := w.m_tensors.erase t }

-- A shared pointer is copied, and dropped: the last one destroys the tensor.
def share (t : TensorPtr) : Except Fault (World RT) := do
  let tensor ← w.deref t
  return w.set_tensor t { tensor with use_count := tensor.use_count + 1 }

def release (t : TensorPtr) : Except Fault (World RT) := do
  let tensor ← w.deref t
  if tensor.use_count = 1 then
    let w ← w.erase t
    return { w with tensors := Function.update w.tensors t none }
  else
    return w.set_tensor t { tensor with use_count := tensor.use_count - 1 }

-- The entry of the shard becomes `nullptr`.
def remove_shard (t : TensorPtr) (shard : BufferId) : Except Fault (World RT) := do
  let tensor ← w.deref t
  ensure (some shard ∈ tensor.m_shards) (.fatal "Shard not found or already removed")
  return w.set_tensor t { tensor with m_shards := tensor.m_shards.replace (some shard) none }

-- `PjrtTensorRef::reset` of the reference of buffer `b`, which takes over the pointer `tensor`.
def reset (b : BufferId) (tensor : Option TensorPtr) (shard : Option BufferId) :
    Except Fault (World RT) := do
  ensure (tensor.isSome = shard.isSome) (.fatal "Both must be nullptr or have a value.")
  if let some t := tensor then
    let new_tensor ← w.deref t
    ensure (shard ∈ new_tensor.m_shards) (.fatal "Tensor does not have the given shard")
  let ref ← w.buffer b
  let w ← match ref.m_shard with
    | some m_shard => do
        let t ← get ref.m_tensor .null_dereference
        w.remove_shard t m_shard
    | none => pure w
  let w := w.set_ref b ⟨tensor, shard⟩
  match ref.m_tensor with
    | some t => w.release t
    | none => return w

def setPjrtTensor (b : BufferId) (pjrt_tensor : TensorPtr) : Except Fault (World RT) := do
  let w ← w.share pjrt_tensor
  w.reset b pjrt_tensor b

-- `~BufferInstance`.
def destroy_buffer (b : BufferId) : Except Fault (World RT) := do
  let w ← w.reset b none none
  return { w with buffers := Function.update w.buffers b none }

-- The loop over the shards reads each entry when it comes to it.
def set_shards (t : TensorPtr) (is : List Nat) : Except Fault (World RT) :=
  is.foldlM (fun w i => do
    let tensor ← w.deref t
    let shard ← get (tensor.m_shards[i]?.getD none) .null_dereference
    w.setPjrtTensor shard t) w

def from_runtime_tensor (shards : List BufferId) (rt_tensor : RT) :
    Except Fault (World RT × TensorPtr) := do
  let rt_tensor := runtime.setTensorRetain rt_tensor true
  let t := w.next_uid
  let w := { w with
    tensors := Function.update w.tensors t (some ⟨shards.map some, rt_tensor, 1⟩)
    next_uid := t + 1 }
  let w ← w.insert t
  let w ← w.set_shards t (List.range shards.length)
  -- the pointer of the function itself
  let w ← w.release t
  return (w, t)

def have_same_tensor (shards : List BufferId) : Except Fault Bool := do
  let refs ← shards.mapM w.buffer
  return refs.all fun ref => ref.m_tensor = (refs.head?.bind (·.m_tensor))

-- `operator*` and `operator->` of the reference of a buffer.
def pjrt_tensor (b : BufferId) : Except Fault TensorPtr := do
  let ref ← w.buffer b
  get ref.m_tensor (.fatal "Accessing non-existing PJRT tensor")

def from_shards (shards : List BufferId) : Except Fault TensorPtr := do
  let same ← w.have_same_tensor shards
  ensure (same = true) (.fatal "All shards must share the same tensor")
  let front ← get shards.head? .no_element
  w.pjrt_tensor front

def runtimeTensor (b : BufferId) : Except Fault RT := do
  let t ← w.pjrt_tensor b
  let tensor ← w.deref t
  return tensor.m_runtime_tensor

def rt_tensor_from_strategy (shards : List BufferId) (strategy : Strategy)
    (mesh_shape : List Nat) : Except Fault RT := do
  let name ← get (strategy.lookup "strategy") .out_of_range
  if name = "identity" then
    let front ← get shards.head? .no_element
    w.runtimeTensor front
  else
    let tensors ← shards.mapM w.runtimeTensor
    return runtime.createMultiDeviceHostTensor tensors strategy mesh_shape

def from_pjrt_buffers (shards : List BufferId) (mesh_shape : List Nat) (strategy : Strategy) :
    Except Fault (World RT × TensorPtr) := do
  let same ← w.have_same_tensor shards
  if same then
    let t ← w.from_shards shards
    return (w, t)
  else
    let rt_tensor ← w.rt_tensor_from_strategy runtime shards strategy mesh_shape
    w.from_runtime_tensor runtime shards rt_tensor

-- A shard that is not deleted gets a tensor of its own.
def move_shard (t : TensorPtr) (tensors : List RT) (i : Nat) : Except Fault (World RT) := do
  let this ← w.deref t
  let shard ← get this.m_shards[i]? .no_element
  match shard with
  | none => return w
  | some b =>
      let rt_tensor ← if tensors.length = 1 then pure this.m_runtime_tensor
        else get tensors[i]? .no_element
      let (w, _) ← w.from_runtime_tensor runtime [b] rt_tensor
      return w

-- Nothing in the loop changes the number of shards.
def move_to_host (t : TensorPtr) : Except Fault (World RT) := do
  let this ← w.deref t
  let tensors := runtime.toHost this.m_runtime_tensor
  ensure (tensors.length = this.m_shards.length ∨ tensors.length = 1)
    (.fatal "Unexpected number of tensors after move to host")
  let first ← get tensors[0]? .no_element
  let w := w.set_tensor t { this with m_runtime_tensor := first }
  let w ← (List.range' 1 (this.m_shards.length - 1)).foldlM
    (fun w i => w.move_shard runtime t tensors i) w
  let this ← w.deref t
  return w.set_tensor t { this with m_shards := [this.m_shards.headD none] }

-- The set is copied first, in any order.
def move_tensors_to_host (tensors : List TensorPtr) : Except Fault (World RT) :=
  tensors.foldlM (fun w t => w.move_to_host runtime t) w

end World

end TTXla.PJRT
