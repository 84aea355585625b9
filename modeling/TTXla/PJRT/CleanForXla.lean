import TTXla.Lib.Dict
import TTXla.Lib.Excepts
import Mathlib.Algebra.Ring.Nat
import Mathlib.Data.List.Destutter

-- The shardings that are cleaned for XLA.
namespace TTXla.PJRT.CleanForXla

open Excepts

structure MeshAxis where
  name : String
  size : Nat

-- The axes of a mesh have different names, and are not empty.
structure Mesh where
  axes : List MeshAxis
  nodup : (axes.map (·.name)).Nodup
  pos : ∀ a ∈ axes, 0 < a.size

structure SubAxisInfo where
  pre_size : Nat
  size : Nat
deriving DecidableEq

structure AxisRef where
  name : String
  sub_axis_info : Option SubAxisInfo
deriving DecidableEq

structure TensorSharding where
  dim_shardings : List (List AxisRef)
  replicated_axes : List AxisRef
  unreduced_axes : List AxisRef

def SubAxisInfo.next_pre_size (info : SubAxisInfo) : Nat := info.pre_size * info.size

def Mesh.axis_size (mesh : Mesh) (name : String) : Nat :=
  ((mesh.axes.find? (·.name = name)).map (·.size)).getD 1

def AxisRef.size (axis_ref : AxisRef) (mesh : Mesh) : Nat :=
  match axis_ref.sub_axis_info with
  | some info => info.size
  | none => mesh.axis_size axis_ref.name

def TensorSharding.is_fully_replicated (sharding : TensorSharding) : Bool :=
  sharding.dim_shardings.all (·.isEmpty)

-- Append to the sizes of an axis, in a map that keeps the order of its keys.
def push_sizes (m : List (String × List Nat)) (name : String) (sizes : List Nat) :
    List (String × List Nat) :=
  if m.any (·.1 = name) then m.map fun x => if x.1 = name then (x.1, x.2 ++ sizes) else x
  else m ++ [(name, sizes)]

def consume_axis_ref_list (m : List (String × List Nat)) (axis_refs : List AxisRef) :
    List (String × List Nat) :=
  axis_refs.foldl (fun m axis_ref =>
    match axis_ref.sub_axis_info with
    | some info => push_sizes m axis_ref.name [info.pre_size, info.next_pre_size]
    | none => m) m

-- The parts of an axis between neighbouring sizes.
def axis_parts (name : String) (pre_sizes : List Nat) : List AxisRef :=
  if pre_sizes.length = 2 then [⟨name, none⟩]
  else
    let pre_sizes := (pre_sizes.mergeSort (· ≤ ·)).destutter (· ≠ ·)
    (pre_sizes.zip pre_sizes.tail).map fun x => ⟨name, some ⟨x.1, x.2 / x.1⟩⟩

def get_ordered_axis_refs (sharding : TensorSharding) (mesh : Mesh) : List AxisRef :=
  let m := mesh.axes.foldl (fun m axis => push_sizes m axis.name [1, axis.size]) []
  let m := sharding.dim_shardings.foldl consume_axis_ref_list m
  let m := consume_axis_ref_list m sharding.unreduced_axes
  m.flatMap fun x => axis_parts x.1 x.2

-- Where the dimensions that are not of size 1 go.
def old_to_new_dims (reshape_dims : List Nat) : List (Option Nat) :=
  (reshape_dims.foldl (fun (st : List (Option Nat) × Nat) dim =>
    if dim = 1 then (st.1 ++ [none], st.2) else (st.1 ++ [some st.2], st.2 + 1)) ([], 0)).1

-- Remove all dimensions of size 1.
def remove_unit_dims (reshape_dims transpose_perm : List Nat) :
    Except String (List Nat × List Nat) := do
  let old_to_new := old_to_new_dims reshape_dims
  let new_dims := reshape_dims.filter (· ≠ 1)
  if new_dims.length ≠ reshape_dims.length then
    let new_perm := transpose_perm.filterMap fun d => old_to_new.getD d none
    ensure (new_perm.length ≤ new_dims.length) "New index exceeds new number of dimensions"
    return (new_dims, new_perm)
  else
    return (reshape_dims, transpose_perm)

structure MergeState where
  base : Nat
  reshape_dims : List Nat
  changed : Bool

def merge_step (transpose_perm : List Nat) (st : MergeState) (i : Nat) : MergeState :=
  let base_dim := transpose_perm.getD st.base 0
  let dim := transpose_perm.getD i 0
  if base_dim + (i - st.base) = dim then
    let merged := st.reshape_dims.getD base_dim 1 * st.reshape_dims.getD dim 1
    { st with
      reshape_dims := (st.reshape_dims.set base_dim merged).set dim 1
      changed := true }
  else { st with base := i }

-- Merge subranges.
def merge_subranges (reshape_dims transpose_perm : List Nat) : MergeState :=
  (List.range' 1 (reshape_dims.length - 1)).foldl (merge_step transpose_perm)
    ⟨0, reshape_dims, false⟩

-- The loop, with a bound on its rounds.
def canonicalize_rounds : Nat → List Nat → List Nat → Except String (List Nat × List Nat)
  | 0, _, _ => .error "no rounds left"
  | rounds + 1, reshape_dims, transpose_perm => do
      let (reshape_dims, transpose_perm) ← remove_unit_dims reshape_dims transpose_perm
      let st := merge_subranges reshape_dims transpose_perm
      if st.changed then canonicalize_rounds rounds st.reshape_dims transpose_perm
      else return (st.reshape_dims, transpose_perm)

-- `rounds` is more than the loop takes.
def canonicalize_iota_dims (rounds : Nat) (reshape_dims transpose_perm : List Nat) :
    Except String (List Nat × List Nat) := do
  ensure (reshape_dims.length = transpose_perm.length)
    "Reshape dims and transpose perm must have the same size"
  if reshape_dims.length < 1 then return (reshape_dims, transpose_perm)
  else canonicalize_rounds rounds reshape_dims transpose_perm

-- The positions of the axes in the dimensions, in order.
def sharded_positions (sharding : TensorSharding) : Dict AxisRef Nat :=
  (sharding.dim_shardings.foldl (fun (st : Dict AxisRef Nat × Nat) axes =>
    axes.foldl (fun st axis_ref => (st.1.insert axis_ref st.2, st.2 + 1)) st) (∅, 0)).1

def tile_assignment_dims (sharding : TensorSharding) (mesh : Mesh) : List Nat :=
  sharding.dim_shardings.map fun axes =>
    axes.foldl (fun dim axis_ref => dim * axis_ref.size mesh) 1

structure IotaState where
  transpose_perm : List Nat
  replicated_pos : Nat
  total_replicated_size : Nat

-- The sharded axes go to their positions, and the others follow them.
def place_axis (sharded : Dict AxisRef Nat) (mesh : Mesh) (st : IotaState)
    (axis : AxisRef × Nat) : IotaState :=
  match sharded.lookup axis.1 with
  | none => {
      transpose_perm := st.transpose_perm.set st.replicated_pos axis.2
      replicated_pos := st.replicated_pos + 1
      total_replicated_size := st.total_replicated_size * axis.1.size mesh }
  | some pos => { st with transpose_perm := st.transpose_perm.set pos axis.2 }

-- `llvm::interleave` with commas.
def interleave (l : List Nat) : String := ",".intercalate (l.map toString)

def sharding_text (tile_dims reshape_dims transpose_perm : List Nat)
    (last_tile_dim_replicate : Bool) : String :=
  "\x7bdevices=[" ++ interleave tile_dims ++ "]<=[" ++ interleave reshape_dims ++ "]" ++
    (if transpose_perm ≠ List.range transpose_perm.length then
      "T(" ++ interleave transpose_perm ++ ")" else "") ++
    (if last_tile_dim_replicate then " last_tile_dim_replicate" else "") ++ "\x7d"

def extract_hlo_sharding_string (sharding : TensorSharding) (mesh : Mesh) :
    Except String String := do
  if sharding.is_fully_replicated then return "\x7breplicated\x7d"
  else
    let tile_dims := tile_assignment_dims sharding mesh
    let sharded := sharded_positions sharding
    let ordered := get_ordered_axis_refs sharding mesh
    let reshape_dims := ordered.map (·.size mesh)
    let st := ordered.zipIdx.foldl (place_axis sharded mesh)
      ⟨List.replicate ordered.length 0, (sharding.dim_shardings.map List.length).sum, 1⟩
    let last_tile_dim_replicate := 1 < st.total_replicated_size
    let tile_dims := if last_tile_dim_replicate then tile_dims ++ [st.total_replicated_size]
      else tile_dims
    let (reshape_dims, transpose_perm) ←
      canonicalize_iota_dims (ordered.length + 1) reshape_dims st.transpose_perm
    return sharding_text tile_dims reshape_dims transpose_perm last_tile_dim_replicate

end TTXla.PJRT.CleanForXla
