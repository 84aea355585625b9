import TTXla.Lib.Decimal
import TTXla.Lib.Excepts
import TTXla.Lib.Text
import Mathlib.Data.List.ReduceOption

-- The sharding text of a partition spec.
namespace TTXla.TTTorch

open Excepts Text Decimal

inductive Axis where
  | index (i : Int)
  | name (s : String)
deriving DecidableEq

inductive SpecEntry where
  | None
  | axis (a : Axis)
  | tuple (axes : List (Option Axis))
deriving DecidableEq

structure Mesh where
  axis_names : List String
  mesh_shape : List Nat
  h_shape : mesh_shape.length = axis_names.length

inductive ShardingError where
  | IndexError
deriving DecidableEq

def MESH_IDX_PREFIX : String := "mesh_idx_"

def mesh_idx (axis : Int) : String := MESH_IDX_PREFIX ++ toString axis

-- A reference in double quotes, and the axes of a dimension in braces.
def axis_ref (axis : Int) : String := "\x22" ++ mesh_idx axis ++ "\x22"

def braced (axis_refs : List String) : String :=
  "\x7b" ++ ", ".intercalate axis_refs ++ "\x7d"

namespace Mesh

variable (mesh : Mesh)

-- A name that the mesh does not have is dropped.
def axis_idx : Axis → Option Int
  | .name s => (mesh.axis_names.idxOf? s).map Int.ofNat
  | .index i => some i

-- `mesh.mesh_shape[axis]`, where a negative index counts from the end.
def size (axis : Int) : Except ShardingError Nat :=
  let i := if 0 ≤ axis then axis else mesh.mesh_shape.length + axis
  get (if 0 ≤ i then mesh.mesh_shape[i.toNat]? else none) .IndexError

-- The axes that an entry refers to.
def axes_of : SpecEntry → List Int
  | .None => []
  | .axis a => (mesh.axis_idx a).toList
  | .tuple axes => axes.reduceOption.filterMap mesh.axis_idx

-- What a round of the loop appends to `dim_shardings`.
def dim_sharding : SpecEntry → Except ShardingError (List String)
  | .None => return [braced []]
  | .axis (.name axis) =>
      match mesh.axis_names.idxOf? axis with
      | some axis_idx => do
          let size ← mesh.size axis_idx
          return [if 1 < size then braced [axis_ref axis_idx] else braced []]
      | none => return [braced []]
  | .axis (.index axis) => do
      let size ← mesh.size axis
      return (if 1 < size then [braced [axis_ref axis]] else []) ++ [braced [axis_ref axis]]
  | .tuple axes =>
      let axis_refs := (mesh.axes_of (.tuple axes)).map axis_ref
      return [if axis_refs = [] then braced [] else braced axis_refs]

end Mesh

def partition_spec_to_sdy_sharding (mesh : Mesh) (partition_spec : List SpecEntry)
    (unreduced : List Axis) : Except ShardingError String := do
  let dim_shardings ← partition_spec.mapM mesh.dim_sharding
  let dims_str := ", ".intercalate dim_shardings.flatten
  let unreduced_refs := (unreduced.filterMap mesh.axis_idx).map axis_ref
  let unreduced_str := if unreduced_refs = [] then "" else ", unreduced=" ++ braced unreduced_refs
  return "#sdy.sharding_per_value<[<@mesh, [" ++ dims_str ++ "]" ++ unreduced_str ++ ">]>"

-- What a text lists: the references of each dimension, and those without reduction.
structure Sharding where
  dims : List (List String)
  unreduced : List String
deriving DecidableEq

namespace Sharding

def read_refs : Reader (List String) :=
  enclosed quoted ['\x7b'] [',', ' '] ['\x7d']

def read_dims : Reader (List (List String)) := enclosed read_refs ['['] [',', ' '] [']']

def read_unreduced : Reader (List String) := fun cs =>
  if (literal ", unreduced=".toList cs).isSome then do
    let (_, cs) ← literal ", unreduced=".toList cs
    read_refs cs
  else some ([], cs)

def read (cs : List Char) : Option Sharding := do
  let (_, cs) ← literal "#sdy.sharding_per_value<[<@mesh, ".toList cs
  let (dims, cs) ← read_dims cs
  let (unreduced, cs) ← read_unreduced cs
  if cs = ">]>".toList then some ⟨dims, unreduced⟩ else none

def parse (text : String) : Option Sharding := read text.toList

end Sharding

end TTXla.TTTorch
