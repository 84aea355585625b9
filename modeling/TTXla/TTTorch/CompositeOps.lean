import TTXla.Lib.Dataflow.Blocks
import Mathlib.Data.Finset.Insert
import Mathlib.Data.Finset.Card
import Mathlib.Algebra.Order.Field.Rat

-- Graphs of calls on tensors and tuples, and the replacement of their operators by composites.
namespace TTXla.TTTorch.CompositeOps

open TTXla.Dataflow

-- `T` are the tensors.
inductive Value (T : Type) where
  | none
  | bool (b : Bool)
  | int (i : Int)
  | float (q : ℚ)
  | str (s : String)
  | tensor (t : T)
  | tuple (values : List (Value T))

-- An argument of a node, which may use nodes at any depth.
inductive Arg (T : Type) where
  | node (name : Nat)
  | value (v : Value T)
  | tuple (args : List (Arg T))

-- The functions that the pass looks for, the composites, and any others.
inductive Function (F : Type) where
  | getitem
  | gelu
  | rms_norm
  | functional_rms_norm
  | layer_norm
  | topk
  | composite_gelu
  | composite_rms_norm
  | composite_layer_norm
  | composite_topk
  | composite_topk_values
  | composite_topk_indices
  | other (f : F)

inductive Op (F T : Type) where
  | placeholder (target : String)
  | get_attr (target : String)
  | call_function (target : Function F) (args : List (Arg T)) (kwargs : List (String × Arg T))
  | call_method (target : String) (args : List (Arg T)) (kwargs : List (String × Arg T))
  | call_module (target : String) (args : List (Arg T)) (kwargs : List (String × Arg T))
  | output (arg : Arg T)

structure Node (F T : Type) where
  name : Nat
  op : Op F T

abbrev Graph (F T : Type) := List (Node F T)

variable {F M T : Type}

section Arguments

mutual

def Arg.uses : Arg T → List Nat
  | .node name => [name]
  | .value _ => []
  | .tuple args => Arg.all_uses args

def Arg.all_uses : List (Arg T) → List Nat
  | [] => []
  | a :: args => a.uses ++ Arg.all_uses args

end

mutual

def Arg.replace (σ : Nat → Nat) : Arg T → Arg T
  | .node name => .node (σ name)
  | .value v => .value v
  | .tuple args => .tuple (Arg.replace_all σ args)

def Arg.replace_all (σ : Nat → Nat) : List (Arg T) → List (Arg T)
  | [] => []
  | a :: args => a.replace σ :: Arg.replace_all σ args

end

mutual

def Arg.eval (env : Nat → Option (Value T)) : Arg T → Option (Value T)
  | .node name => env name
  | .value v => some v
  | .tuple args => (Arg.eval_all env args).map Value.tuple

def Arg.eval_all (env : Nat → Option (Value T)) : List (Arg T) → Option (List (Value T))
  | [] => some []
  | a :: args => do
      let v ← a.eval env
      let values ← Arg.eval_all env args
      return v :: values

end

def Arg.eval_kwargs (env : Nat → Option (Value T)) (kwargs : List (String × Arg T)) :
    Option (List (String × Value T)) := do
  let values ← Arg.eval_all env (kwargs.map Prod.snd)
  return (kwargs.map Prod.fst).zip values

def Op.uses : Op F T → List Nat
  | .placeholder _ | .get_attr _ => []
  | .call_function _ args kwargs | .call_method _ args kwargs | .call_module _ args kwargs =>
      Arg.all_uses args ++ Arg.all_uses (kwargs.map Prod.snd)
  | .output arg => arg.uses

def Arg.replace_kwargs (σ : Nat → Nat) (kwargs : List (String × Arg T)) :
    List (String × Arg T) :=
  kwargs.map fun x => (x.1, x.2.replace σ)

def Op.replace (σ : Nat → Nat) : Op F T → Op F T
  | .placeholder target => .placeholder target
  | .get_attr target => .get_attr target
  | .call_function target args kwargs =>
      .call_function target (Arg.replace_all σ args) (Arg.replace_kwargs σ kwargs)
  | .call_method target args kwargs =>
      .call_method target (Arg.replace_all σ args) (Arg.replace_kwargs σ kwargs)
  | .call_module target args kwargs =>
      .call_module target (Arg.replace_all σ args) (Arg.replace_kwargs σ kwargs)
  | .output arg => .output (arg.replace σ)

def Node.replace (σ : Nat → Nat) (n : Node F T) : Node F T := { n with op := n.op.replace σ }

instance : DataNode (Node F T) where
  label := Node.name
  args n := n.op.uses

end Arguments

section Calls

structure Param (T : Type) where
  name : String
  kw_only : Bool
  default : Option (Value T)

-- What a call binds to the parameters, when it is accepted.
def bind : List (Param T) → List (Value T) → List (String × Value T) → Option (List (Value T))
  | [], [], _ => some []
  | [], _ :: _, _ => none
  | p :: params, [], kwargs => do
      let v ← (kwargs.lookup p.name).or p.default
      let values ← bind params [] kwargs
      return v :: values
  | p :: params, v :: args, kwargs =>
      if p.kw_only || (kwargs.lookup p.name).isSome then none
      else do
        let values ← bind params args kwargs
        return v :: values

def bind_call (params : List (Param T)) (args : List (Value T))
    (kwargs : List (String × Value T)) : Option (List (Value T)) :=
  if ∀ k ∈ kwargs, k.1 ∈ params.map Param.name then bind params args kwargs else none

def required (name : String) : Param T := ⟨name, false, none⟩

def optional (name : String) (default : Value T) : Param T := ⟨name, false, some default⟩

def keyword (name : String) (default : Value T) : Param T := ⟨name, true, some default⟩

-- The functions of torch, on the values that are bound to their parameters.
structure Torch (F M T : Type) where
  gelu (input approximate : Value T) : Option (Value T)
  rms_norm (input normalized_shape weight eps : Value T) : Option (Value T)
  layer_norm (input : Value T) (normalized_shape : List (Value T)) (weight bias eps : Value T) :
    Option (Value T)
  topk (input k dim largest sorted : Value T) : Option (Value T × Value T)
  getitem (value index : Value T) : Option (Value T)
  call (target : F) (args : List (Value T)) (kwargs : List (String × Value T)) :
    Option (Value T)
  method (target : String) (args : List (Value T)) (kwargs : List (String × Value T)) :
    Option (Value T)
  forward (module : M) (args : List (Value T)) (kwargs : List (String × Value T)) :
    Option (Value T)

variable (torch : Torch F M T)

def gelu_params : List (Param T) := [required "input", keyword "approximate" (.str "none")]

def rms_norm_params : List (Param T) :=
  [required "input", required "normalized_shape", optional "weight" .none, optional "eps" .none]

def layer_norm_params : List (Param T) :=
  [required "input", required "normalized_shape", optional "weight" .none, optional "bias" .none,
    optional "eps" (.float (1 / 100000))]

def topk_params : List (Param T) :=
  [required "input", required "k", optional "dim" (.int (-1)), optional "largest" (.bool true),
    optional "sorted" (.bool true), keyword "out" .none]

-- A boolean is an integer too.
def Value.as_int : Value T → Option Int
  | .int i => some i
  | .bool b => some (if b then 1 else 0)
  | _ => Option.none

-- A sequence of integers, as `layer_norm` takes it.
def sequence : Value T → Option (List (Value T))
  | .tuple values => some values
  | _ => none

-- A composite as the builder marks it: its name, attributes and inputs, and what it gives.
structure Composite (T : Type) where
  name : String
  attr : List (String × Value T)
  inputs : List (Value T)
  outputs : Value T

def Value.is_none : Value T → Bool
  | .none => true
  | _ => false

def Value.is_str (s : String) : Value T → Bool
  | .str s' => s' = s
  | _ => false

def composite_gelu (input approximate : Value T) : Option (Composite T) := do
  let tanh := approximate.is_str "tanh"
  let name := "tenstorrent.gelu" ++ (if tanh then "_tanh" else "")
  let attr := if tanh then [("approximate", .str "tanh")] else []
  let output ← torch.gelu input approximate
  return ⟨name, attr, [input], output⟩

def composite_rms_norm (input normalized_shape weight eps : Value T) : Option (Composite T) := do
  let attr := [("normalized_shape", normalized_shape)] ++
    (if eps.is_none then [] else [("epsilon", eps)])
  let inputs := if weight.is_none then [input] else [input, weight]
  let output ← torch.rms_norm input normalized_shape weight eps
  return ⟨"tenstorrent.rms_norm", attr, inputs, output⟩

def composite_layer_norm (input normalized_shape weight bias eps : Value T) :
    Option (Composite T) := do
  let normalized_shape_list ←
    match normalized_shape with
    | .int i => some [.int i]
    | v => sequence v
  let attr := [("normalized_shape", .tuple normalized_shape_list), ("epsilon", eps)]
  let inputs := [input] ++ (if weight.is_none then [] else [weight]) ++
    (if bias.is_none then [] else [bias])
  let output ← torch.layer_norm input normalized_shape_list weight bias eps
  return ⟨"tenstorrent.layer_norm", attr, inputs, output⟩

def topk_attrs (k dim largest sorted : Value T) : List (String × Value T) :=
  [("k", k), ("dim", dim), ("largest", largest), ("sorted", sorted)]

-- Tensors given as `out` are not modelled.
def run_topk (input k dim largest sorted out : Value T) : Option (Value T × Value T) :=
  if out.is_none then torch.topk input k dim largest sorted else none

def composite_topk (input k dim largest sorted out : Value T) : Option (Composite T) := do
  let (values, indices) ← run_topk torch input k dim largest sorted out
  return ⟨"tenstorrent.topk", topk_attrs k dim largest sorted, [input], .tuple [values, indices]⟩

def composite_topk_values (input k dim largest sorted _out : Value T) : Option (Composite T) := do
  let (values, _) ← run_topk torch input k dim largest sorted .none
  return ⟨"tenstorrent.topk_values", topk_attrs k dim largest sorted, [input], values⟩

def composite_topk_indices (input k dim largest sorted _out : Value T) :
    Option (Composite T) := do
  let (_, indices) ← run_topk torch input k dim largest sorted .none
  return ⟨"tenstorrent.topk_indices", topk_attrs k dim largest sorted, [input], indices⟩

-- An index of a tuple may count from its end.
def tuple_get (values : List (Value T)) (i : Int) : Option (Value T) :=
  if 0 ≤ i then values[i.toNat]?
  else if -i ≤ values.length then values[(values.length + i).toNat]? else none

def getitem (v index : Value T) : Option (Value T) :=
  match v, index.as_int with
  | .tuple values, some i => tuple_get values i
  | _, _ => torch.getitem v index

def composite_gelu_params : List (Param T) :=
  [required "input", optional "approximate" (.str "none")]

def call_function (f : Function F) (args : List (Value T)) (kwargs : List (String × Value T)) :
    Option (Value T) :=
  match f with
  | .getitem =>
      match args, kwargs with
      | [v, index], [] => getitem torch v index
      | _, _ => none
  | .gelu => do
      let [input, approximate] ← bind_call gelu_params args kwargs | none
      torch.gelu input approximate
  | .rms_norm | .functional_rms_norm => do
      let [input, normalized_shape, weight, eps] ← bind_call rms_norm_params args kwargs | none
      torch.rms_norm input normalized_shape weight eps
  | .layer_norm => do
      let [input, normalized_shape, weight, bias, eps] ←
        bind_call layer_norm_params args kwargs | none
      let normalized_shape ← sequence normalized_shape
      torch.layer_norm input normalized_shape weight bias eps
  | .topk => do
      let [input, k, dim, largest, sorted, out] ← bind_call topk_params args kwargs | none
      let (values, indices) ← run_topk torch input k dim largest sorted out
      return .tuple [values, indices]
  | .composite_gelu => do
      let [input, approximate] ← bind_call composite_gelu_params args kwargs | none
      (composite_gelu torch input approximate).map Composite.outputs
  | .composite_rms_norm => do
      let [input, normalized_shape, weight, eps] ← bind_call rms_norm_params args kwargs | none
      (composite_rms_norm torch input normalized_shape weight eps).map Composite.outputs
  | .composite_layer_norm => do
      let [input, normalized_shape, weight, bias, eps] ←
        bind_call layer_norm_params args kwargs | none
      (composite_layer_norm torch input normalized_shape weight bias eps).map Composite.outputs
  | .composite_topk => do
      let [input, k, dim, largest, sorted, out] ← bind_call topk_params args kwargs | none
      (composite_topk torch input k dim largest sorted out).map Composite.outputs
  | .composite_topk_values => do
      let [input, k, dim, largest, sorted, out] ← bind_call topk_params args kwargs | none
      (composite_topk_values torch input k dim largest sorted out).map Composite.outputs
  | .composite_topk_indices => do
      let [input, k, dim, largest, sorted, out] ← bind_call topk_params args kwargs | none
      (composite_topk_indices torch input k dim largest sorted out).map Composite.outputs
  | .other f => torch.call f args kwargs

end Calls

section Modules

structure LayerNorm (T : Type) where
  normalized_shape : List Int
  eps : ℚ
  weight : Option T
  bias : Option T
  elementwise_affine : Bool
  affine : elementwise_affine = false → weight = none ∧ bias = none

inductive Module (M T : Type) where
  | LayerNorm (m : LayerNorm T)
  | other (m : M)

def parameter : Option T → Value T
  | some t => .tensor t
  | none => .none

-- The attributes of a submodule are found under its path.
structure GraphModule (M T : Type) where
  get_submodule : String → Option (Module M T)
  get_attr : String → Option (Value T)
  weight : ∀ target m, get_submodule target = some (.LayerNorm m) →
    get_attr (target ++ ".weight") = some (parameter m.weight)
  bias : ∀ target m, get_submodule target = some (.LayerNorm m) →
    get_attr (target ++ ".bias") = some (parameter m.bias)

def LayerNorm.shape (m : LayerNorm T) : Value T := .tuple (m.normalized_shape.map .int)

variable (torch : Torch F M T)

def LayerNorm.forward (m : LayerNorm T) (args : List (Value T))
    (kwargs : List (String × Value T)) : Option (Value T) := do
  let [input] ← bind_call [required "input"] args kwargs | none
  torch.layer_norm input (m.normalized_shape.map .int) (parameter m.weight) (parameter m.bias)
    (.float m.eps)

def call_module (gm : GraphModule M T) (target : String) (args : List (Value T))
    (kwargs : List (String × Value T)) : Option (Value T) := do
  match ← gm.get_submodule target with
  | .LayerNorm m => m.forward torch args kwargs
  | .other m => torch.forward m args kwargs

-- `method_name_to_function`.
def method_name_to_function (target : String) : Option (Function F) :=
  if target = "topk" then some .topk else none

def call_method (target : String) (args : List (Value T)) (kwargs : List (String × Value T)) :
    Option (Value T) :=
  match method_name_to_function target with
  | some f => call_function torch f args kwargs
  | none => torch.method target args kwargs

end Modules

section Run

variable (torch : Torch F M T) (gm : GraphModule M T) (inputs : String → Option (Value T))

def run_node (n : Node F T) (env : Nat → Option (Value T)) : Option (Value T) :=
  match n.op with
  | .placeholder target => inputs target
  | .get_attr target => gm.get_attr target
  | .call_function target args kwargs => do
      let values ← Arg.eval_all env args
      let kwvalues ← Arg.eval_kwargs env kwargs
      call_function torch target values kwvalues
  | .call_method target args kwargs => do
      let values ← Arg.eval_all env args
      let kwvalues ← Arg.eval_kwargs env kwargs
      call_method torch target values kwvalues
  | .call_module target args kwargs => do
      let values ← Arg.eval_all env args
      let kwvalues ← Arg.eval_kwargs env kwargs
      call_module torch gm target values kwvalues
  | .output arg => arg.eval env

def interpret (g : Graph F T) : Nat → Option (Value T) :=
  eval (run_node torch gm inputs) g fun _ => none

def Node.is_output (n : Node F T) : Bool :=
  match n.op with
  | .output _ => true
  | _ => false

-- A graph runs when all its nodes do.
def run (g : Graph F T) : Option (Value T) := do
  let n ← g.find? Node.is_output
  if ∀ m ∈ g, (interpret torch gm inputs g m.name).isSome then
    interpret torch gm inputs g n.name
  else none

end Run

section Pass

variable (g : Graph F T) (n : Nat)

def find_node : Option (Node F T) := g.find? fun m => m.name = n

def users : Graph F T := g.filter fun m => n ∈ m.op.uses

def Node.is_getitem (n : Node F T) : Bool :=
  match n.op with
  | .call_function .getitem _ _ => true
  | _ => false

def Node.args (n : Node F T) : List (Arg T) :=
  match n.op with
  | .call_function _ args _ | .call_method _ args _ | .call_module _ args _ => args
  | _ => []

def Arg.as_int : Arg T → Option Int
  | .value v => v.as_int
  | _ => none

-- The index of a call of getitem, when it is an integer.
def Node.index (n : Node F T) : Option (Option Int) := n.args[1]?.map Arg.as_int

def use_output (used : Finset Int) (user : Node F T) : Option (Finset Int) :=
  if user.is_getitem then do
    match ← user.index with
    | some i => return if (users g user.name).isEmpty then used else insert i used
    | none => return used
  else some used

def _get_used_output_indices : Option (Finset Int) := (users g n).foldlM (use_output g) ∅

def replace_all_uses_with (new : Nat) : Graph F T :=
  g.map (Node.replace fun a => if a = n then new else a)

-- A node that is used is not erased.
def erase_node : Option (Graph F T) :=
  if (users g n).isEmpty then some (g.filter fun m => m.name ≠ n) else none

def Op.set_target (target : Function F) : Op F T → Op F T
  | .call_function _ args kwargs | .call_method _ args kwargs =>
      .call_function target args kwargs
  | op => op

def set_target (target : Function F) : Graph F T :=
  g.map fun m => if m.name = n then { m with op := m.op.set_target target } else m

abbrev Variants (F : Type) := List (Finset Int × Function F)

-- `max(output_variants.keys(), key=len)`.
def fallback_variant : Variants F → Option (Function F)
  | [] => none
  | x :: variants =>
      some (variants.foldl (fun best y => if best.1.card < y.1.card then y else best) x).2

-- What uses the live getitem uses the composite.
def redirect (used_indices : Finset Int) (g : Graph F T) (gi : Node F T) :
    Option (Graph F T) := do
  match ← gi.index with
  | some i => return if i ∈ used_indices then replace_all_uses_with g gi.name n else g
  | none => return g

def _replace_multi_output_op (output_variants : Variants F) : Option (Graph F T) := do
  let used_indices ← _get_used_output_indices g n
  let replacement_fn ← (output_variants.lookup used_indices).or (fallback_variant output_variants)
  let g := set_target g n replacement_fn
  let getitem_nodes := (users g n).filter Node.is_getitem
  if used_indices.card = 1 then
    let g ← getitem_nodes.foldlM (redirect n used_indices) g
    getitem_nodes.foldlM (fun g gi => erase_node g gi.name) g
  else return g

def fresh_name : Nat := (g.map Node.name).foldr max 0 + 1

-- The new nodes stand before the node.
def insert_before (nodes : List (Node F T)) : Graph F T :=
  g.flatMap fun m => if m.name = n then nodes ++ [m] else [m]

def affine_node (has : Bool) (name : Nat) (target : String) : List (Node F T) × Arg T :=
  if has then ([⟨name, .get_attr target⟩], .node name) else ([], .value .none)

def layer_norm_node (name : Nat) (input_tensor weight bias : Arg T) (module : LayerNorm T) :
    Node F T :=
  ⟨name, .call_function .composite_layer_norm [input_tensor]
    [("normalized_shape", .value module.shape), ("eps", .value (.float module.eps)),
      ("weight", weight), ("bias", bias)]⟩

def replace_layer_norm_module (target : String) (args : List (Arg T)) (module : LayerNorm T) :
    Option (Graph F T) := do
  let has_weight := module.weight.isSome && module.elementwise_affine
  let has_bias := module.bias.isSome && module.elementwise_affine
  let input_tensor ← args[0]?
  let next := fresh_name g
  let weight : List (Node F T) × Arg T := affine_node has_weight next (target ++ ".weight")
  let bias : List (Node F T) × Arg T := affine_node has_bias (next + 1) (target ++ ".bias")
  let new_node := layer_norm_node (next + 2) input_tensor weight.2 bias.2 module
  let g := insert_before g n (weight.1 ++ bias.1 ++ [new_node])
  let g := replace_all_uses_with g n new_node.name
  erase_node g n

inductive Replacement (F : Type) where
  | function (f : Function F)
  | variants (output_variants : Variants F)

def topk_variants : Variants F :=
  [({0, 1}, .composite_topk), ({0}, .composite_topk_values), ({1}, .composite_topk_indices)]

def replacements : Function F → Option (Replacement F)
  | .gelu => some (.function .composite_gelu)
  | .rms_norm => some (.function .composite_rms_norm)
  | .functional_rms_norm => some (.function .composite_rms_norm)
  | .layer_norm => some (.function .composite_layer_norm)
  | .topk => some (.variants topk_variants)
  | _ => none

def replace_function (target : Function F) : Option (Graph F T) :=
  match replacements target with
  | some (.function f) => some (set_target g n f)
  | some (.variants output_variants) => _replace_multi_output_op g n output_variants
  | none => some g

variable (gm : GraphModule M T)

-- A node that is erased already is a call of getitem, which has no replacement.
def handle_node : Option (Graph F T) :=
  match find_node g n with
  | none => some g
  | some node =>
      match node.op with
      | .call_function target _ _ => replace_function g n target
      | .call_module target args _ => do
          match ← gm.get_submodule target with
          | .LayerNorm m => replace_layer_norm_module g n target args m
          | .other _ => return g
      | .call_method target _ _ =>
          match method_name_to_function target with
          | some f => replace_function g n f
          | none => some g
      | _ => some g

-- What `lint` checks.
def lint : Option (Graph F T) := if SortedFrom [] g then some g else none

def handle_composite_ops : Option (Graph F T) := do
  let g ← (g.map Node.name).foldlM (fun g n => handle_node g n gm) g
  lint g

end Pass

end TTXla.TTTorch.CompositeOps
