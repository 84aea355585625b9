import TTXla.TTTorch.Sharding
import Mathlib.Data.List.Nodup

-- When the sharding text of a partition spec lists the axes of the spec.
namespace TTXla.TTTorch

open Excepts Text Decimal

namespace Sharding

def print_refs : List String → List Char :=
  write_enclosed write_quoted ['\x7b'] [',', ' '] ['\x7d']

def print_dims : List (List String) → List Char :=
  write_enclosed print_refs ['['] [',', ' '] [']']

def print_unreduced (unreduced : List String) : List Char :=
  if unreduced = [] then [] else ", unreduced=".toList ++ print_refs unreduced

-- The text of a sharding.
def print (s : Sharding) : List Char :=
  "#sdy.sharding_per_value<[<@mesh, ".toList ++
    (print_dims s.dims ++ (print_unreduced s.unreduced ++ ">]>".toList))

def Unquoted (ref : String) : Prop := '\x22' ∉ ref.toList

theorem read_refs_reads : Reads read_refs print_refs fun refs => ∀ ref ∈ refs, Unquoted ref :=
  enclosed_reads quoted_reads (by decide) (fun _ => literal_cons_ne (by decide) _ _)
    fun _ _ _ => literal_cons_ne (by decide) _ _

theorem read_dims_reads :
    Reads read_dims print_dims fun dims => ∀ refs ∈ dims, ∀ ref ∈ refs, Unquoted ref :=
  enclosed_reads read_refs_reads (by decide) (fun _ => literal_cons_ne (by decide) _ _)
    fun _ _ _ => literal_cons_ne (by decide) _ _

theorem read_unreduced_print {unreduced : List String} (h : ∀ ref ∈ unreduced, Unquoted ref) :
    read_unreduced (print_unreduced unreduced ++ ">]>".toList) =
      some (unreduced, ">]>".toList) := by
  unfold read_unreduced print_unreduced
  by_cases hnil : unreduced = []
  · rw [if_pos hnil, hnil]
    rfl
  · rw [if_neg hnil, List.append_assoc, literal_append,
      if_pos Option.isSome_some]
    exact read_refs_reads unreduced h _

-- Reading gives back the sharding that was printed.
theorem read_print (s : Sharding) (hdims : ∀ refs ∈ s.dims, ∀ ref ∈ refs, Unquoted ref)
    (hunreduced : ∀ ref ∈ s.unreduced, Unquoted ref) : read s.print = some s := by
  unfold read print
  rw [literal_append]
  change (read_dims _ >>= _) = _
  rw [read_dims_reads s.dims hdims]
  change (read_unreduced _ >>= _) = _
  rw [read_unreduced_print hunreduced]
  rfl

theorem toList_axis_ref (axis : Int) : (axis_ref axis).toList = write_quoted (mesh_idx axis) := by
  rw [axis_ref, String.toList_append, String.toList_append]
  rfl

theorem toList_braced (axes : List Int) :
    (braced (axes.map axis_ref)).toList = print_refs (axes.map mesh_idx) := by
  rw [braced, String.toList_append, String.toList_append, String.toList_intercalate,
    print_refs, write_enclosed, List.map_map, List.map_map]
  simp only [Function.comp_def, toList_axis_ref]
  rfl

theorem unquoted_mesh_idx (axis : Int) : Unquoted (mesh_idx axis) := by
  unfold Unquoted mesh_idx
  rw [String.toList_append]
  intro hmem
  cases List.mem_append.mp hmem with
  | inl hprefix => exact absurd hprefix (by decide)
  | inr hindex => exact not_mem_toString_int (by decide) (by decide) axis hindex

theorem mesh_idx_injective : Function.Injective mesh_idx := fun _ _ h =>
  toString_int_inj ((String.append_right_inj MESH_IDX_PREFIX).mp h)

-- The sharding that lists some axes for each dimension, and others without reduction.
def of_axes (dims : List (List Int)) (unreduced : List Int) : Sharding :=
  ⟨dims.map fun axes => axes.map mesh_idx, unreduced.map mesh_idx⟩

theorem of_axes_inj {dims dims' : List (List Int)} {unreduced unreduced' : List Int} :
    of_axes dims unreduced = of_axes dims' unreduced' ↔ dims = dims' ∧ unreduced = unreduced' := by
  unfold of_axes
  rw [Sharding.mk.injEq, (mesh_idx_injective.list_map).list_map.eq_iff,
    mesh_idx_injective.list_map.eq_iff]

theorem read_of_axes (dims : List (List Int)) (unreduced : List Int) :
    read (of_axes dims unreduced).print = some (of_axes dims unreduced) := by
  refine read_print _ (fun refs hrefs ref href => ?_) fun ref href => ?_
  · obtain ⟨axes, -, rfl⟩ := List.mem_map.mp hrefs
    obtain ⟨axis, -, rfl⟩ := List.mem_map.mp href
    exact unquoted_mesh_idx axis
  · obtain ⟨axis, -, rfl⟩ := List.mem_map.mp href
    exact unquoted_mesh_idx axis

theorem toList_unreduced (unreduced : List Int) : (if unreduced.map axis_ref = [] then ""
    else ", unreduced=" ++ braced (unreduced.map axis_ref)).toList =
      print_unreduced (unreduced.map mesh_idx) := by
  unfold print_unreduced
  cases unreduced with
  | nil => rfl
  | cons axis unreduced =>
      rw [if_neg (by simp), if_neg (by simp), String.toList_append, toList_braced]

theorem toList_dims (dims : List (List Int)) :
    (", ".intercalate (dims.map fun axes => braced (axes.map axis_ref))).toList =
      [',', ' '].intercalate ((dims.map fun axes => axes.map mesh_idx).map print_refs) := by
  rw [String.toList_intercalate]
  simp only [List.map_map, Function.comp_def, toList_braced]
  rfl

-- The text that is returned for what the rounds appended.
theorem toList_sharding (dims : List (List Int)) (unreduced : List Int)
    (dims_str unreduced_str : String) (hdims : dims_str.toList =
      [',', ' '].intercalate ((dims.map fun axes => axes.map mesh_idx).map print_refs))
    (hunreduced : unreduced_str.toList = print_unreduced (unreduced.map mesh_idx)) :
    ("#sdy.sharding_per_value<[<@mesh, [" ++ dims_str ++ "]" ++ unreduced_str ++ ">]>").toList =
      (of_axes dims unreduced).print := by
  have hstart : "#sdy.sharding_per_value<[<@mesh, [".toList =
      "#sdy.sharding_per_value<[<@mesh, ".toList ++ ['['] := rfl
  have hclose : "]".toList = [']'] := rfl
  simp only [String.toList_append, hunreduced, hdims]
  rw [hstart, hclose]
  unfold print of_axes print_dims write_enclosed
  generalize "#sdy.sharding_per_value<[<@mesh, ".toList = start
  generalize ">]>".toList = stop
  simp only [List.append_assoc]
end Sharding

namespace Mesh

variable (mesh : Mesh)

-- An index is that of an axis of the mesh, and of one that is not replicated.
def Named (k : Int) : Prop := 0 ≤ k ∧ k < mesh.mesh_shape.length

instance (k : Int) : Decidable (mesh.Named k) := inferInstanceAs (Decidable (_ ∧ _))

def Sharded (k : Int) : Prop := mesh.Named k ∧ 1 < mesh.mesh_shape.getD k.toNat 1

instance (k : Int) : Decidable (mesh.Sharded k) := inferInstanceAs (Decidable (_ ∧ _))

def normalised (e : SpecEntry) : List Int := (mesh.axes_of e).filter fun k => mesh.Sharded k

variable {mesh}

theorem size_eq_ok {k : Int} {size : Nat} (hk : mesh.Named k) :
    mesh.size k = .ok size ↔ mesh.mesh_shape.getD k.toNat 1 = size := by
  obtain ⟨hnonneg, hlt⟩ := hk
  have hlt : k.toNat < mesh.mesh_shape.length := by omega
  unfold Mesh.size
  dsimp only
  rw [if_pos hnonneg, if_pos hnonneg, List.getElem?_eq_getElem hlt, get_eq_ok,
    List.getD_eq_getElem?_getD, List.getElem?_eq_getElem hlt, Option.some_inj]
  rfl

theorem named_of_idxOf {axis : String} {i : Nat} (h : mesh.axis_names.idxOf? axis = some i) :
    mesh.Named i := by
  have hlt : i < mesh.axis_names.length := by
    obtain ⟨hlt, -⟩ := List.findIdx?_eq_some_iff_getElem.mp h
    exact hlt
  have := mesh.h_shape
  exact ⟨by omega, by omega⟩

-- An entry whose axes are listed as they should be.
def Regular (mesh : Mesh) : SpecEntry → Prop
  | .axis (.index _) => False
  | .tuple axes => ∀ k ∈ mesh.axes_of (.tuple axes), mesh.Sharded k
  | _ => True

-- The dimensions that a round appends, by their axes.
def Appends (mesh : Mesh) (e : SpecEntry) (lists : List (List Int)) : Prop :=
  mesh.dim_sharding e = .ok (lists.map fun axes => braced (axes.map axis_ref))

theorem appends_name (axis : String) :
    mesh.Appends (.axis (.name axis)) [mesh.normalised (.axis (.name axis))] := by
  have haxes : mesh.axes_of (.axis (.name axis)) =
      ((mesh.axis_names.idxOf? axis).map Int.ofNat).toList := rfl
  rw [Appends, normalised, haxes, dim_sharding]
  cases haxis : mesh.axis_names.idxOf? axis with
  | none => rfl
  | some i =>
      have hnamed := named_of_idxOf haxis
      have hsize := (size_eq_ok hnamed).mpr rfl
      change (mesh.size i >>= _) = _
      rw [hsize]
      change Except.ok _ = _
      by_cases hlt : 1 < mesh.mesh_shape.getD (i : Int).toNat 1
      · have hsharded : mesh.Sharded i := ⟨hnamed, hlt⟩
        rw [if_pos hlt]
        simp [hsharded]
      · have hsharded : ¬mesh.Sharded i := fun h => hlt h.2
        rw [if_neg hlt]
        simp [hsharded]

theorem appends_index {k : Int} {strs : List String}
    (h : mesh.dim_sharding (.axis (.index k)) = .ok strs) :
    ∃ lists, strs = lists.map (fun axes => braced (axes.map axis_ref)) ∧ 0 < lists.length ∧
      lists ≠ [mesh.normalised (.axis (.index k))] := by
  obtain ⟨size, hsize, h⟩ := bind_eq_ok.mp h
  cases h
  by_cases hlt : 1 < size
  · refine ⟨[[k], [k]], by rw [if_pos hlt]; rfl, by simp, fun h => ?_⟩
    have := congrArg List.length h
    simp at this
  · refine ⟨[[k]], by rw [if_neg hlt]; rfl, by simp, fun h => ?_⟩
    have hsharded : mesh.Sharded k := by
      have hmem : k ∈ mesh.normalised (.axis (.index k)) := by
        rw [← List.singleton_inj.mp h]
        exact List.mem_singleton_self k
      exact of_decide_eq_true (List.mem_filter.mp hmem).2
    rw [size_eq_ok hsharded.1] at hsize
    exact hlt (hsize ▸ hsharded.2)

theorem appends_tuple (axes : List (Option Axis)) :
    mesh.Appends (.tuple axes) [mesh.axes_of (.tuple axes)] := by
  change Except.ok [if (mesh.axes_of (.tuple axes)).map axis_ref = [] then _ else _] = _
  by_cases hnil : (mesh.axes_of (.tuple axes)).map axis_ref = []
  · rw [if_pos hnil, List.map_singleton, hnil]
  · rw [if_neg hnil]
    rfl

theorem dim_sharding_spec {e : SpecEntry} {strs : List String}
    (h : mesh.dim_sharding e = .ok strs) :
    ∃ lists, strs = lists.map (fun axes => braced (axes.map axis_ref)) ∧ 0 < lists.length ∧
      (lists = [mesh.normalised e] ↔ mesh.Regular e) := by
  cases e with
  | None =>
      cases h
      exact ⟨[[]], rfl, by simp, iff_of_true rfl trivial⟩
  | axis a =>
      cases a with
      | name axis =>
          rw [appends_name, Except.ok.injEq] at h
          exact ⟨_, h.symm, by simp, iff_of_true rfl trivial⟩
      | index k =>
          obtain ⟨lists, hstrs, hpos, hne⟩ := appends_index h
          exact ⟨lists, hstrs, hpos, iff_of_false hne id⟩
  | tuple axes =>
      rw [appends_tuple, Except.ok.injEq] at h
      refine ⟨_, h.symm, by simp, ?_⟩
      rw [List.singleton_inj, normalised, eq_comm, List.filter_eq_self]
      simp [Regular]

theorem dim_sharding_of_regular {e : SpecEntry} (h : mesh.Regular e) :
    mesh.Appends e [mesh.normalised e] := by
  cases e with
  | None => rfl
  | axis a =>
      cases a with
      | name axis => exact appends_name axis
      | index k => exact h.elim
  | tuple axes =>
      have hself : mesh.normalised (.tuple axes) = mesh.axes_of (.tuple axes) :=
        List.filter_eq_self.mpr fun k hk => decide_eq_true (h k hk)
      rw [hself]
      exact appends_tuple axes

end Mesh

theorem length_le_flatten_of_pos {α β : Type} {l : List α} {lists : List (List β)}
    (h : List.Forall₂ (fun _ list => 0 < list.length) l lists) :
    l.length ≤ lists.flatten.length := by
  induction h with
  | nil => exact Nat.le_refl 0
  | cons hpos _ ih =>
      rw [List.flatten_cons, List.length_append, List.length_cons]
      omega

-- At least one list for each element is one each when the lists together are those of a function.
theorem flatten_eq_map_iff {α β : Type} {f : α → β} {l : List α} {lists : List (List β)}
    (h : List.Forall₂ (fun _ list => 0 < list.length) l lists) :
    lists.flatten = l.map f ↔ List.Forall₂ (fun a list => list = [f a]) l lists := by
  induction h with
  | nil => exact ⟨fun _ => .nil, fun _ => rfl⟩
  | @cons a list l lists hpos hrest ih =>
      obtain ⟨b, list, rfl⟩ := List.exists_cons_of_length_pos hpos
      rw [List.flatten_cons, List.cons_append, List.map_cons, List.cons.injEq, List.forall₂_cons,
        List.cons.injEq]
      constructor
      · intro h
        obtain ⟨hb, htail⟩ := h
        have hle := length_le_flatten_of_pos hrest
        have htotal := congrArg List.length htail
        rw [List.length_append, List.length_map] at htotal
        have hnil : list = [] := List.length_eq_zero_iff.mp (by omega)
        subst hnil
        exact ⟨⟨hb, rfl⟩, ih.mp htail⟩
      · intro h
        obtain ⟨⟨hb, rfl⟩, hlists⟩ := h
        exact ⟨hb, ih.mpr hlists⟩

section Theorems

variable {mesh : Mesh} {partition_spec : List SpecEntry} {unreduced : List Axis}

-- The lists that the rounds append, one list of dimensions for each entry.
theorem exists_lists {strs : List (List String)}
    (h : List.Forall₂ (fun e strs => mesh.dim_sharding e = .ok strs) partition_spec strs) :
    ∃ lists : List (List (List Int)),
      strs.flatten = lists.flatten.map (fun axes => braced (axes.map axis_ref)) ∧
      List.Forall₂ (fun _ list => 0 < list.length) partition_spec lists ∧
      (List.Forall₂ (fun e list => list = [mesh.normalised e]) partition_spec lists ↔
        ∀ e ∈ partition_spec, mesh.Regular e) := by
  induction h with
  | nil => exact ⟨[], rfl, .nil, iff_of_true .nil (by simp)⟩
  | cons he _ ih =>
      obtain ⟨list, hstrs, hpos, hregular⟩ := Mesh.dim_sharding_spec he
      obtain ⟨lists, hflatten, hall, hiff⟩ := ih
      refine ⟨list :: lists, ?_, .cons hpos hall, ?_⟩
      · rw [List.flatten_cons, List.flatten_cons, List.map_append, hstrs, hflatten]
      · rw [List.forall₂_cons, hregular, hiff, List.forall_mem_cons]

theorem text_eq {text : String}
    (h : partition_spec_to_sdy_sharding mesh partition_spec unreduced = .ok text) :
    ∃ dims, Sharding.parse text =
        some (Sharding.of_axes dims (unreduced.filterMap mesh.axis_idx)) ∧
      (dims = partition_spec.map mesh.normalised ↔ ∀ e ∈ partition_spec, mesh.Regular e) := by
  obtain ⟨strs, hstrs, h⟩ := bind_eq_ok.mp h
  cases h
  obtain ⟨lists, hflatten, hpos, hiff⟩ := exists_lists (mapM_eq_ok.mp hstrs)
  refine ⟨lists.flatten, ?_, ?_⟩
  · rw [Sharding.parse, hflatten, Sharding.toList_sharding lists.flatten _ _ _
      (Sharding.toList_dims _) (Sharding.toList_unreduced _)]
    exact Sharding.read_of_axes _ _
  · rw [flatten_eq_map_iff hpos, hiff]

theorem text_of_regular (h : ∀ e ∈ partition_spec, mesh.Regular e) :
    ∃ text, partition_spec_to_sdy_sharding mesh partition_spec unreduced = .ok text := by
  obtain ⟨strs, hstrs⟩ := mapM_ok_of_forall (f := mesh.dim_sharding) fun e he =>
    ⟨_, Mesh.dim_sharding_of_regular (h e he)⟩
  unfold partition_spec_to_sdy_sharding
  rw [hstrs]
  exact ⟨_, rfl⟩

-- Each dimension lists its axes of size above one, and all requested axes are without reduction.
def normal_form (mesh : Mesh) (partition_spec : List SpecEntry) (unreduced : List Axis) :
    Sharding :=
  .of_axes (partition_spec.map mesh.normalised)
    ((unreduced.filterMap mesh.axis_idx).filter fun k => mesh.Named k)

def EncodesFaithfully (mesh : Mesh) (partition_spec : List SpecEntry) (unreduced : List Axis) :
    Prop :=
  ∃ text, partition_spec_to_sdy_sharding mesh partition_spec unreduced = .ok text ∧
    Sharding.parse text = some (normal_form mesh partition_spec unreduced) ∧
      (normal_form mesh partition_spec unreduced).dims.flatten.Nodup

theorem nodup_normal_form : (normal_form mesh partition_spec unreduced).dims.flatten.Nodup ↔
    (partition_spec.flatMap mesh.normalised).Nodup := by
  have hdims : (normal_form mesh partition_spec unreduced).dims.flatten =
      (partition_spec.flatMap mesh.normalised).map mesh_idx := by
    rw [List.flatMap_def, List.map_flatten]
    rfl
  rw [hdims, List.nodup_map_iff Sharding.mesh_idx_injective]

end Theorems

end TTXla.TTTorch
