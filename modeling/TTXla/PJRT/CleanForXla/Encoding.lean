import TTXla.PJRT.CleanForXla
import TTXla.Lib.Strided
import Mathlib.Algebra.Order.BigOperators.GroupWithZero.List

-- How the axes of a sharding are encoded.
namespace TTXla.PJRT.CleanForXla

open Tensor Strided

-- A sharding over whole axes of the mesh, each of which is used once.
structure WholeAxes (mesh : Mesh) (sharding : TensorSharding) : Prop where
  whole : ∀ axis_ref ∈ sharding.dim_shardings.flatten ++ sharding.replicated_axes ++
    sharding.unreduced_axes, axis_ref.sub_axis_info = none ∧
      axis_ref.name ∈ mesh.axes.map (·.name)
  nodup : (sharding.dim_shardings.flatten ++ sharding.replicated_axes ++
    sharding.unreduced_axes).Nodup

def Mesh.axis_refs (mesh : Mesh) : List AxisRef := mesh.axes.map fun axis => ⟨axis.name, none⟩

def Mesh.sizes (mesh : Mesh) : List Nat := mesh.axes.map (·.size)

def Mesh.device_count (mesh : Mesh) : Nat := mesh.sizes.prod

-- The devices are numbered with the last axis fastest.
def Mesh.coordinate (mesh : Mesh) (device : Nat) (axis_ref : AxisRef) : Nat :=
  (unravel mesh.sizes device).getD (mesh.axis_refs.idxOf axis_ref) 0

-- The tile of a device: along every dimension its axes count, the last one fastest.
def TensorSharding.tile (sharding : TensorSharding) (mesh : Mesh) (device : Nat) : List Nat :=
  sharding.dim_shardings.map fun axes =>
    ravel (axes.map (·.size mesh)) (axes.map (mesh.coordinate device))

def TensorSharding.tile_counts (sharding : TensorSharding) (mesh : Mesh) : List Nat :=
  sharding.dim_shardings.map fun axes => (axes.map (·.size mesh)).prod

section AxisRefs

theorem Mesh.axis_refs_nodup (mesh : Mesh) : mesh.axis_refs.Nodup := by
  have hnames : (mesh.axis_refs.map (·.name)).Nodup := by
    unfold Mesh.axis_refs
    rw [List.map_map]
    exact mesh.nodup
  exact List.Nodup.of_map _ hnames

theorem WholeAxes.mem_axis_refs {mesh : Mesh} {sharding : TensorSharding}
    (h : WholeAxes mesh sharding) {axis_ref : AxisRef}
    (hmem : axis_ref ∈ sharding.dim_shardings.flatten) : axis_ref ∈ mesh.axis_refs := by
  obtain ⟨hwhole, hname⟩ := h.whole axis_ref
    (List.mem_append_left _ (List.mem_append_left _ hmem))
  obtain ⟨axis, haxis, hname⟩ := List.mem_map.mp hname
  refine List.mem_map.mpr ⟨axis, haxis, ?_⟩
  obtain ⟨name, info⟩ := axis_ref
  cases hwhole
  cases hname
  rfl

theorem WholeAxes.flatten_nodup {mesh : Mesh} {sharding : TensorSharding}
    (h : WholeAxes mesh sharding) : sharding.dim_shardings.flatten.Nodup := by
  have hnodup := h.nodup
  rw [List.append_assoc] at hnodup
  exact (List.nodup_append'.mp hnodup).1

theorem Mesh.map_size (mesh : Mesh) : mesh.axis_refs.map (·.size mesh) = mesh.sizes := by
  have hsize : ∀ (axes : List MeshAxis) (axis : MeshAxis), (axes.map (·.name)).Nodup →
      axis ∈ axes → axes.find? (·.name = axis.name) = some axis := by
    intro axes axis hnodup hmem
    induction axes with
    | nil => cases hmem
    | cons first axes ih =>
        rw [List.map_cons, List.nodup_cons] at hnodup
        rcases List.mem_cons.mp hmem with rfl | hmem
        · rw [List.find?_cons_of_pos (by simp)]
        · have hne : first.name ≠ axis.name := by
            intro heq
            exact hnodup.1 (heq ▸ List.mem_map.mpr ⟨axis, hmem, rfl⟩)
          rw [List.find?_cons_of_neg (by simpa using hne), ih hnodup.2 hmem]
  unfold Mesh.axis_refs Mesh.sizes
  rw [List.map_map]
  apply List.map_congr_left
  intro axis haxis
  change mesh.axis_size axis.name = axis.size
  unfold Mesh.axis_size
  rw [hsize mesh.axes axis mesh.nodup haxis]
  rfl

theorem push_mesh_axes {axes : List MeshAxis} (hnodup : (axes.map (·.name)).Nodup) :
    axes.foldl (fun m axis => push_sizes m axis.name [1, axis.size]) [] =
      axes.map fun axis => (axis.name, [1, axis.size]) := by
  induction axes using List.reverseRecOn with
  | nil => rfl
  | append_singleton axes axis ih =>
      rw [List.map_append, List.nodup_append'] at hnodup
      obtain ⟨hinit, -, hdisjoint⟩ := hnodup
      have hnew : ((axes.map fun axis => (axis.name, [1, axis.size])).any
          (·.1 = axis.name)) = false := by
        rw [List.any_eq_false]
        intro x hx heq
        obtain ⟨other, hother, rfl⟩ := List.mem_map.mp hx
        refine hdisjoint (List.mem_map.mpr ⟨other, hother, rfl⟩) ?_
        exact List.mem_singleton.mpr (of_decide_eq_true heq)
      rw [List.foldl_append, ih hinit, List.foldl_cons, List.foldl_nil, List.map_append]
      unfold push_sizes
      rw [hnew]
      rfl

theorem consume_whole (m : List (String × List Nat)) {axis_refs : List AxisRef}
    (h : ∀ axis_ref ∈ axis_refs, axis_ref.sub_axis_info = none) :
    consume_axis_ref_list m axis_refs = m := by
  unfold consume_axis_ref_list
  induction axis_refs with
  | nil => rfl
  | cons axis_ref axis_refs ih =>
      have hrest := ih fun a ha => h a (List.mem_cons_of_mem _ ha)
      rw [List.foldl_cons, h axis_ref List.mem_cons_self]
      exact hrest

-- The axes stay whole, in the order of the mesh.
theorem get_ordered_axis_refs_eq {mesh : Mesh} {sharding : TensorSharding}
    (h : WholeAxes mesh sharding) : get_ordered_axis_refs sharding mesh = mesh.axis_refs := by
  have hdims : ∀ (dims : List (List AxisRef)) (m : List (String × List Nat)),
      (∀ axis_ref ∈ dims.flatten, axis_ref.sub_axis_info = none) →
      dims.foldl consume_axis_ref_list m = m := by
    intro dims m hwhole
    induction dims with
    | nil => rfl
    | cons axes dims ih =>
        have haxes := fun a ha => hwhole a (List.mem_append_left _ ha)
        have hrest := ih fun a ha => hwhole a (List.mem_append_right _ ha)
        rw [List.foldl_cons, consume_whole m haxes, hrest]
  have hwhole := fun a ha => (h.whole a ha).1
  unfold get_ordered_axis_refs
  simp only
  rw [push_mesh_axes mesh.nodup,
    hdims _ _ fun a ha => hwhole a (List.mem_append_left _ (List.mem_append_left _ ha)),
    consume_whole _ fun a ha => hwhole a (List.mem_append_right _ ha)]
  unfold Mesh.axis_refs
  rw [List.flatMap_map]
  have hparts : ∀ axis : MeshAxis, axis_parts axis.name [1, axis.size] = [⟨axis.name, none⟩] :=
    fun _ => rfl
  simp only [hparts]
  exact List.map_eq_flatMap.symm

end AxisRefs

section Positions

-- Every element is numbered.
theorem lookup_sharded_positions {sharding : TensorSharding}
    (h : sharding.dim_shardings.flatten.Nodup) (axis_ref : AxisRef) :
    (sharded_positions sharding).lookup axis_ref =
      if axis_ref ∈ sharding.dim_shardings.flatten then
        some (sharding.dim_shardings.flatten.idxOf axis_ref)
      else none := by
  have hnumber : ∀ l : List AxisRef, l.Nodup →
      (l.foldl (fun (st : Dict AxisRef Nat × Nat) a => (st.1.insert a st.2, st.2 + 1))
        (∅, 0)).2 = l.length ∧
      (l.foldl (fun (st : Dict AxisRef Nat × Nat) a => (st.1.insert a st.2, st.2 + 1))
        (∅, 0)).1.lookup axis_ref = if axis_ref ∈ l then some (l.idxOf axis_ref) else none := by
    intro l hl
    induction l using List.reverseRecOn with
    | nil => exact ⟨rfl, AList.lookup_empty axis_ref⟩
    | append_singleton l a ih =>
        obtain ⟨hinit, -, hdisjoint⟩ := List.nodup_append'.mp hl
        obtain ⟨hcount, hlookup⟩ := ih hinit
        have hnew : a ∉ l := fun hmem => hdisjoint hmem (List.mem_singleton.mpr rfl)
        rw [List.foldl_append, List.foldl_cons, List.foldl_nil]
        refine ⟨by rw [hcount, List.length_append, List.length_singleton], ?_⟩
        rw [Dict.lookup_insert', hcount, hlookup]
        by_cases ha : axis_ref = a
        · subst ha
          rw [if_pos rfl, if_pos (List.mem_append_right _ (List.mem_singleton.mpr rfl)),
            List.idxOf_append_of_notMem hnew]
          simp
        · have hmem : axis_ref ∈ l ++ [a] ↔ axis_ref ∈ l := by simp [ha]
          rw [if_neg ha]
          by_cases hl' : axis_ref ∈ l
          · rw [if_pos hl', if_pos (hmem.mpr hl'), List.idxOf_append_of_mem hl']
          · rw [if_neg hl', if_neg fun hc => hl' (hmem.mp hc)]
  unfold sharded_positions
  rw [← List.foldl_flatten]
  exact (hnumber _ h).2

theorem foldl_set_length {α : Type*} [DecidableEq α] (order : List α) (pairs : List (α × Nat))
    (init : List Nat) :
    (pairs.foldl (fun perm x => perm.set (order.idxOf x.1) x.2) init).length = init.length := by
  induction pairs generalizing init with
  | nil => rfl
  | cons x pairs ih => rw [List.foldl_cons, ih, List.length_set]

-- Writing the index of every element at its place gives the list of the indices.
theorem foldl_set_idxOf {α : Type*} [DecidableEq α] {l order : List α} (hl : l.Nodup)
    (horder : order.Perm l) :
    l.zipIdx.foldl (fun perm x => perm.set (order.idxOf x.1) x.2) (List.replicate l.length 0) =
      order.map l.idxOf := by
  have hnodup : order.Nodup := horder.nodup_iff.mpr hl
  have hpre : ∀ part : List α, part.Nodup → ∀ init : List Nat, init.length = order.length →
      ∀ j (hj : j < order.length),
        (part.zipIdx.foldl (fun perm x => perm.set (order.idxOf x.1) x.2) init)[j]? =
          if order[j] ∈ part then some (part.idxOf order[j]) else init[j]? := by
    intro part hpart init hinit j hj
    induction part using List.reverseRecOn with
    | nil => rfl
    | append_singleton part a ih =>
        obtain ⟨hpart', -, hdisjoint⟩ := List.nodup_append'.mp hpart
        have hnew : a ∉ part := fun hmem => hdisjoint hmem (List.mem_singleton.mpr rfl)
        have hlen := foldl_set_length order part.zipIdx init
        rw [List.zipIdx_append, List.foldl_append, List.zipIdx_singleton, List.foldl_cons,
          List.foldl_nil, Nat.zero_add]
        by_cases ha : order[j] = a
        · have hidx : order.idxOf a = j := by
            rw [← ha]
            exact List.Nodup.idxOf_getElem hnodup j hj
          rw [ha, hidx, List.getElem?_set_self (by rw [hlen, hinit]; exact hj),
            if_pos (List.mem_append_right _ (List.mem_singleton.mpr rfl)),
            List.idxOf_append_of_notMem hnew]
          simp
        · have hidx : order.idxOf a ≠ j := by
            intro heq
            apply ha
            subst heq
            exact List.getElem_idxOf hj
          have hmem : order[j] ∈ part ++ [a] ↔ order[j] ∈ part := by simp [ha]
          rw [List.getElem?_set_ne hidx, ih hpart']
          by_cases hin : order[j] ∈ part
          · rw [if_pos hin, if_pos (hmem.mpr hin), List.idxOf_append_of_mem hin]
          · rw [if_neg hin, if_neg fun hc => hin (hmem.mp hc)]
  have hlen := (foldl_set_length order l.zipIdx (List.replicate l.length 0)).trans
    (List.length_replicate.trans horder.length_eq.symm)
  apply List.ext_getElem?
  intro j
  rcases Nat.lt_or_ge j order.length with hj | hj
  · rw [hpre l hl _ (by rw [List.length_replicate, horder.length_eq]) j hj,
      if_pos (horder.mem_iff.mp (List.getElem_mem hj)), List.getElem?_map,
      List.getElem?_eq_getElem hj]
    rfl
  · rw [List.getElem?_eq_none (by rw [hlen]; exact hj), List.getElem?_eq_none (by simpa using hj)]

-- The axes that no dimension is sharded over, and the axes in transposed order.
def replicated_refs (mesh : Mesh) (sharding : TensorSharding) : List AxisRef :=
  mesh.axis_refs.filter (· ∉ sharding.dim_shardings.flatten)

def transposed_refs (mesh : Mesh) (sharding : TensorSharding) : List AxisRef :=
  sharding.dim_shardings.flatten ++ replicated_refs mesh sharding

theorem transposed_refs_perm {mesh : Mesh} {sharding : TensorSharding}
    (h : WholeAxes mesh sharding) : (transposed_refs mesh sharding).Perm mesh.axis_refs := by
  have hnodup : (transposed_refs mesh sharding).Nodup := by
    apply List.nodup_append'.mpr
    refine ⟨h.flatten_nodup, mesh.axis_refs_nodup.filter _, ?_⟩
    intro a ha ha'
    have hout := (List.mem_filter.mp ha').2
    simp [ha] at hout
  apply (List.perm_ext_iff_of_nodup hnodup mesh.axis_refs_nodup).mpr
  intro a
  unfold transposed_refs replicated_refs
  rw [List.mem_append, List.mem_filter]
  constructor
  · intro ha
    rcases ha with ha | ⟨ha, -⟩
    · exact h.mem_axis_refs ha
    · exact ha
  · intro ha
    by_cases hmem : a ∈ sharding.dim_shardings.flatten
    · exact Or.inl hmem
    · exact Or.inr ⟨ha, by simpa using hmem⟩

-- The axes that are placed so far are at their places.
theorem foldl_place_axis {mesh : Mesh} {sharding : TensorSharding} (h : WholeAxes mesh sharding)
    (init : List Nat) (part rest : List AxisRef) (hpart : mesh.axis_refs = part ++ rest) :
    part.zipIdx.foldl (place_axis (sharded_positions sharding) mesh)
        ⟨init, sharding.dim_shardings.flatten.length, 1⟩ =
      ⟨part.zipIdx.foldl (fun perm x =>
          perm.set ((transposed_refs mesh sharding).idxOf x.1) x.2) init,
        sharding.dim_shardings.flatten.length +
          (part.filter (· ∉ sharding.dim_shardings.flatten)).length,
        ((part.filter (· ∉ sharding.dim_shardings.flatten)).map (·.size mesh)).prod⟩ := by
  induction part using List.reverseRecOn generalizing rest with
  | nil => rfl
  | append_singleton part a ih =>
      rw [List.append_assoc] at hpart
      have hlookup := lookup_sharded_positions h.flatten_nodup a
      rw [List.zipIdx_append, List.foldl_append, List.foldl_append, ih _ hpart,
        List.zipIdx_singleton, List.foldl_cons, List.foldl_nil, List.foldl_cons, List.foldl_nil,
        Nat.zero_add, List.filter_append]
      unfold place_axis
      by_cases ha : a ∈ sharding.dim_shardings.flatten
      · rw [if_pos ha] at hlookup
        have hidx : (transposed_refs mesh sharding).idxOf a =
            sharding.dim_shardings.flatten.idxOf a := List.idxOf_append_of_mem ha
        have hnone : [a].filter (· ∉ sharding.dim_shardings.flatten) = [] := by
          rw [List.filter_cons_of_neg (by simpa using ha), List.filter_nil]
        simp only [hlookup]
        rw [hidx, hnone, List.append_nil]
      · rw [if_neg ha] at hlookup
        have hnew : a ∉ part := by
          have hnodup := mesh.axis_refs_nodup
          rw [hpart, List.nodup_append'] at hnodup
          exact fun hmem => hnodup.2.2 hmem List.mem_cons_self
        have hidx : (transposed_refs mesh sharding).idxOf a =
            sharding.dim_shardings.flatten.length +
              (part.filter (· ∉ sharding.dim_shardings.flatten)).length := by
          unfold transposed_refs replicated_refs
          rw [List.idxOf_append_of_notMem ha, hpart, List.filter_append,
            List.idxOf_append_of_notMem fun hmem => hnew (List.mem_of_mem_filter hmem),
            List.singleton_append, List.filter_cons_of_pos (by simpa using ha),
            List.idxOf_cons_self, Nat.add_zero]
        have hone : [a].filter (· ∉ sharding.dim_shardings.flatten) = [a] := by
          rw [List.filter_cons_of_pos (by simpa using ha), List.filter_nil]
        simp only [hlookup]
        rw [hidx, hone, List.length_append, List.map_append, List.prod_append]
        simp [Nat.add_assoc]

theorem place_axes {mesh : Mesh} {sharding : TensorSharding} (h : WholeAxes mesh sharding) :
    mesh.axis_refs.zipIdx.foldl (place_axis (sharded_positions sharding) mesh)
        ⟨List.replicate mesh.axis_refs.length 0, (sharding.dim_shardings.map List.length).sum, 1⟩ =
      ⟨(transposed_refs mesh sharding).map mesh.axis_refs.idxOf,
        (sharding.dim_shardings.map List.length).sum + (replicated_refs mesh sharding).length,
        ((replicated_refs mesh sharding).map (·.size mesh)).prod⟩ := by
  have hplaced := foldl_place_axis h (List.replicate mesh.axis_refs.length 0) mesh.axis_refs []
    (List.append_nil _).symm
  rw [foldl_set_idxOf mesh.axis_refs_nodup (transposed_refs_perm h),
    List.length_flatten] at hplaced
  exact hplaced

end Positions

section TileIndex

variable {mesh : Mesh} {sharding : TensorSharding}

-- The order of the dimensions of the iota, and the dimensions of the tiles.
def transpose_perm (mesh : Mesh) (sharding : TensorSharding) : List Nat :=
  (transposed_refs mesh sharding).map mesh.axis_refs.idxOf

def replicated_size (mesh : Mesh) (sharding : TensorSharding) : Nat :=
  ((replicated_refs mesh sharding).map (·.size mesh)).prod

def all_tile_dims (mesh : Mesh) (sharding : TensorSharding) : List Nat :=
  if 1 < replicated_size mesh sharding then
    tile_assignment_dims sharding mesh ++ [replicated_size mesh sharding]
  else tile_assignment_dims sharding mesh

-- Where a device is among the tiles: its tile, and which copy of it.
def tile_index (mesh : Mesh) (sharding : TensorSharding) (device : Nat) : List Nat :=
  if 1 < replicated_size mesh sharding then
    sharding.tile mesh device ++ [ravel ((replicated_refs mesh sharding).map (·.size mesh))
      ((replicated_refs mesh sharding).map (mesh.coordinate device))]
  else sharding.tile mesh device

theorem tile_assignment_dims_eq (mesh : Mesh) (sharding : TensorSharding) :
    tile_assignment_dims sharding mesh = sharding.tile_counts mesh := by
  have hprod : ∀ (axes : List AxisRef) (n : Nat),
      axes.foldl (fun dim axis_ref => dim * axis_ref.size mesh) n =
        n * (axes.map (·.size mesh)).prod := by
    intro axes n
    induction axes generalizing n with
    | nil => simp
    | cons a axes ih => rw [List.foldl_cons, ih, List.map_cons, List.prod_cons, Nat.mul_assoc]
  unfold tile_assignment_dims TensorSharding.tile_counts
  apply List.map_congr_left
  intro axes _
  rw [hprod, Nat.one_mul]

theorem Mesh.size_pos {axis_ref : AxisRef} (h : axis_ref ∈ mesh.axis_refs) :
    0 < axis_ref.size mesh := by
  have hmem : axis_ref.size mesh ∈ mesh.sizes := by
    rw [← mesh.map_size]
    exact List.mem_map_of_mem h
  obtain ⟨axis, haxis, hsize⟩ := List.mem_map.mp hmem
  rw [← hsize]
  exact mesh.pos axis haxis

theorem Mesh.coordinate_lt {device : Nat} (hdevice : device < mesh.device_count)
    {axis_ref : AxisRef} (h : axis_ref ∈ mesh.axis_refs) :
    mesh.coordinate device axis_ref < axis_ref.size mesh := by
  obtain ⟨hin, -⟩ := unravel_spec hdevice
  have hidx := List.idxOf_lt_length_of_mem h
  have hlen : mesh.axis_refs.length = mesh.sizes.length := by
    rw [← mesh.map_size, List.length_map]
  have hlen' := List.Forall₂.length_eq hin
  have hsize : mesh.sizes.getD (mesh.axis_refs.idxOf axis_ref) 1 = axis_ref.size mesh := by
    simp only [← mesh.map_size]
    rw [List.getD_eq_getElem _ _ (by simpa using hidx), List.getElem_map, List.getElem_idxOf]
  unfold Mesh.coordinate
  rw [← hsize, List.getD_eq_getElem _ _ (by omega), List.getD_eq_getElem _ _ (by omega)]
  exact List.Forall₂.get hin (by omega) (by omega)

theorem inBounds_coordinates {device : Nat} (hdevice : device < mesh.device_count)
    {axes : List AxisRef} (h : ∀ a ∈ axes, a ∈ mesh.axis_refs) :
    InBounds (axes.map (mesh.coordinate device)) (axes.map (·.size mesh)) := by
  unfold InBounds
  rw [List.forall₂_map_left_iff, List.forall₂_map_right_iff, List.forall₂_same]
  exact fun a ha => mesh.coordinate_lt hdevice (h a ha)

theorem tile_index_inBounds (h : WholeAxes mesh sharding) {device : Nat}
    (hdevice : device < mesh.device_count) :
    InBounds (tile_index mesh sharding device) (all_tile_dims mesh sharding) := by
  have htile : InBounds (sharding.tile mesh device) (tile_assignment_dims sharding mesh) := by
    rw [tile_assignment_dims_eq]
    unfold InBounds TensorSharding.tile TensorSharding.tile_counts
    rw [List.forall₂_map_left_iff, List.forall₂_map_right_iff, List.forall₂_same]
    intro axes haxes
    exact ravel_lt (inBounds_coordinates hdevice fun a ha =>
      h.mem_axis_refs (List.mem_flatten.mpr ⟨axes, haxes, ha⟩))
  unfold tile_index all_tile_dims
  by_cases hlast : 1 < replicated_size mesh sharding
  · rw [if_pos hlast, if_pos hlast]
    refine List.rel_append htile (List.Forall₂.cons ?_ .nil)
    exact ravel_lt (inBounds_coordinates hdevice fun a ha => List.mem_of_mem_filter ha)
  · rw [if_neg hlast, if_neg hlast]
    exact htile

-- The position of a device among the tiles is its position in the transposed iota.
theorem ravel_tile_index {device : Nat} (hdevice : device < mesh.device_count) :
    ravel (all_tile_dims mesh sharding) (tile_index mesh sharding device) =
      ravel ((transposed_refs mesh sharding).map (·.size mesh))
        ((transposed_refs mesh sharding).map (mesh.coordinate device)) := by
  have hflatten : transposed_refs mesh sharding =
      (sharding.dim_shardings ++ [replicated_refs mesh sharding]).flatten := by
    rw [List.flatten_append, List.flatten_singleton]
    rfl
  rw [hflatten, ravel_flatMap, List.map_append, List.map_append]
  unfold all_tile_dims tile_index
  rw [tile_assignment_dims_eq]
  by_cases hlast : 1 < replicated_size mesh sharding
  · rw [if_pos hlast, if_pos hlast]
    rfl
  · have hlt := ravel_lt (inBounds_coordinates hdevice
      fun a (ha : a ∈ replicated_refs mesh sharding) => List.mem_of_mem_filter ha)
    have hsize : replicated_size mesh sharding = 1 := by
      have hpos : 0 < replicated_size mesh sharding := Nat.lt_of_le_of_lt (Nat.zero_le _) hlt
      omega
    rw [if_neg hlast, if_neg hlast, ravel_append (by simp)]
    unfold replicated_size at hsize
    rw [hsize, Nat.lt_one_iff] at hlt
    simp only [List.map_cons, List.map_nil]
    rw [hlt, hsize]
    simp [TensorSharding.tile, TensorSharding.tile_counts]

theorem transpose_perm_perm (h : WholeAxes mesh sharding) :
    (transpose_perm mesh sharding).Perm (List.range mesh.sizes.length) := by
  have hrange : mesh.axis_refs.map mesh.axis_refs.idxOf = List.range mesh.sizes.length := by
    rw [← mesh.map_size, List.length_map]
    apply List.ext_getElem
    · simp
    · intro i hi hi'
      rw [List.getElem_map, List.getElem_range]
      exact List.Nodup.idxOf_getElem mesh.axis_refs_nodup i (by simpa using hi)
  rw [← hrange]
  exact (transposed_refs_perm h).map _

-- Which holds the device.
theorem offset_tile_index (h : WholeAxes mesh sharding) {device : Nat}
    (hdevice : device < mesh.device_count) :
    offset (steps mesh.sizes (transpose_perm mesh sharding))
      (ravel (all_tile_dims mesh sharding) (tile_index mesh sharding device)) = device := by
  obtain ⟨hin, hravel⟩ := unravel_spec hdevice
  have hsteps := offset_steps (transpose_perm_perm h) hin
  have hsizes : (transpose_perm mesh sharding).map (fun d => mesh.sizes.getD d 1) =
      (transposed_refs mesh sharding).map (·.size mesh) := by
    unfold transpose_perm
    rw [List.map_map]
    apply List.map_congr_left
    intro a ha
    have hidx := List.idxOf_lt_length_of_mem ((transposed_refs_perm h).mem_iff.mp ha)
    change mesh.sizes.getD (mesh.axis_refs.idxOf a) 1 = _
    simp only [← mesh.map_size]
    rw [List.getD_eq_getElem _ _ (by simpa using hidx), List.getElem_map, List.getElem_idxOf]
  have hcoords : (transpose_perm mesh sharding).map
      (fun d => (unravel mesh.sizes device).getD d 0) =
      (transposed_refs mesh sharding).map (mesh.coordinate device) := by
    unfold transpose_perm
    rw [List.map_map]
    rfl
  rw [hsizes, hcoords, hravel] at hsteps
  rw [ravel_tile_index hdevice]
  exact hsteps

theorem all_tile_dims_prod (h : WholeAxes mesh sharding) :
    (all_tile_dims mesh sharding).prod = mesh.device_count := by
  have hall : (tile_assignment_dims sharding mesh).prod * replicated_size mesh sharding =
      mesh.device_count := by
    unfold Mesh.device_count replicated_size
    rw [← mesh.map_size, ← ((transposed_refs_perm h).map _).prod_eq]
    unfold transposed_refs
    rw [List.map_append, List.prod_append, List.map_flatten, List.prod_flatten, List.map_map,
      tile_assignment_dims_eq]
    rfl
  unfold all_tile_dims
  by_cases hlast : 1 < replicated_size mesh sharding
  · rw [if_pos hlast, List.prod_append, List.prod_singleton]
    exact hall
  · have hpos : 0 < replicated_size mesh sharding := by
      apply List.prod_pos
      intro n hn
      obtain ⟨a, ha, rfl⟩ := List.mem_map.mp hn
      exact mesh.size_pos (List.mem_of_mem_filter ha)
    have hone : replicated_size mesh sharding = 1 := by omega
    rw [hone, Nat.mul_one] at hall
    rw [if_neg hlast]
    exact hall

end TileIndex

end TTXla.PJRT.CleanForXla
