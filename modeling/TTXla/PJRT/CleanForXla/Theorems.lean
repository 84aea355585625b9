import TTXla.PJRT.CleanForXla.Canonicalize
import TTXla.PJRT.CleanForXla.Encoding
import TTXla.PJRT.CleanForXla.Text
import Mathlib.Algebra.BigOperators.Ring.List

-- Cleaning keeps the sharding, if there is more than one device.
namespace TTXla.PJRT.CleanForXla

open Tensor Strided Excepts

-- A sharding of the same tiles, and every device holds its own tile.
structure Denotes (mesh : Mesh) (sharding : TensorSharding) (hlo : HloSharding) : Prop where
  covers : hlo.Covers mesh.device_count
  tile_counts : hlo.tile_counts sharding.dim_shardings.length = sharding.tile_counts mesh
  tiles : ∀ device < mesh.device_count, ∀ tile,
    hlo.Holds sharding.dim_shardings.length device tile ↔ tile = sharding.tile mesh device

-- The text is well formed, and says the same as the sharding.
def Cleaned (mesh : Mesh) (sharding : TensorSharding) : Prop :=
  ∃ text hlo, extract_hlo_sharding_string sharding mesh = .ok text ∧
    Syntax.parse text = some hlo ∧ Denotes mesh sharding hlo

variable {mesh : Mesh} {sharding : TensorSharding}

theorem denotes_replicated (h : sharding.is_fully_replicated) :
    Denotes mesh sharding .replicated := by
  have hempty : ∀ axes ∈ sharding.dim_shardings, axes = [] := by
    intro axes haxes
    exact List.isEmpty_iff.mp (List.all_eq_true.mp h axes haxes)
  have hcounts : sharding.tile_counts mesh = List.replicate sharding.dim_shardings.length 1 := by
    apply List.eq_replicate_iff.mpr
    refine ⟨List.length_map _, ?_⟩
    intro n hn
    obtain ⟨axes, haxes, rfl⟩ := List.mem_map.mp hn
    rw [hempty axes haxes]
    rfl
  have htile : ∀ device, sharding.tile mesh device =
      List.replicate sharding.dim_shardings.length 0 := by
    intro device
    apply List.eq_replicate_iff.mpr
    refine ⟨List.length_map _, ?_⟩
    intro n hn
    obtain ⟨axes, haxes, rfl⟩ := List.mem_map.mp hn
    rw [hempty axes haxes]
    rfl
  refine ⟨trivial, hcounts.symm, ?_⟩
  intro device _ tile
  rw [htile device]
  exact Iff.rfl

-- The devices that the iota enumerates are the devices at their tiles.
theorem denotes_tiled (h : WholeAxes mesh sharding) {dims perm : List Nat}
    (hcanonical : Canonical mesh.sizes (transpose_perm mesh sharding) dims perm) :
    Denotes mesh sharding (.tiled (all_tile_dims mesh sharding) dims perm
      (1 < replicated_size mesh sharding)) := by
  have hprod : dims.prod = mesh.device_count := by
    have hlen := congrArg List.length hcanonical.order
    unfold device_order at hlen
    rw [List.length_map, List.length_map, List.length_range, List.length_range] at hlen
    exact hlen
  have hheld : ∀ device < mesh.device_count, (device_order dims perm)[ravel
      (all_tile_dims mesh sharding) (tile_index mesh sharding device)]? = some device := by
    intro device hdevice
    have hlt := ravel_lt (tile_index_inBounds h hdevice)
    rw [all_tile_dims_prod h] at hlt
    rw [hcanonical.order]
    unfold device_order
    rw [List.getElem?_map]
    unfold Mesh.device_count at hlt
    rw [List.getElem?_range hlt]
    exact congrArg some (offset_tile_index h hdevice)
  have htile : ∀ device, sharding.tile mesh device =
      if decide (1 < replicated_size mesh sharding) = true then
        (tile_index mesh sharding device).dropLast
      else tile_index mesh sharding device := by
    intro device
    unfold tile_index
    by_cases hlast : 1 < replicated_size mesh sharding
    · rw [if_pos (decide_eq_true hlast), if_pos hlast, List.dropLast_concat]
    · rw [if_neg (by simpa using hlast), if_neg hlast]
  refine ⟨⟨all_tile_dims_prod h, hprod⟩, ?_, ?_⟩
  · change (if decide (1 < replicated_size mesh sharding) = true then
      (all_tile_dims mesh sharding).dropLast else all_tile_dims mesh sharding) = _
    unfold all_tile_dims
    by_cases hlast : 1 < replicated_size mesh sharding
    · rw [if_pos (decide_eq_true hlast), if_pos hlast, List.dropLast_concat,
        tile_assignment_dims_eq]
    · rw [if_neg (by simpa using hlast), if_neg hlast, tile_assignment_dims_eq]
  · intro device hdevice tile
    constructor
    · rintro ⟨is, hin, hdev, rfl⟩
      rw [HloSharding.held_only (all_tile_dims_prod h)
        (fun d hd => tile_index_inBounds h hd) hheld hin hdev, htile device]
    · rintro rfl
      exact ⟨_, tile_index_inBounds h hdevice, hheld device hdevice, htile device⟩

-- What is extracted for a sharding over some axes.
theorem extract_eq (h : WholeAxes mesh sharding) (hused : ¬sharding.is_fully_replicated) :
    ∃ dims perm, Canonical mesh.sizes (transpose_perm mesh sharding) dims perm ∧
      extract_hlo_sharding_string sharding mesh =
        .ok (sharding_text (all_tile_dims mesh sharding) dims perm
          (1 < replicated_size mesh sharding)) := by
  have hpos : ∀ d ∈ mesh.sizes, 0 < d := by
    intro d hd
    obtain ⟨axis, haxis, rfl⟩ := List.mem_map.mp hd
    exact mesh.pos axis haxis
  have hrounds : mesh.sizes.length < mesh.axis_refs.length + 1 := by
    rw [← mesh.map_size, List.length_map]
    exact Nat.lt_succ_self _
  obtain ⟨dims, perm, hok, hcanonical⟩ :=
    canonicalize_iota_dims_spec ⟨hpos, transpose_perm_perm h⟩ hrounds
  refine ⟨dims, perm, hcanonical, ?_⟩
  unfold extract_hlo_sharding_string
  rw [if_neg hused]
  simp only [get_ordered_axis_refs_eq h, place_axes h, mesh.map_size]
  unfold transpose_perm at hok
  rw [hok]
  rfl

-- Every dimension that is left has at least two devices.
theorem dims_ne_nil_iff {dims perm : List Nat} {sizes order : List Nat}
    (h : Canonical sizes order dims perm) : dims ≠ [] ↔ 1 < dims.prod := by
  constructor
  · intro hne
    obtain ⟨d, rest, rfl⟩ := List.exists_cons_of_ne_nil hne
    have hd := h.iota.pos d List.mem_cons_self
    have hd' := h.no_unit_dim d List.mem_cons_self
    have hrest : 0 < rest.prod :=
      List.prod_pos fun x hx => h.iota.pos x (List.mem_cons_of_mem _ hx)
    rw [List.prod_cons]
    calc 1 < d := by omega
      _ ≤ d * rest.prod := Nat.le_mul_of_pos_right d hrest
  · intro hlt hnil
    rw [hnil, List.prod_nil] at hlt
    omega

theorem parse_extracted (h : WholeAxes mesh sharding) {dims perm : List Nat}
    (hcanonical : Canonical mesh.sizes (transpose_perm mesh sharding) dims perm)
    (hne : dims ≠ []) :
    Syntax.parse (sharding_text (all_tile_dims mesh sharding) dims perm
      (1 < replicated_size mesh sharding)) =
      some (.tiled (all_tile_dims mesh sharding) dims perm
        (1 < replicated_size mesh sharding)) := by
  obtain ⟨hcovers, -, -⟩ := denotes_tiled h hcanonical
  have hdevices : 1 < mesh.device_count := by
    rw [← hcovers.2]
    exact (dims_ne_nil_iff hcanonical).mp hne
  have hpos : ∀ d ∈ all_tile_dims mesh sharding, 0 < d := by
    intro d hd
    apply Nat.pos_of_ne_zero
    rintro rfl
    have hzero := List.prod_eq_zero hd
    rw [all_tile_dims_prod h] at hzero
    omega
  have htile : all_tile_dims mesh sharding ≠ [] := by
    intro hnil
    have hone : (all_tile_dims mesh sharding).prod = 1 := by rw [hnil, List.prod_nil]
    rw [all_tile_dims_prod h] at hone
    omega
  have hmoved : 2 ≤ dims.length → perm ≠ List.range perm.length := by
    intro htwo hid
    have hlen : perm.length = dims.length := by
      rw [hcanonical.iota.perm.length_eq, List.length_range]
    have hget : ∀ j < perm.length, perm.getD j 0 = j := by
      intro j hj
      rw [hid, List.getD_eq_getElem _ _ (by simpa using hj), List.getElem_range]
    apply hcanonical.no_merge 0 (by omega)
    rw [hget 1 (by omega), hget 0 (by omega)]
  exact parse_sharding_text htile hne hpos hcanonical.iota (hcovers.1.trans hcovers.2.symm)
    hmoved _

-- The canonical form of any iota, and the sharding of any mesh of more than one device.
theorem cleaned_iff (h : WholeAxes mesh sharding) :
    (∀ dims perm, Iota dims perm → ∀ rounds > dims.length, ∃ dims' perm',
      canonicalize_iota_dims rounds dims perm = .ok (dims', perm') ∧
        Canonical dims perm dims' perm') ∧
    (Cleaned mesh sharding ↔ 1 < mesh.device_count ∨ sharding.is_fully_replicated) := by
  refine ⟨fun dims perm hiota rounds hrounds => canonicalize_iota_dims_spec hiota hrounds, ?_⟩
  by_cases hused : sharding.is_fully_replicated
  · refine ⟨fun _ => Or.inr hused, fun _ => ?_⟩
    refine ⟨"\x7breplicated\x7d", .replicated, ?_, rfl, denotes_replicated hused⟩
    unfold extract_hlo_sharding_string
    rw [if_pos hused]
    rfl
  · obtain ⟨dims, perm, hcanonical, hextract⟩ := extract_eq h hused
    have hdenotes := denotes_tiled h hcanonical
    constructor
    · rintro ⟨text, hlo, htext, hparse, -⟩
      rw [hextract] at htext
      cases htext
      refine Or.inl ?_
      rw [← hdenotes.covers.2]
      apply (dims_ne_nil_iff hcanonical).mp
      rintro rfl
      rw [parse_no_dims] at hparse
      cases hparse
    · intro hdevices
      rcases hdevices with hdevices | hdevices
      · rw [← hdenotes.covers.2] at hdevices
        have hne := (dims_ne_nil_iff hcanonical).mpr hdevices
        exact ⟨_, _, hextract, parse_extracted h hcanonical hne, hdenotes⟩
      · exact absurd hdevices hused

-- Columns of a 2 by 3 mesh: the devices [0,3,1,4,2,5] in groups of two.
def gridMesh : Mesh where
  axes := [⟨"rows", 2⟩, ⟨"columns", 3⟩]
  nodup := by decide
  pos := by decide

def columnSharding : TensorSharding := ⟨[[⟨"columns", none⟩], []], [], []⟩

theorem columnSharding_cleaned : Cleaned gridMesh columnSharding := by
  have hwhole : WholeAxes gridMesh columnSharding := ⟨by decide, by decide⟩
  exact (cleaned_iff hwhole).2.mpr (Or.inl (by decide))

-- A single device: the text has no dimensions for the iota.
def singleMesh : Mesh where
  axes := [⟨"batch", 1⟩]
  nodup := by decide
  pos := by decide

def batchSharding : TensorSharding := ⟨[[⟨"batch", none⟩]], [], []⟩

theorem batchSharding_not_cleaned :
    WholeAxes singleMesh batchSharding ∧ ¬Cleaned singleMesh batchSharding := by
  refine ⟨⟨by decide, by decide⟩, ?_⟩
  rintro ⟨text, hlo, htext, hparse, -⟩
  have hextract : extract_hlo_sharding_string batchSharding singleMesh =
      .ok (sharding_text [1] [] [] false) := rfl
  rw [hextract] at htext
  cases htext
  rw [parse_no_dims] at hparse
  cases hparse

end TTXla.PJRT.CleanForXla
