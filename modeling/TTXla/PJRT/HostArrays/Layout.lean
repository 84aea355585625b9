import TTXla.PJRT.HostArrays.Sizes

-- The layout that is passed to the runtime for an array on the host.
namespace TTXla.PJRT

open Excepts data_type_utils BufferInstance Tensor

-- An array in the memory of a caller; of a buffer, without byte strides.
structure HostArray where
  type : PJRT_Buffer_Type
  dims : List Nat
  byte_strides : List Int
  h_strides : byte_strides = [] ∨ byte_strides.length = dims.length

namespace HostArray

-- Where an element is in the memory, in bytes from the first.
def offset (array : HostArray) (is : List Nat) : Int :=
  if array.byte_strides = [] then (array.type.element_size : Int) * ravel array.dims is
  else address array.byte_strides is

def layout (array : HostArray) : Except Fault (List Nat × List Nat) :=
  host_layout array.type array.dims array.byte_strides

-- The index of a part of an element in the tensor.
def part_index (array : HostArray) (is : List Nat) (part : Nat) : List Nat :=
  if isComplexPJRTType array.type then is ++ [part] else is

-- A layout describes an array when the parts of every element are found where they are.
structure Describes (array : HostArray) (element_size : Nat) (shape strides : List Nat) :
    Prop where
  rank : shape.length = strides.length
  shape_eq : shape = output_shape array.type array.dims
  address_eq : ∀ is, InBounds is array.dims → ∀ part < parts array.type,
    (element_size : Int) * address (strides.map Nat.cast) (array.part_index is part) =
      array.offset is + element_size * part

def LayoutDescribes (array : HostArray) : Prop :=
  ∀ runtime_data_type shape strides, convertPJRTToRuntimeDataType array.type =
    .ok runtime_data_type → array.layout = .ok (shape, strides) →
      array.Describes runtime_data_type.dataTypeElementSize shape strides

-- The strides of dimensions with a second index are found in words: without byte strides there
-- is at most one such dimension.
def Addressable (array : HostArray) : Prop :=
  if array.byte_strides = [] then (array.dims.filter fun dim => 1 < dim).length ≤ 1
  else ∀ x ∈ array.dims.zip array.byte_strides, 1 < x.1 →
    (array.type.element_size : Int) ∣ x.2 ∧ 0 ≤ x.2 ∧ x.2 < array.type.element_size * 2 ^ 32

end HostArray

namespace BufferInstance

def stride_of (element_size : Nat) (byte_stride : Int) : Nat :=
  (byte_stride.tdiv element_size % 2 ^ 32).toNat

theorem calculateStrides_eq {num_dims element_size : Nat} {byte_strides : List Int}
    (h : byte_strides = [] ∨ byte_strides.length = num_dims) :
    calculateStrides num_dims byte_strides element_size = .ok
      (if byte_strides = [] then List.replicate num_dims 1
      else byte_strides.map (stride_of element_size)) := by
  have hlength : byte_strides.length = 0 ∨ byte_strides.length = num_dims :=
    h.imp_left (congrArg List.length)
  unfold calculateStrides
  rw [ensure_of hlength]
  change Except.ok _ = _
  rw [Except.ok.injEq]
  cases byte_strides with
  | nil =>
      rw [if_pos rfl, List.eq_replicate_iff, List.length_map, List.length_range]
      refine ⟨rfl, fun stride hstride => ?_⟩
      obtain ⟨i, -, rfl⟩ := List.mem_map.mp hstride
      rfl
  | cons byte_stride byte_strides =>
      have hlength : (byte_stride :: byte_strides).length = num_dims :=
        hlength.resolve_left (by simp)
      rw [if_neg (List.cons_ne_nil _ _)]
      refine List.ext_getElem (by simp [← hlength]) fun i hi hi' => ?_
      rw [List.length_map] at hi'
      rw [List.getElem_map, List.getElem_map, List.getElem_range,
        List.getD_eq_getElem?_getD, List.getElem?_eq_getElem hi']
      rfl

-- A stride in words addresses what the stride in bytes does when nothing is cut off.
theorem stride_of_iff {element_size : Nat} (hpos : 0 < element_size) (byte_stride : Int) :
    (element_size : Int) * stride_of element_size byte_stride = byte_stride ↔
      (element_size : Int) ∣ byte_stride ∧ 0 ≤ byte_stride ∧
        byte_stride < element_size * 2 ^ 32 := by
  have hsize : (0 : Int) < element_size := by omega
  have hmod := Int.emod_nonneg (byte_stride.tdiv element_size) (b := 2 ^ 32) (by decide)
  have hlt := Int.emod_lt_of_pos (byte_stride.tdiv element_size) (b := 2 ^ 32) (by decide)
  have hcast : ((stride_of element_size byte_stride : Nat) : Int) =
      byte_stride.tdiv element_size % 2 ^ 32 := Int.toNat_of_nonneg hmod
  rw [hcast]
  constructor
  · intro h
    have hnonneg := Int.mul_nonneg hsize.le hmod
    have hbound := Int.mul_lt_mul_of_pos_left hlt hsize
    rw [h] at hnonneg hbound
    exact ⟨⟨_, h.symm⟩, hnonneg, hbound⟩
  · intro h
    obtain ⟨⟨words, rfl⟩, hnonneg, hbound⟩ := h
    have hwords : 0 ≤ words := nonneg_of_mul_nonneg_right hnonneg hsize
    have hwords_lt : words < 2 ^ 32 := lt_of_mul_lt_mul_left hbound hsize.le
    rw [Int.mul_tdiv_cancel_left _ hsize.ne', Int.emod_eq_of_lt hwords hwords_lt]

end BufferInstance

namespace HostArray

variable {array : HostArray} {runtime_data_type : DataType}

-- The addresses of the layout of a type that is not complex.
theorem addresses_iff (haccepted : convertPJRTToRuntimeDataType array.type =
    .ok runtime_data_type) (hcomplex : isComplexPJRTType array.type = false)
    (hpos : ∀ dim ∈ array.dims, 0 < dim) {strides : List Nat}
    (hstrides : calculateStrides array.dims.length array.byte_strides
      runtime_data_type.dataTypeElementSize = .ok strides) :
    (∀ is, InBounds is array.dims →
      (runtime_data_type.dataTypeElementSize : Int) * address (strides.map Nat.cast) is =
        array.offset is) ↔ array.Addressable := by
  have hsize := (dataTypeElementSize_bounds runtime_data_type).1
  have helement := element_size_eq haccepted
  rw [parts, if_neg (by simp [hcomplex]), Nat.mul_one] at helement
  rw [calculateStrides_eq array.h_strides, Except.ok.injEq] at hstrides
  subst hstrides
  have hsize_ne : (runtime_data_type.dataTypeElementSize : Int) ≠ 0 := by omega
  unfold offset Addressable
  rw [helement]
  generalize runtime_data_type.dataTypeElementSize = size at *
  by_cases habsent : array.byte_strides = []
  · simp only [if_pos habsent]
    have hones : List.replicate array.dims.length 1 = (row_major array.dims).map fun _ => 1 := by
      rw [List.map_const', length_row_major]
    have haddresses : (∀ is, InBounds is array.dims →
        (size : Int) * address ((List.replicate array.dims.length 1).map Nat.cast) is =
          (size : Int) * ravel array.dims is) ↔ ∀ is, InBounds is array.dims →
        address ((row_major array.dims).map fun _ => (size : Int)) is =
          address ((row_major array.dims).map fun stride : Nat => (size : Int) * stride) is := by
      refine forall₂_congr fun is his => ?_
      rw [← address_map_mul, address_row_major size his, hones, List.map_map, List.map_map]
      simp [Function.comp_def]
    rw [haddresses, address_map_eq_iff (length_row_major _) hpos, ← row_major_ones_iff hpos]
    refine forall₃_congr fun x _ _ => ?_
    constructor
    · intro h
      have hone : (size : Int) * 1 = size * x.2 := (Int.mul_one _).trans h
      have := Int.eq_of_mul_eq_mul_left hsize_ne hone
      omega
    · intro h
      rw [h]
      simp
  · simp only [if_neg habsent]
    have hlength := array.h_strides.resolve_left habsent
    have haddresses : (∀ is, InBounds is array.dims →
        (size : Int) * address ((array.byte_strides.map (stride_of size)).map Nat.cast) is =
          address array.byte_strides is) ↔ ∀ is, InBounds is array.dims →
        address (array.byte_strides.map fun stride => (size : Int) * stride_of size stride) is =
          address (array.byte_strides.map id) is := by
      refine forall₂_congr fun is _ => ?_
      rw [← address_map_mul, List.map_map, List.map_map, List.map_id]
      rfl
    rw [haddresses, address_map_eq_iff hlength hpos]
    exact forall₃_congr fun x _ _ => stride_of_iff hsize x.2

theorem layout_eq_ok (haccepted : convertPJRTToRuntimeDataType array.type =
    .ok runtime_data_type) {shape strides : List Nat} :
    array.layout = .ok (shape, strides) ↔ calculateShape array.type array.dims = .ok shape ∧
      calculateStrides array.dims.length array.byte_strides
        runtime_data_type.dataTypeElementSize = .ok strides := by
  unfold layout host_layout
  rw [haccepted]
  constructor
  · intro h
    change (calculateShape _ _ >>= _) = _ at h
    obtain ⟨shape', hshape, h⟩ := bind_eq_ok.mp h
    obtain ⟨strides', hstrides, h⟩ := bind_eq_ok.mp h
    cases h
    exact ⟨hshape, hstrides⟩
  · intro h
    change (calculateShape _ _ >>= _) = _
    rw [h.1]
    change (calculateStrides _ _ _ >>= _) = _
    rw [h.2]
    rfl

-- A complex array has a dimension more than strides.
theorem not_describes_of_complex (hcomplex : isComplexPJRTType array.type = true)
    {element_size : Nat} {shape strides : List Nat}
    (hstrides : calculateStrides array.dims.length array.byte_strides element_size = .ok strides) :
    ¬array.Describes element_size shape strides := by
  intro h
  have hrank := h.rank
  rw [h.shape_eq, output_shape, if_pos hcomplex] at hrank
  rw [calculateStrides_eq array.h_strides, Except.ok.injEq] at hstrides
  rw [← hstrides] at hrank
  obtain hnil | hlength := array.h_strides
  · rw [if_pos hnil] at hrank
    simp at hrank
  · split at hrank
    · simp at hrank
    · simp [hlength] at hrank

theorem narrowed_eq_iff {dims : List Nat} :
    dims.map (· % 2 ^ 32) = dims ↔ ∀ dim ∈ dims, dim < 2 ^ 32 := by
  constructor
  · intro h dim hdim
    rw [← h] at hdim
    obtain ⟨wide, -, rfl⟩ := List.mem_map.mp hdim
    exact Nat.mod_lt _ (by omega)
  · intro h
    exact (List.map_congr_left fun dim hdim => Nat.mod_eq_of_lt (h dim hdim)).trans
      (List.map_id _)

theorem describes_iff (haccepted : convertPJRTToRuntimeDataType array.type =
    .ok runtime_data_type) (hcomplex : isComplexPJRTType array.type = false)
    {shape strides : List Nat} (hshape : calculateShape array.type array.dims = .ok shape)
    (hstrides : calculateStrides array.dims.length array.byte_strides
      runtime_data_type.dataTypeElementSize = .ok strides) :
    array.Describes runtime_data_type.dataTypeElementSize shape strides ↔
      (∀ dim ∈ array.dims, dim < 2 ^ 32) ∧ (0 ∈ array.dims ∨ array.Addressable) := by
  have hnarrowed : shape = array.dims.map (· % 2 ^ 32) := by
    rw [calculateShape, if_neg (by simp [hcomplex]), hcomplex] at hshape
    cases hshape
    rfl
  have haddress : (∀ is, InBounds is array.dims → ∀ part < parts array.type,
      (runtime_data_type.dataTypeElementSize : Int) * address (strides.map Nat.cast)
        (array.part_index is part) =
          array.offset is + runtime_data_type.dataTypeElementSize * part) ↔
      0 ∈ array.dims ∨ array.Addressable := by
    by_cases hzero : 0 ∈ array.dims
    · refine iff_of_true (fun is his => ?_) (.inl hzero)
      have hprod := List.prod_eq_zero_iff_exists_zero_nat.mpr ⟨0, hzero, rfl⟩
      have := ravel_lt his
      omega
    · have hpos : ∀ dim ∈ array.dims, 0 < dim := fun dim hdim =>
        Nat.pos_of_ne_zero fun heq => hzero (heq ▸ hdim)
      rw [or_iff_right hzero, ← addresses_iff haccepted hcomplex hpos hstrides]
      refine forall₂_congr fun is _ => ?_
      simp [parts, part_index, hcomplex]
  constructor
  · intro h
    have heq := h.shape_eq
    rw [hnarrowed, output_shape, if_neg (by simp [hcomplex])] at heq
    exact ⟨narrowed_eq_iff.mp heq, haddress.mp h.address_eq⟩
  · intro h
    have hdims := narrowed_eq_iff.mpr h.1
    refine ⟨?_, ?_, haddress.mpr h.2⟩
    · rw [calculateStrides_eq array.h_strides, Except.ok.injEq] at hstrides
      rw [hnarrowed, ← hstrides, List.length_map]
      split
      · rw [List.length_replicate]
      · rw [List.length_map, array.h_strides.resolve_left ‹_›]
    · rw [hnarrowed, output_shape, if_neg (by simp [hcomplex]), hdims]

-- The layout describes the array unless the type is complex, a dimension is narrowed, or the
-- strides of its elements are not found; no layout is passed when the type has no equivalent, or
-- for a complex scalar.
theorem layout_describes_iff (array : HostArray) : array.LayoutDescribes ↔
    (∃ fault, convertPJRTToRuntimeDataType array.type = .error fault) ∨
      (isComplexPJRTType array.type = true ∧ array.dims = []) ∨
      (isComplexPJRTType array.type = false ∧ (∀ dim ∈ array.dims, dim < 2 ^ 32) ∧
        (0 ∈ array.dims ∨ array.Addressable)) := by
  unfold LayoutDescribes
  cases haccepted : convertPJRTToRuntimeDataType array.type with
  | error fault => simp
  | ok runtime_data_type =>
      have hstrides : calculateStrides array.dims.length array.byte_strides
          runtime_data_type.dataTypeElementSize = .ok _ := calculateStrides_eq array.h_strides
      have hlayout : ∀ shape strides, array.layout = .ok (shape, strides) ↔
          calculateShape array.type array.dims = .ok shape ∧
            calculateStrides array.dims.length array.byte_strides
              runtime_data_type.dataTypeElementSize = .ok strides := fun shape strides =>
        layout_eq_ok haccepted
      cases hcomplex : isComplexPJRTType array.type with
      | true =>
          by_cases hscalar : array.dims = []
          · refine iff_of_true (fun _ shape strides _ h => ?_) (.inr (.inl ⟨rfl, hscalar⟩))
            obtain ⟨hshape, -⟩ := (hlayout shape strides).mp h
            rw [calculateShape, if_pos ⟨hcomplex, List.length_eq_zero_iff.mpr hscalar⟩] at hshape
            cases hshape
          · refine iff_of_false (fun h => ?_) (by simp [hscalar])
            have hshape : calculateShape array.type array.dims = .ok _ :=
              if_neg fun hscalar' => hscalar (List.length_eq_zero_iff.mp hscalar'.2)
            exact not_describes_of_complex hcomplex hstrides
              (h _ _ _ rfl ((hlayout _ _).mpr ⟨hshape, hstrides⟩))
      | false =>
          have hshape : calculateShape array.type array.dims = .ok _ :=
            if_neg fun hscalar => by simp [hcomplex] at hscalar
          have hdescribes := describes_iff haccepted hcomplex hshape hstrides
          constructor
          · intro h
            exact .inr (.inr ⟨rfl, hdescribes.mp
              (h _ _ _ rfl ((hlayout _ _).mpr ⟨hshape, hstrides⟩))⟩)
          · intro h data_type shape strides hdata_type hpassed
            obtain ⟨hshape', hstrides'⟩ := (hlayout shape strides).mp hpassed
            cases hdata_type
            have hcond : (∀ dim ∈ array.dims, dim < 2 ^ 32) ∧
                (0 ∈ array.dims ∨ array.Addressable) := by simpa using h
            exact (describes_iff haccepted hcomplex hshape' hstrides').mpr hcond

-- Without strides, every dimension of a dense matrix gets the stride of one element.
theorem dense_matrix_overlaps : ¬∀ array : HostArray, array.LayoutDescribes := by
  intro h
  have hmatrix := h ⟨.F32, [2, 3], [], .inl rfl⟩ .Float32 [2, 3] [1, 1] rfl rfl
  have haddress := hmatrix.address_eq [1, 0] (by simp) 0 (by decide)
  revert haddress
  decide

end HostArray

end TTXla.PJRT
