import TTXla.PJRT.HostArrays

-- The size that is reported for a copy to the host, and the bytes that are copied.
namespace TTXla.PJRT

open Excepts data_type_utils

-- The bytes of an element in the memory of a caller.
def PJRT_Buffer_Type.element_size : PJRT_Buffer_Type → Nat
  | .C128 => 16
  | .C64 | .S64 | .U64 | .F64 => 8
  | .S32 | .U32 | .F32 => 4
  | .S16 | .U16 | .F16 | .BF16 => 2
  | .INVALID | .other _ => 0
  | _ => 1

namespace BufferInstance

variable {type : PJRT_Buffer_Type} {runtime_data_type : DataType} {dims shape : List Nat}

-- The shape of the tensor of a buffer: of one that is made from the host, of an output of a
-- binary, or of an output of a shared object.
inductive HoldsShape (type : PJRT_Buffer_Type) (dims : List Nat) : List Nat → Prop
  | input {shape : List Nat} (h : calculateShape type dims = .ok shape) : HoldsShape type dims shape
  | output (h : ∀ dim ∈ dims, dim < 2 ^ 32) : HoldsShape type dims (output_shape type dims)
  | default_output (h : ∀ dim ∈ dims, dim < 2 ^ 32) : HoldsShape type dims dims

-- The size that is reported is that of the elements, a buffer of this size is filled, and no
-- copy goes past its buffer.
structure SizeCovers (type : PJRT_Buffer_Type) (dims tensor_shape : List Nat) : Prop where
  reported : logicalTensorSize type dims = .ok (dims.prod * type.element_size)
  filled : bytes_copied type dims tensor_shape (dims.prod * type.element_size) =
    .ok (dims.prod * type.element_size)
  within : ∀ host_buffer_size bytes, bytes_copied type dims tensor_shape host_buffer_size =
    .ok bytes → bytes ≤ host_buffer_size

-- How many elements of the runtime an element is stored as.
def parts (type : PJRT_Buffer_Type) : Nat := if isComplexPJRTType type then 2 else 1

theorem element_size_eq (h : convertPJRTToRuntimeDataType type = .ok runtime_data_type) :
    type.element_size = runtime_data_type.dataTypeElementSize * parts type := by
  cases type <;> cases h <;> rfl

theorem dataTypeElementSize_bounds (data_type : DataType) :
    0 < data_type.dataTypeElementSize ∧ data_type.dataTypeElementSize < 2 ^ 64 := by
  cases data_type <;> decide

theorem foldl_size {n : Nat} (hn : n < 2 ^ 64) (dims : List Nat) :
    dims.foldl (fun acc dim => acc * dim % 2 ^ 64) n = n * dims.prod % 2 ^ 64 := by
  induction dims generalizing n with
  | nil => rw [List.foldl_nil, List.prod_nil, Nat.mul_one, Nat.mod_eq_of_lt hn]
  | cons dim dims ih =>
      have hlt : n * dim % 2 ^ 64 < 2 ^ 64 := Nat.mod_lt _ (by omega)
      rw [List.foldl_cons, ih hlt, List.prod_cons, Nat.mod_mul_mod, Nat.mul_assoc]

theorem logicalTensorSize_eq (h : convertPJRTToRuntimeDataType type = .ok runtime_data_type) :
    logicalTensorSize type dims =
      .ok (runtime_data_type.dataTypeElementSize * dims.prod % 2 ^ 64) := by
  have hlt := (dataTypeElementSize_bounds runtime_data_type).2
  unfold logicalTensorSize
  rw [h, ← foldl_size hlt]
  rfl

theorem bytes_copied_eq (h : convertPJRTToRuntimeDataType type = .ok runtime_data_type)
    {tensor_shape : List Nat} {host_buffer_size bytes : Nat} :
    bytes_copied type dims tensor_shape host_buffer_size = .ok bytes ↔
      runtime_data_type.dataTypeElementSize * dims.prod % 2 ^ 64 ≤ host_buffer_size ∧
        tensor_shape.prod * runtime_data_type.dataTypeElementSize = bytes := by
  unfold bytes_copied
  rw [h, logicalTensorSize_eq h]
  constructor
  · intro hcopied
    change (ensure _ _ >>= _) = _ at hcopied
    obtain ⟨_, hle, hcopied⟩ := bind_eq_ok.mp hcopied
    cases hcopied
    exact ⟨ensure_eq_ok.mp hle, rfl⟩
  · intro hcopied
    obtain ⟨hle, rfl⟩ := hcopied
    change (ensure _ _ >>= _) = _
    rw [ensure_of hle]
    rfl

theorem narrowed_prod_le (dims : List Nat) : (dims.map (· % 2 ^ 32)).prod ≤ dims.prod := by
  induction dims with
  | nil => exact Nat.le_refl _
  | cons dim dims ih =>
      rw [List.map_cons, List.prod_cons, List.prod_cons]
      exact Nat.mul_le_mul (Nat.mod_le dim _) ih

-- The volume is that of the dimensions when none of them is narrowed.
theorem narrowed_prod_eq_iff (hpos : ∀ dim ∈ dims, 0 < dim) :
    (dims.map (· % 2 ^ 32)).prod = dims.prod ↔ ∀ dim ∈ dims, dim < 2 ^ 32 := by
  induction dims with
  | nil => exact ⟨fun _ _ hdim => (nomatch hdim), fun _ => rfl⟩
  | cons dim dims ih =>
      have hdim := hpos dim List.mem_cons_self
      have hdims : ∀ dim ∈ dims, 0 < dim := fun d hd => hpos d (List.mem_cons_of_mem _ hd)
      have hprod : 0 < dims.prod := List.prod_pos_iff_forall_pos_nat.mpr hdims
      rw [List.map_cons, List.prod_cons, List.prod_cons, List.forall_mem_cons, ← ih hdims]
      constructor
      · intro heq
        by_cases hlt : dim < 2 ^ 32
        · rw [Nat.mod_eq_of_lt hlt] at heq
          exact ⟨hlt, Nat.eq_of_mul_eq_mul_left hdim heq⟩
        · have hmod : dim % 2 ^ 32 < dim := Nat.lt_of_lt_of_le (Nat.mod_lt _ (by omega)) (by omega)
          have hless : dim % 2 ^ 32 * (dims.map (· % 2 ^ 32)).prod < dim * dims.prod :=
            calc dim % 2 ^ 32 * (dims.map (· % 2 ^ 32)).prod
                ≤ dim % 2 ^ 32 * dims.prod := Nat.mul_le_mul_left _ (narrowed_prod_le dims)
              _ < dim * dims.prod := Nat.mul_lt_mul_of_pos_right hmod hprod
          omega
      · intro h
        rw [Nat.mod_eq_of_lt h.1, h.2]

theorem calculateShape_eq (h : calculateShape type dims = .ok shape) :
    shape.prod = (dims.map (· % 2 ^ 32)).prod * parts type := by
  unfold calculateShape at h
  split at h
  · cases h
  · cases h
    unfold parts
    split
    · rw [List.prod_append]
      rfl
    · rw [Nat.mul_one]

theorem HoldsShape.zero (h : HoldsShape type dims shape) (hzero : 0 ∈ dims) : shape.prod = 0 := by
  have hprod : dims.prod = 0 := List.prod_eq_zero_iff_exists_zero_nat.mpr ⟨0, hzero, rfl⟩
  cases h with
  | input h =>
      have hle := narrowed_prod_le dims
      rw [calculateShape_eq h]
      have hnarrowed : (dims.map (· % 2 ^ 32)).prod = 0 := by omega
      rw [hnarrowed, Nat.zero_mul]
  | output _ =>
      unfold output_shape
      split
      · rw [List.prod_append, hprod, Nat.zero_mul]
      · exact hprod
  | default_output _ => exact hprod

-- Without parts, the tensor has the volume of the dimensions when none of them is narrowed.
theorem HoldsShape.prod_eq_iff (h : HoldsShape type dims shape) (hpos : ∀ dim ∈ dims, 0 < dim)
    (hcomplex : isComplexPJRTType type = false) :
    shape.prod = dims.prod ↔ ∀ dim ∈ dims, dim < 2 ^ 32 := by
  cases h with
  | input h =>
      rw [calculateShape_eq h, parts, if_neg (by simp [hcomplex]), Nat.mul_one]
      exact narrowed_prod_eq_iff hpos
  | output h =>
      rw [output_shape, if_neg (by simp [hcomplex])]
      exact iff_of_true rfl h
  | default_output h => exact iff_of_true rfl h

-- The size covers the copy unless the type is complex, a dimension is narrowed, or the size
-- overflows; without elements there is nothing to copy.
theorem size_covers_iff (haccepted : convertPJRTToRuntimeDataType type = .ok runtime_data_type)
    (h : HoldsShape type dims shape) :
    SizeCovers type dims shape ↔ 0 ∈ dims ∨ (isComplexPJRTType type = false ∧
      (∀ dim ∈ dims, dim < 2 ^ 32) ∧ dims.prod * type.element_size < 2 ^ 64) := by
  obtain ⟨hsize, -⟩ := dataTypeElementSize_bounds runtime_data_type
  have helement := element_size_eq haccepted
  by_cases hzero : 0 ∈ dims
  · have hprod : dims.prod = 0 := List.prod_eq_zero_iff_exists_zero_nat.mpr ⟨0, hzero, rfl⟩
    refine iff_of_true ⟨?_, ?_, fun host_buffer_size bytes hcopied => ?_⟩ (.inl hzero)
    · rw [logicalTensorSize_eq haccepted, hprod, Nat.mul_zero, Nat.zero_mul, Nat.zero_mod]
    · rw [bytes_copied_eq haccepted, h.zero hzero, hprod]
      simp
    · obtain ⟨-, rfl⟩ := (bytes_copied_eq haccepted).mp hcopied
      rw [h.zero hzero, Nat.zero_mul]
      exact Nat.zero_le _
  · have hpos : ∀ dim ∈ dims, 0 < dim := fun dim hdim =>
      Nat.pos_of_ne_zero fun heq => hzero (heq ▸ hdim)
    have hprod : 0 < dims.prod := List.prod_pos_iff_forall_pos_nat.mpr hpos
    have hle := Nat.mod_le (runtime_data_type.dataTypeElementSize * dims.prod) (2 ^ 64)
    have hbytes : 0 < runtime_data_type.dataTypeElementSize * dims.prod :=
      Nat.mul_pos hsize hprod
    rw [or_iff_right hzero]
    constructor
    · intro hcovers
      have hreported := hcovers.reported
      rw [logicalTensorSize_eq haccepted, helement, Except.ok.injEq] at hreported
      have hparts : dims.prod * (runtime_data_type.dataTypeElementSize * parts type) =
          runtime_data_type.dataTypeElementSize * dims.prod * parts type := by ring
      rw [hparts] at hreported
      -- twice the reported size is copied of complex elements
      have hcomplex : isComplexPJRTType type = false := by
        by_contra hcomplex
        rw [Bool.not_eq_false] at hcomplex
        rw [parts, if_pos hcomplex] at hreported
        omega
      rw [parts, if_neg (by simp [hcomplex]), Nat.mul_one] at hreported helement
      have hfilled := (bytes_copied_eq haccepted).mp hcovers.filled
      rw [helement] at hfilled ⊢
      have hshape : shape.prod = dims.prod := Nat.eq_of_mul_eq_mul_right hsize hfilled.2
      have hmod := Nat.mod_lt (runtime_data_type.dataTypeElementSize * dims.prod)
        (Nat.two_pow_pos 64)
      refine ⟨hcomplex, (h.prod_eq_iff hpos hcomplex).mp hshape, ?_⟩
      rw [Nat.mul_comm]
      omega
    · intro hcond
      obtain ⟨hcomplex, hdims, hlt⟩ := hcond
      have hshape := (h.prod_eq_iff hpos hcomplex).mpr hdims
      rw [parts, if_neg (by simp [hcomplex]), Nat.mul_one] at helement
      rw [helement] at hlt
      have hmod : runtime_data_type.dataTypeElementSize * dims.prod % 2 ^ 64 =
          dims.prod * runtime_data_type.dataTypeElementSize := by
        rw [Nat.mul_comm, Nat.mod_eq_of_lt hlt]
      refine ⟨?_, ?_, fun host_buffer_size bytes hcopied => ?_⟩
      · rw [logicalTensorSize_eq haccepted, hmod, helement]
      · rw [bytes_copied_eq haccepted, hmod, helement, hshape]
        exact ⟨Nat.le_refl _, rfl⟩
      · obtain ⟨hfits, rfl⟩ := (bytes_copied_eq haccepted).mp hcopied
        rw [hshape, ← hmod]
        exact hfits

theorem matrix_covers : SizeCovers .BF16 [2, 3] [2, 3] :=
  (size_covers_iff rfl (.input rfl)).mpr (by decide)

-- Two floats are written for a complex element, and the size of one is reported.
theorem complex_overruns : ¬∀ type dims shape runtime_data_type,
    convertPJRTToRuntimeDataType type = .ok runtime_data_type → HoldsShape type dims shape →
      SizeCovers type dims shape := by
  intro h
  have hcovers := h .C64 [3] [3, 2] .Float32 rfl (.input rfl)
  have hreported := hcovers.reported
  cases hreported

end BufferInstance

end TTXla.PJRT
