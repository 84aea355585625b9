import TTXla.PJRT.CompileOptionsParser

-- What the parser reads of serialized messages, and the device ids of an assignment.
namespace TTXla.PJRT

open Wire (UnknownField Spells encode varint)

-- How many groups may be open at a time.
def recursion_limit : Nat := 100

-- The fields of a message that can be serialized.
structure IsMessage (fields : List UnknownField) : Prop where
  fits : ∀ field ∈ fields, field.Fits recursion_limit
  small : (encode fields).length < 2 ^ 31

theorem IsMessage.of_flat {fields : List UnknownField}
    (hfits : ∀ field ∈ fields, field.fits_flat) (hsmall : (encode fields).length < 2 ^ 31) :
    IsMessage fields :=
  ⟨fun field hfield => .of_flat (hfits field hfield) _, hsmall⟩

-- What is known of protocol buffers: serialized messages are read back, and only messages are.
structure CodedInputStream.Conforms (cis : CodedInputStream) : Prop where
  merge : ∀ fields, IsMessage fields → cis.merge_from_coded_stream (encode fields) = some fields
  refuse : ∀ bytes fields, cis.merge_from_coded_stream bytes = some fields → Spells bytes fields
  read_varint64 : ∀ (value : UInt64) rest,
    cis.read_varint64 (varint value.toNat ++ rest) = some (value, rest)
  read_end : cis.read_varint64 [] = none

def CodedInputStream.wire : CodedInputStream where
  merge_from_coded_stream := Wire.parse recursion_limit
  read_varint64 bytes := (Wire.read_varint bytes).map fun x => (UInt64.ofNat x.1, x.2)

theorem CodedInputStream.wire_conforms : CodedInputStream.wire.Conforms where
  merge _ h := Wire.parse_encode h.fits
  refuse _ _ h := Wire.spells_of_parse h
  read_varint64 value rest := by
    have hread := Wire.read_varint_varint value.toNat_lt rest
    simp only [wire, hread, Option.map_some, UInt64.ofNat_toNat]
  read_end := rfl

theorem foldl_filter_of_skip {α β : Type*} {f : β → α → β} {p : α → Bool}
    (hskip : ∀ b a, p a = false → f b a = b) (l : List α) (b : β) :
    l.foldl f b = (l.filter p).foldl f b := by
  induction l generalizing b with
  | nil => rfl
  | cons a l ih =>
      cases ha : p a with
      | false => rw [List.foldl_cons, hskip b a ha, List.filter_cons_of_neg (by simp [ha]), ih]
      | true => rw [List.foldl_cons, List.filter_cons_of_pos ha, List.foldl_cons, ih]

namespace CompileOptionsParser

-- The field of a message in which its replica ids are, packed or not, when there is one replica.
inductive ReplicaId (id : Int64) : List UnknownField → Prop
  | unpacked : ReplicaId id [.varint 1 id.toUInt64]
  | packed : ReplicaId id [.length_delimited 1 (varint id.toUInt64.toNat)]

def with_number (number : Nat) (fields : List UnknownField) : List UnknownField :=
  fields.filter fun field => field.number = number

-- A computation device of an assignment; what it holds beside the id is not read.
def ComputationDevice (id : Int64) (field : UnknownField) : Prop :=
  ∃ fields, field = .length_delimited 3 (encode fields) ∧ IsMessage fields ∧
    ReplicaId id (with_number 1 fields)

-- Compile options with a device assignment of one replica, among any other fields.
def Assigns (unknown_fields : List UnknownField) (ids : List Int64) : Prop :=
  ∃ build assignment,
    with_number 3 unknown_fields = [.length_delimited 3 (encode build)] ∧ IsMessage build ∧
    with_number 9 build = [.length_delimited 9 (encode assignment)] ∧ IsMessage assignment ∧
    List.Forall₂ ComputationDevice ids (with_number 3 assignment)

section Extraction

variable {cis : CodedInputStream} (hcis : cis.Conforms)
include hcis

theorem extract_computation_device {fields : List UnknownField} {id : Int64}
    (h : ReplicaId id (with_number 1 fields)) (s : OrderedSet Int) :
    extractDeviceIdsFromComputationDevice cis fields s = s.insert id.toInt := by
  have hid : id.toUInt64.toInt64.toInt = id.toInt := congrArg Int64.toInt id.toInt64_toUInt64
  have hown : extractDeviceIdsFromComputationDevice cis fields s =
      extractDeviceIdsFromComputationDevice cis (with_number 1 fields) s := by
    refine foldl_filter_of_skip (fun s field hfield => ?_) fields s
    have hnumber : field.number ≠ 1 := of_decide_eq_false hfield
    cases field with
    | varint number value =>
        split
        · rename_i heq
          cases heq
          exact absurd rfl hnumber
        · rename_i heq
          cases heq
        · rfl
    | length_delimited number data =>
        split
        · rename_i heq
          cases heq
        · rename_i heq
          cases heq
          exact absurd rfl hnumber
        · rfl
    | fixed32 number value => rfl
    | fixed64 number value => rfl
    | group number fields => rfl
  rw [hown]
  generalize with_number 1 fields = own at h
  cases h with
  | unpacked =>
      have hstep : extractDeviceIdsFromComputationDevice cis [.varint 1 id.toUInt64] s =
          s.insert id.toUInt64.toInt64.toInt := rfl
      rw [hstep, hid]
  | packed =>
      have hpacked : read_packed cis (varint id.toUInt64.toNat).length
          (varint id.toUInt64.toNat) = [id.toInt] := by
        have hread := hcis.read_varint64 id.toUInt64 []
        rw [List.append_nil] at hread
        obtain ⟨n, hn⟩ : ∃ n, (varint id.toUInt64.toNat).length = n + 1 :=
          Nat.exists_eq_succ_of_ne_zero (Wire.length_varint_pos _).ne'
        rw [hn, read_packed, hread]
        dsimp only
        cases n with
        | zero => rw [read_packed, hid]
        | succ n => rw [read_packed, hcis.read_end, hid]
      have hstep : extractDeviceIdsFromComputationDevice cis
          [.length_delimited 1 (varint id.toUInt64.toNat)] s =
          s.insert_all (read_packed cis (varint id.toUInt64.toNat).length
            (varint id.toUInt64.toNat)) := rfl
      rw [hstep, hpacked]
      rfl

omit hcis in
theorem for_nested_own (number : Nat)
    (extract : List UnknownField → OrderedSet Int → OrderedSet Int) (fields : List UnknownField)
    (s : OrderedSet Int) :
    for_nested cis number extract fields s =
      for_nested cis number extract (with_number number fields) s :=
  foldl_filter_of_skip (fun _ _ hfield => if_pos (of_decide_eq_false hfield)) fields s

theorem for_nested_cons (number : Nat)
    (extract : List UnknownField → OrderedSet Int → OrderedSet Int)
    {fields : List UnknownField} (hfields : IsMessage fields) (rest : List UnknownField)
    (s : OrderedSet Int) :
    for_nested cis number extract (.length_delimited number (encode fields) :: rest) s =
      for_nested cis number extract rest (extract fields s) := by
  have hparse : parseNestedProtobufField cis (.length_delimited number (encode fields)) =
      some fields := hcis.merge fields hfields
  have hnumber : ¬(UnknownField.length_delimited number (encode fields)).number ≠ number :=
    fun h => h rfl
  rw [for_nested, List.foldl_cons, if_neg hnumber, hparse]
  rfl

theorem extract_device_assignment {fields : List UnknownField} {ids : List Int64}
    (h : List.Forall₂ ComputationDevice ids (with_number 3 fields)) (s : OrderedSet Int) :
    extractDeviceIdsFromDeviceAssignment cis fields s =
      s.insert_all (ids.map Int64.toInt) := by
  rw [extractDeviceIdsFromDeviceAssignment, for_nested_own]
  generalize with_number 3 fields = own at h
  induction h generalizing s with
  | nil => rfl
  | cons hdevice _ ih =>
      obtain ⟨comp, rfl, hcomp, hid⟩ := hdevice
      rw [for_nested_cons hcis 3 _ hcomp, extract_computation_device hcis hid]
      exact ih _

-- The ids of an assignment, in increasing order.
theorem extract_replica_device_ids {unknown_fields : List UnknownField} {ids : List Int64}
    (h : Assigns unknown_fields ids) :
    extractReplicaDeviceIds cis unknown_fields =
      if ids = [] then none
      else some (OrderedSet.empty.insert_all (ids.map Int64.toInt)).elems := by
  obtain ⟨build, assignment, hbuild, hbuild', hassignment, hassignment', hids⟩ := h
  have hunique : for_nested cis 3 (for_nested cis 9 (extractDeviceIdsFromDeviceAssignment cis))
      unknown_fields OrderedSet.empty = OrderedSet.empty.insert_all (ids.map Int64.toInt) := by
    rw [for_nested_own, hbuild, for_nested_cons hcis 3 _ hbuild', for_nested_own 9, hassignment,
      for_nested_cons hcis 9 _ hassignment', extract_device_assignment hcis hids]
    rfl
  unfold extractReplicaDeviceIds
  rw [hunique]
  cases ids with
  | nil => rfl
  | cons id ids =>
      have hne : (OrderedSet.empty.insert_all ((id :: ids).map Int64.toInt)).elems ≠ [] := by
        refine List.ne_nil_of_mem (a := id.toInt) ?_
        rw [OrderedSet.mem_insert_all]
        exact .inl List.mem_cons_self
      rw [if_neg (List.cons_ne_nil _ _)]
      exact if_neg hne

end Extraction

end CompileOptionsParser

end TTXla.PJRT
