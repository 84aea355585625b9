import TTXla.PJRT.CompileOptionsParser.DeviceIds
import TTXla.PJRT.DeviceAssignment

-- When the devices of an executable follow the device assignment of its compile options.
namespace TTXla.PJRT

open Excepts
open Wire (UnknownField encode varint)
open CompileOptionsParser (Assigns extractCustomProtobufFields)

-- The devices of an executable are those of a list of ids, and every output list has the
-- buffers of its own device.
structure Placed (ids : List Int) (executable : LoadedExecutable) : Prop where
  devices : executable.m_addressable_devices.map DeviceInstance.global_device_id = ids
  count : executable.m_addressable_devices.length =
    executable.m_executable_image.num_devices_to_utilize
  outputs : ∀ num_devices,
    num_devices = executable.m_executable_image.num_devices_to_utilize →
    ∃ buffers, executable.output_buffers num_devices = .ok buffers ∧
      ∀ buffer ∈ buffers, buffer.device_index < num_devices ∧
        ids[buffer.device_index]? = some buffer.device.global_device_id

-- The ids are those of addressable devices, one for each device of the image.
def Fitting (devices : List DeviceInstance) (ids : List Int) (image : BuiltImage) : Prop :=
  (∀ id ∈ ids, ∃ device ∈ devices, device.global_device_id = id) ∧
    ids.length = image.num_devices_to_utilize

def Follows (devices : List DeviceInstance) (ids : List Int) (image : BuiltImage)
    (r : Except Failure LoadedExecutable) : Prop :=
  (Fitting devices ids image → ∃ executable, r = .ok executable ∧
    executable.m_executable_image = image ∧ Placed ids executable) ∧
  (¬Fitting devices ids image → ∃ status, r = .error (.status status))

-- The device with an id stands at a position of the client's devices.
def Stands (devices : List DeviceInstance) (position id : Int) : Prop :=
  0 ≤ position ∧ ∃ device, devices[position.toNat]? = some device ∧ device.global_device_id = id

-- The ids in increasing order, taken as positions, are where the devices of the ids stand; and
-- ids that do not fit are not all positions.
def InOrder (devices : List DeviceInstance) (ids : List Int) (image : BuiltImage) : Prop :=
  (Fitting devices ids image → ∃ sorted : List Int, sorted.Pairwise (· < ·) ∧
    (∀ id, id ∈ sorted ↔ id ∈ ids) ∧ List.Forall₂ (Stands devices) sorted ids) ∧
  (¬Fitting devices ids image → ∃ id ∈ ids, ¬(0 ≤ id ∧ id < devices.length))

theorem LoadedExecutable.output_buffer_eq_ok {executable : LoadedExecutable} {place : Nat × Nat}
    {buffer : OutputBuffer} : executable.output_buffer place = .ok buffer ↔
      ∃ device, executable.m_addressable_devices[place.2]? = some device ∧
        buffer = ⟨place.1, place.2, device⟩ := by
  unfold LoadedExecutable.output_buffer
  cases executable.m_addressable_devices[place.2]? with
  | none => simp [Excepts.get, Except.map]
  | some device => simp [Excepts.get, Except.map, eq_comm]

theorem lt_of_mem_output_places {num_outputs num_devices : Nat} {place : Nat × Nat}
    (h : place ∈ output_places num_outputs num_devices) : place.2 < num_devices := by
  obtain ⟨output_index, -, h⟩ := List.mem_flatMap.mp h
  obtain ⟨device_index, hdevice, rfl⟩ := List.mem_map.mp h
  exact List.mem_range.mp hdevice

theorem placed_of_devices {devices : List DeviceInstance} {ids : List Int} {image : BuiltImage}
    (hdevices : devices.map DeviceInstance.global_device_id = ids)
    (hcount : ids.length = image.num_devices_to_utilize) : Placed ids ⟨devices, image⟩ := by
  have hlength : devices.length = ids.length := by rw [← hdevices, List.length_map]
  refine ⟨hdevices, hlength.trans hcount, ?_⟩
  intro num_devices hnum
  dsimp only at hnum
  have hfill : ∀ place ∈ output_places image.num_outputs num_devices,
      ∃ buffer, LoadedExecutable.output_buffer ⟨devices, image⟩ place = .ok buffer := by
    intro place hplace
    have hlt : place.2 < devices.length := by
      have := lt_of_mem_output_places hplace
      omega
    exact ⟨_, LoadedExecutable.output_buffer_eq_ok.mpr
      ⟨devices[place.2], List.getElem?_eq_getElem hlt, rfl⟩⟩
  obtain ⟨buffers, hbuffers⟩ := mapM_ok_of_forall hfill
  refine ⟨buffers, ?_, fun buffer hbuffer => ?_⟩
  · unfold LoadedExecutable.output_buffers
    rw [if_neg (not_not.mpr hnum)]
    exact hbuffers
  · obtain ⟨place, hplace, hbuffer⟩ := exists_of_mapM hbuffers hbuffer
    obtain ⟨device, hdevice, rfl⟩ := LoadedExecutable.output_buffer_eq_ok.mp hbuffer
    refine ⟨lt_of_mem_output_places hplace, ?_⟩
    rw [← hdevices, List.getElem?_map, hdevice]
    rfl

theorem addressable_device_eq (devices : List DeviceInstance) (position : Int) :
    (∃ device, addressable_device devices position = .ok device ∧ 0 ≤ position ∧
      devices[position.toNat]? = some device) ∨
    (¬(0 ≤ position ∧ position < devices.length) ∧
      addressable_device devices position = .error (.status .kInvalidArgument)) := by
  by_cases h : 0 ≤ position ∧ position < devices.length
  · have hlt : position.toNat < devices.length := by omega
    have hget := List.getElem?_eq_getElem hlt
    refine .inl ⟨devices[position.toNat], ?_, h.1, hget⟩
    rw [addressable_device, if_pos h, hget]
    rfl
  · exact .inr ⟨h, if_neg h⟩

section Main

variable {cis : CodedInputStream} {devices : List DeviceInstance}
  {buildModule : Dict String String → Except tt_pjrt_status BuiltImage}
  {options : List UnknownField} {ids : List Int64} {custom : Dict String String}
  {image : BuiltImage}

theorem onClientCompile_eq (hcis : cis.Conforms) (hoptions : IsMessage options)
    (hids : Assigns options ids) (hcustom : extractCustomProtobufFields cis options = .ok custom)
    (hbuild : buildModule custom = .ok image) :
    onClientCompile cis devices buildModule c_mlir_format_name (encode options) =
      (addressable_devices devices image (if ids = [] then none
        else some (OrderedSet.empty.insert_all (ids.map Int64.toInt)).elems)).map
          fun m_addressable_devices => ⟨m_addressable_devices, image⟩ := by
  have hparse : CompileOptionsParser.parseCompileOptions cis (encode options) =
      .ok (custom, CompileOptionsParser.extractReplicaDeviceIds cis options) := by
    unfold CompileOptionsParser.parseCompileOptions
    rw [hcis.merge options hoptions]
    dsimp only
    rw [hcustom]
    rfl
  unfold onClientCompile
  rw [hparse, ensure_of rfl, CompileOptionsParser.extract_replica_device_ids hcis hids]
  unfold compileMlirProgram
  dsimp only [bind, Except.bind]
  rw [hbuild]
  rfl

-- The positions at which the devices of an ordered list of ids are looked up.
theorem stands_of_mapM {sorted : List Int} {found : List DeviceInstance}
    (h : sorted.mapM (addressable_device devices) = .ok found) :
    List.Forall₂ (Stands devices) sorted (found.map DeviceInstance.global_device_id) := by
  rw [List.forall₂_map_right_iff]
  refine (mapM_eq_ok.mp h).imp fun position device hdevice => ?_
  obtain ⟨device', hok, hpos, hget⟩ | ⟨-, herror⟩ := addressable_device_eq devices
    position
  · rw [hok] at hdevice
    cases hdevice
    exact ⟨hpos, device, hget, rfl⟩
  · rw [herror] at hdevice
    cases hdevice

theorem mapM_of_stands {sorted : List Int} {ids : List Int}
    (h : List.Forall₂ (Stands devices) sorted ids) :
    ∃ found, sorted.mapM (addressable_device devices) = .ok found ∧
      found.map DeviceInstance.global_device_id = ids := by
  induction h with
  | nil => exact ⟨[], rfl, rfl⟩
  | @cons position id sorted ids hstands _ ih =>
      obtain ⟨hpos, device, hget, rfl⟩ := hstands
      obtain ⟨found, hfound, rfl⟩ := ih
      obtain ⟨device', hok, -, hget'⟩ | ⟨hrange, -⟩ := addressable_device_eq devices
        position
      · obtain rfl := Option.some.inj (hget'.symm.trans hget)
        refine ⟨device' :: found, ?_, rfl⟩
        rw [List.mapM_cons, hok, hfound]
        rfl
      · have hlt := (List.getElem?_eq_some_iff.mp hget).1
        exact absurd ⟨hpos, by omega⟩ hrange

-- The ids are refused exactly when one of them is no position.
theorem mapM_error_iff {sorted : List Int} :
    (∃ status, sorted.mapM (addressable_device devices) = .error (.status status)) ↔
      ∃ id ∈ sorted, ¬(0 ≤ id ∧ id < devices.length) := by
  constructor
  · intro ⟨status, h⟩
    by_contra hnone
    push Not at hnone
    obtain ⟨found, hfound⟩ := mapM_ok_of_forall (f := addressable_device devices) (l := sorted)
      fun id hid => by
        obtain ⟨device, hok, -⟩ | ⟨hrange, -⟩ := addressable_device_eq devices id
        · exact ⟨device, hok⟩
        · exact absurd ⟨(hnone id hid).1, (hnone id hid).2⟩ hrange
    rw [hfound] at h
    cases h
  · intro ⟨id, hid, hrange⟩
    refine ⟨.kInvalidArgument, mapM_eq_error (fun id _ => ?_) ⟨id, hid, if_neg hrange⟩⟩
    obtain ⟨device, hok, -⟩ | ⟨-, herror⟩ := addressable_device_eq devices id
    · exact .inr ⟨device, hok⟩
    · exact .inl herror

theorem follows_none_iff {image : BuiltImage} :
    Follows devices [] image ((addressable_devices devices image none).map fun found =>
      ⟨found, image⟩) ↔ InOrder devices [] image := by
  have hfitting : Fitting devices [] image ↔ image.num_devices_to_utilize = 0 :=
    ⟨fun h => h.2.symm, fun h => ⟨fun id hid => (nomatch hid), h.symm⟩⟩
  unfold Follows InOrder
  rw [hfitting]
  by_cases hzero : image.num_devices_to_utilize = 0
  · refine iff_of_true ⟨fun _ => ?_, fun h => absurd hzero h⟩
      ⟨fun _ => ⟨[], .nil, fun _ => .rfl, .nil⟩, fun h => absurd hzero h⟩
    refine ⟨⟨[], image⟩, ?_, rfl, placed_of_devices rfl hzero.symm⟩
    unfold addressable_devices
    rw [hzero, if_pos (Nat.zero_le _)]
    rfl
  · refine iff_of_false (fun h => ?_) fun h => ?_
    · obtain ⟨status, h⟩ := h.2 hzero
      rw [map_eq_error] at h
      unfold addressable_devices at h
      dsimp only at h
      split at h
      · cases h
      · cases h
    · obtain ⟨id, hid, -⟩ := h.2 hzero
      cases hid

theorem follows_some_iff {ids sorted : List Int} {image : BuiltImage}
    (hsorted : sorted.Pairwise (· < ·)) (hmem : ∀ id, id ∈ sorted ↔ id ∈ ids) :
    Follows devices ids image ((addressable_devices devices image (some sorted)).map fun found =>
      ⟨found, image⟩) ↔ InOrder devices ids image := by
  refine and_congr (imp_congr_right fun hfitting => ?_) (imp_congr_right fun _ => ?_)
  · constructor
    · intro ⟨executable, hok, _, hplaced⟩
      obtain ⟨found, hfound, rfl⟩ := map_eq_ok.mp hok
      have hstands := stands_of_mapM hfound
      rw [hplaced.devices] at hstands
      exact ⟨sorted, hsorted, hmem, hstands⟩
    · intro ⟨sorted', hsorted', hmem', hstands⟩
      obtain rfl : sorted = sorted' :=
        hsorted.eq_of_mem_iff hsorted' fun id => (hmem id).trans (hmem' id).symm
      obtain ⟨found, hfound, hids⟩ := mapM_of_stands hstands
      refine ⟨⟨found, image⟩, ?_, rfl, placed_of_devices hids hfitting.2⟩
      exact map_eq_ok.mpr ⟨found, hfound, rfl⟩
  · simp only [map_eq_error, addressable_devices, mapM_error_iff, hmem]

-- The devices of the executable follow the assignment exactly when its ids are in order.
theorem devices_follow_assignment (hcis : cis.Conforms) (hoptions : IsMessage options)
    (hids : Assigns options ids) (hcustom : extractCustomProtobufFields cis options = .ok custom)
    (hbuild : buildModule custom = .ok image) :
    Follows devices (ids.map Int64.toInt) image
      (onClientCompile cis devices buildModule c_mlir_format_name (encode options)) ↔
    InOrder devices (ids.map Int64.toInt) image := by
  rw [onClientCompile_eq hcis hoptions hids hcustom hbuild]
  cases ids with
  | nil => exact follows_none_iff
  | cons id ids =>
      rw [if_neg (List.cons_ne_nil _ _)]
      refine follows_some_iff (OrderedSet.sorted _) fun id' => ?_
      rw [OrderedSet.mem_insert_all]
      exact or_iff_left (List.not_mem_nil)

end Main

-- On a client that numbers its devices by their positions, the ids have to be increasing.
theorem in_order_of_numbered {devices : List DeviceInstance} {ids : List Int} {image : BuiltImage}
    (hnumbered : ∀ (position : Nat) device, devices[position]? = some device →
      device.global_device_id = position) (hfitting : Fitting devices ids image) :
    InOrder devices ids image ↔ ids.Pairwise (· < ·) := by
  have hstands : ∀ position id, Stands devices position id → position = id := by
    intro position id ⟨hpos, device, hget, hid⟩
    rw [← hid, hnumbered _ _ hget]
    exact (Int.toNat_of_nonneg hpos).symm
  have hall : ∀ id ∈ ids, Stands devices id id := by
    intro id hid
    obtain ⟨device, hdevice, rfl⟩ := hfitting.1 id hid
    obtain ⟨position, hget⟩ := List.mem_iff_getElem?.mp hdevice
    have hposition := hnumbered position device hget
    rw [hposition]
    exact ⟨Int.natCast_nonneg _, device, hget, hposition⟩
  constructor
  · intro h
    obtain ⟨sorted, hsorted, -, hsame⟩ := h.1 hfitting
    have heq : sorted = ids := by
      rw [← List.forall₂_eq_eq_eq]
      exact hsame.imp hstands
    rw [← heq]
    exact hsorted
  · intro h
    refine ⟨fun _ => ⟨ids, h, fun _ => .rfl, List.forall₂_same.mpr hall⟩, fun hnot => ?_⟩
    exact absurd hfitting hnot

section Example

def assignment (ids : List Int64) : List UnknownField :=
  .varint 1 1 :: .varint 2 (UInt64.ofNat ids.length) :: ids.map fun id =>
    .length_delimited 3 (encode [.length_delimited 1 (varint id.toUInt64.toNat)])

def options_with (ids : List Int64) : List UnknownField :=
  [.length_delimited 3 (encode [.varint 4 1, .length_delimited 9 (encode (assignment ids))])]

def two_devices : List DeviceInstance := [⟨0⟩, ⟨1⟩]

def build_two (_options : Dict String String) : Except tt_pjrt_status BuiltImage := .ok ⟨2, 1⟩

def compile_two (ids : List Int64) : Except Failure LoadedExecutable :=
  onClientCompile .wire two_devices build_two c_mlir_format_name (encode (options_with ids))

theorem two_fitting {ids : List Int} (hids : ∀ id ∈ ids, id = 0 ∨ id = 1)
    (hlength : ids.length = 2) : Fitting two_devices ids ⟨2, 1⟩ := by
  refine ⟨fun id hid => ?_, hlength⟩
  obtain rfl | rfl := hids id hid
  · exact ⟨⟨0⟩, List.mem_cons_self, rfl⟩
  · exact ⟨⟨1⟩, List.mem_cons_of_mem _ List.mem_cons_self, rfl⟩

theorem isMessage_id (id : Int64) (hid : id = 0 ∨ id = 1) :
    IsMessage [.length_delimited 1 (varint id.toUInt64.toNat)] := by
  obtain rfl | rfl := hid
  · exact .of_flat (by decide) (by decide)
  · exact .of_flat (by decide) (by decide)

-- The compile options that assign two devices in some order.
theorem options_assign {ids : List Int64} (hids : ids = [0, 1] ∨ ids = [1, 0]) :
    IsMessage (options_with ids) ∧ Assigns (options_with ids) ids := by
  obtain rfl | rfl := hids
  · refine ⟨.of_flat (by decide) (by decide), _, assignment [0, 1], rfl,
      .of_flat (by decide) (by decide), rfl, .of_flat (by decide) (by decide), ?_⟩
    exact .cons ⟨_, rfl, isMessage_id 0 (.inl rfl), .packed⟩
      (.cons ⟨_, rfl, isMessage_id 1 (.inr rfl), .packed⟩ .nil)
  · refine ⟨.of_flat (by decide) (by decide), _, assignment [1, 0], rfl,
      .of_flat (by decide) (by decide), rfl, .of_flat (by decide) (by decide), ?_⟩
    exact .cons ⟨_, rfl, isMessage_id 1 (.inr rfl), .packed⟩
      (.cons ⟨_, rfl, isMessage_id 0 (.inl rfl), .packed⟩ .nil)

-- The devices of the assignment [1, 0] come in the order of their ids.
theorem reversed_assignment_sorted :
    IsMessage (options_with [1, 0]) ∧ Assigns (options_with [1, 0]) [1, 0] ∧
    compile_two [1, 0] = .ok ⟨[⟨0⟩, ⟨1⟩], ⟨2, 1⟩⟩ ∧
    ¬Follows two_devices [1, 0] ⟨2, 1⟩ (compile_two [1, 0]) := by
  have hcompile : compile_two [1, 0] = .ok ⟨[⟨0⟩, ⟨1⟩], ⟨2, 1⟩⟩ := by decide
  obtain ⟨hmessage, hassigns⟩ := options_assign (.inr rfl)
  refine ⟨hmessage, hassigns, hcompile, fun h => ?_⟩
  rw [hcompile] at h
  obtain ⟨executable, hok, -, hplaced⟩ := h.1 (two_fitting (by decide) rfl)
  cases hok
  exact absurd hplaced.devices (by decide)

theorem two_devices_numbered (position : Nat) (device : DeviceInstance)
    (h : two_devices[position]? = some device) : device.global_device_id = position := by
  obtain _ | _ | position := position
  · cases h
    rfl
  · cases h
    rfl
  · cases h

theorem increasing_assignment : Follows two_devices [0, 1] ⟨2, 1⟩ (compile_two [0, 1]) := by
  obtain ⟨hmessage, hassigns⟩ := options_assign (.inl rfl)
  have horder : InOrder two_devices [0, 1] ⟨2, 1⟩ :=
    (in_order_of_numbered two_devices_numbered (two_fitting (by decide) rfl)).mpr (by decide)
  exact (devices_follow_assignment CodedInputStream.wire_conforms hmessage hassigns rfl rfl).mpr
    horder

end Example

end TTXla.PJRT
