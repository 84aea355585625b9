import TTXla.Lib.Excepts
import TTXla.PJRT.CompileOptionsParser

-- The devices of a loaded executable, and the device assignment of its compile options.
namespace TTXla.PJRT

open Excepts
open Wire (UnknownField encode varint)

structure DeviceInstance where
  global_device_id : Int
deriving DecidableEq

-- What is read of the image that a compilation builds.
structure BuiltImage where
  num_devices_to_utilize : Nat
  num_outputs : Nat
deriving DecidableEq

structure LoadedExecutable where
  m_addressable_devices : List DeviceInstance
  m_executable_image : BuiltImage
deriving DecidableEq

-- The buffer that is put in `output_lists[device_index][output_index]`.
structure OutputBuffer where
  output_index : Nat
  device_index : Nat
  device : DeviceInstance

section Compile

variable (cis : CodedInputStream) (m_addressable_devices_raw : List DeviceInstance)
  (buildModule : Dict String String → Except tt_pjrt_status BuiltImage)

def addressable_device (device_id : Int) : Except Failure DeviceInstance :=
  if 0 ≤ device_id ∧ device_id < m_addressable_devices_raw.length then
    get m_addressable_devices_raw[device_id.toNat]? .undefined
  else .error (.status .kInvalidArgument)

def addressable_devices (executable_image : BuiltImage) :
    Option (List Int) → Except Failure (List DeviceInstance)
  | some replica_device_ids =>
      replica_device_ids.mapM (addressable_device m_addressable_devices_raw)
  | none =>
      if executable_image.num_devices_to_utilize ≤ m_addressable_devices_raw.length then
        .ok (m_addressable_devices_raw.take executable_image.num_devices_to_utilize)
      else .error .undefined

def compileMlirProgram (compile_options : Dict String String)
    (replica_device_ids : Option (List Int)) : Except Failure LoadedExecutable := do
  let executable_image ← (buildModule compile_options).mapError .status
  let m_addressable_devices ←
    addressable_devices m_addressable_devices_raw executable_image replica_device_ids
  return ⟨m_addressable_devices, executable_image⟩

def c_mlir_format_name : String := "mlir"

def onClientCompile (program_format : String) (compile_options : List UInt8) :
    Except Failure LoadedExecutable := do
  let parsed ← CompileOptionsParser.parseCompileOptions cis compile_options
  ensure (program_format = c_mlir_format_name) (.status .kUnimplemented)
  compileMlirProgram m_addressable_devices_raw buildModule parsed.1 parsed.2

end Compile

-- The places of the output lists in the order in which they are filled: the index of the output
-- and that of the device.
def output_places (num_outputs num_devices : Nat) : List (Nat × Nat) :=
  (List.range num_outputs).flatMap fun output_index =>
    (List.range num_devices).map fun device_index => (output_index, device_index)

namespace LoadedExecutable

variable (executable : LoadedExecutable)

def output_buffer (place : Nat × Nat) : Except Failure OutputBuffer :=
  (get executable.m_addressable_devices[place.2]? .undefined).map fun device =>
    ⟨place.1, place.2, device⟩

-- The buffers that `fillPJRTOutputLists` creates, and the check before it.
def output_buffers (num_devices : Nat) : Except Failure (List OutputBuffer) :=
  if num_devices ≠ executable.m_executable_image.num_devices_to_utilize then
    .error (.status .kInternal)
  else
    (output_places executable.m_executable_image.num_outputs num_devices).mapM
      executable.output_buffer

end LoadedExecutable

end TTXla.PJRT
