import TTXla.Lib.Address
import TTXla.PJRT.Tensor

-- The data types of buffers, and the shapes, strides and sizes of their tensors on the host.
namespace TTXla.PJRT

open Excepts

inductive PJRT_Buffer_Type where
  | INVALID
  | PRED
  | S8
  | S16
  | S32
  | S64
  | U8
  | U16
  | U32
  | U64
  | F16
  | F32
  | F64
  | BF16
  | C64
  | C128
  | F8E5M2
  | F8E4M3FN
  | F8E4M3B11FNUZ
  | F8E5M2FNUZ
  | F8E4M3FNUZ
  | S4
  | U4
  | other (value : Nat)
deriving DecidableEq

-- `tt::target::DataType`, as far as buffers use it.
inductive DataType where
  | Float64
  | Float32
  | Float16
  | BFloat16
  | Int64
  | Int32
  | Int16
  | Int8
  | UInt64
  | UInt32
  | UInt16
  | UInt8
  | Bool
deriving DecidableEq

namespace data_type_utils

def getPJRTBufferTypeString : PJRT_Buffer_Type → String
  | .INVALID => "PJRT_Buffer_Type_INVALID"
  | .PRED => "PJRT_Buffer_Type_PRED"
  | .S8 => "PJRT_Buffer_Type_S8"
  | .S16 => "PJRT_Buffer_Type_S16"
  | .S32 => "PJRT_Buffer_Type_S32"
  | .S64 => "PJRT_Buffer_Type_S64"
  | .U8 => "PJRT_Buffer_Type_U8"
  | .U16 => "PJRT_Buffer_Type_U16"
  | .U32 => "PJRT_Buffer_Type_U32"
  | .U64 => "PJRT_Buffer_Type_U64"
  | .F16 => "PJRT_Buffer_Type_F16"
  | .F32 => "PJRT_Buffer_Type_F32"
  | .F64 => "PJRT_Buffer_Type_F64"
  | .BF16 => "PJRT_Buffer_Type_BF16"
  | .C64 => "PJRT_Buffer_Type_C64"
  | .C128 => "PJRT_Buffer_Type_C128"
  | .F8E5M2 => "PJRT_Buffer_Type_F8E5M2"
  | .F8E4M3FN => "PJRT_Buffer_Type_F8E4M3FN"
  | .F8E4M3B11FNUZ => "PJRT_Buffer_Type_F8E4M3B11FNUZ"
  | .F8E5M2FNUZ => "PJRT_Buffer_Type_F8E5M2FNUZ"
  | .F8E4M3FNUZ => "PJRT_Buffer_Type_F8E4M3FNUZ"
  | .S4 => "PJRT_Buffer_Type_S4"
  | .U4 => "PJRT_Buffer_Type_U4"
  | .other _ => "UNKNOWN_TYPE"

def convertPJRTToRuntimeDataType : PJRT_Buffer_Type → Except Fault DataType
  | .U8 => .ok .UInt8
  | .U16 => .ok .UInt16
  | .U32 => .ok .UInt32
  | .S32 => .ok .Int32
  | .F16 => .ok .Float16
  | .F32 => .ok .Float32
  | .BF16 => .ok .BFloat16
  | .F64 => .ok .Float64
  | .S64 => .ok .Int64
  | .S16 => .ok .Int16
  | .S8 => .ok .Int8
  | .U64 => .ok .UInt64
  | .PRED => .ok .Bool
  | .C64 => .ok .Float32
  | .C128 => .ok .Float64
  | pjrt_data_type => .error (.fatal ("PJRT data type: " ++
      getPJRTBufferTypeString pjrt_data_type ++ " does not have runtime data type equivalent"))

def isComplexPJRTType (type : PJRT_Buffer_Type) : Bool := type = .C64 ∨ type = .C128

end data_type_utils

open data_type_utils

-- `tt::runtime::utils::dataTypeElementSize`, the width in bytes.
def DataType.dataTypeElementSize : DataType → Nat
  | .Float64 | .Int64 | .UInt64 => 8
  | .Float32 | .Int32 | .UInt32 => 4
  | .Float16 | .BFloat16 | .Int16 | .UInt16 => 2
  | .Int8 | .UInt8 | .Bool => 1

namespace BufferInstance

-- The dimensions are not negative.
variable (m_data_type : PJRT_Buffer_Type) (dims : List Nat)

def logicalTensorSize : Except Fault Nat := do
  let runtime_data_type ← convertPJRTToRuntimeDataType m_data_type
  return dims.foldl (fun acc dim => acc * dim % 2 ^ 64) runtime_data_type.dataTypeElementSize

-- The dimensions are narrowed to `std::uint32_t`.
def calculateShape : Except Fault (List Nat) :=
  if isComplexPJRTType m_data_type ∧ dims.length = 0 then
    .error (.fatal "Complex tensor with num_dims == 0 is not supported.")
  else
    let shape := dims.map fun dim => dim % 2 ^ 32
    return if isComplexPJRTType m_data_type then shape ++ [2] else shape

def calculateStrides (num_dims : Nat) (byte_strides : List Int) (element_size : Nat) :
    Except Fault (List Nat) := do
  ensure (byte_strides.length = 0 ∨ byte_strides.length = num_dims)
    (.fatal ("num_byte_strides must be 0 or equal to num_dims: num_byte_strides=" ++
      toString byte_strides.length ++ ", num_dims=" ++ toString num_dims))
  return (List.range num_dims).map fun i =>
    if byte_strides.length = 0 then 1
    else (byte_strides.getD i 0).tdiv element_size % 2 ^ 32 |>.toNat

-- What `copyFromHost` and `copyFromBuffer` pass to the runtime with the element size.
def host_layout (byte_strides : List Int) : Except Fault (List Nat × List Nat) := do
  let runtime_data_type ← convertPJRTToRuntimeDataType m_data_type
  let element_size := runtime_data_type.dataTypeElementSize
  let shape ← calculateShape m_data_type dims
  let strides ← calculateStrides dims.length byte_strides element_size
  return (shape, strides)

-- The shape of an output of a program: that of the binary, which is checked against the
-- dimensions of the module.
def output_shape : List Nat := if isComplexPJRTType m_data_type then dims ++ [2] else dims

-- The bytes that the thread of `copyToHost` writes to the host buffer, from a tensor of a shape.
def bytes_copied (tensor_shape : List Nat) (host_buffer_size : Nat) : Except Fault Nat := do
  let rt_data_type ← convertPJRTToRuntimeDataType m_data_type
  let logical_tensor_size ← logicalTensorSize m_data_type dims
  ensure (logical_tensor_size ≤ host_buffer_size)
    (.fatal ("Host buffer is too small: logical_tensor_size=" ++ toString logical_tensor_size ++
      ", host_buffer_size=" ++ toString host_buffer_size))
  return tensor_shape.prod * rt_data_type.dataTypeElementSize

end BufferInstance

end TTXla.PJRT
