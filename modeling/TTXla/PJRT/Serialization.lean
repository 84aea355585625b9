import TTXla.Lib.Bytes
import TTXla.Lib.Excepts
import TTXla.PJRT.CompileOptions
import Mathlib.Order.Interval.Finset.Nat

-- Serialized executables, and their parser.
namespace TTXla.PJRT

open Bytes Excepts

namespace Serialization

-- What an executable image gives to its serialization.
structure ExecutableImage where
  ttir_mlir : String
  ttnn_mlir : String
  backend : BackendRuntime
  flatbuffer_binary : List UInt8

structure SerializationHeader where
  magic : List UInt8
  ttir_offset : UInt64
  ttir_size : UInt64
  ttnn_offset : UInt64
  ttnn_size : UInt64
  fb_offset : UInt64
  fb_size : UInt64

def utf8 (s : String) : List UInt8 := s.toByteArray.data.toList

def TTSERv00 : List UInt8 := [84, 84, 83, 69, 82, 118, 48, 48]

namespace SerializationHeader

def create (ttir_code ttnn_code flatbuffer_data : List UInt8) : SerializationHeader :=
  let ttir_offset : UInt64 := 0
  let ttir_size := UInt64.ofNat ttir_code.length
  let ttnn_offset := ttir_offset + ttir_size
  let ttnn_size := UInt64.ofNat ttnn_code.length
  let fb_offset := ttnn_offset + ttnn_size
  let fb_size := UInt64.ofNat flatbuffer_data.length
  { magic := TTSERv00, ttir_offset, ttir_size, ttnn_offset, ttnn_size, fb_offset, fb_size }

variable (header : SerializationHeader)

def getHeaderSize : UInt64 := 56

def getPayloadSize : UInt64 :=
  getHeaderSize + header.ttir_size + header.ttnn_size + header.fb_size

-- The header in memory: every field is a multiple of 8 bytes long, so nothing lies between.
def bytes : List UInt8 :=
  header.magic ++ to_bytes 8 header.ttir_offset.toNat ++ to_bytes 8 header.ttir_size.toNat
    ++ to_bytes 8 header.ttnn_offset.toNat ++ to_bytes 8 header.ttnn_size.toNat
    ++ to_bytes 8 header.fb_offset.toNat ++ to_bytes 8 header.fb_size.toNat

end SerializationHeader

-- Copies to a place of the payload; there is no result when it is not large enough.
def writeRaw (payload : List UInt8) (dst : Nat) (src : List UInt8) :
    Option (List UInt8 × Nat) :=
  if dst + src.length ≤ payload.length then
    some (payload.take dst ++ src ++ payload.drop (dst + src.length), dst + src.length)
  else none

def ExecutableImage.flatbuffer_data (image : ExecutableImage) : List UInt8 :=
  if image.backend = .TTNNFlatbuffer then image.flatbuffer_binary else []

-- The payload of `SerializedExecutableInstance`.
def SerializedExecutableInstance (image : ExecutableImage) : Option (List UInt8) := do
  let ttir_code := utf8 image.ttir_mlir
  let ttnn_code := utf8 image.ttnn_mlir
  let header := SerializationHeader.create ttir_code ttnn_code image.flatbuffer_data
  let m_payload := List.replicate header.getPayloadSize.toNat 0
  let (m_payload, data_ptr) ← writeRaw m_payload 0 header.bytes
  let (m_payload, data_ptr) ← writeRaw m_payload data_ptr ttir_code
  let (m_payload, data_ptr) ← writeRaw m_payload data_ptr ttnn_code
  let (m_payload, data_ptr) ← writeRaw m_payload data_ptr image.flatbuffer_data
  if data_ptr = m_payload.length then some m_payload else none

inductive ParseError where
  | ValueError (message : String) (magic : List UInt8)
  | AssertionError (message : String)
  | UnicodeDecodeError
deriving DecidableEq

structure BytesIO where
  buffer : List UInt8
  pos : Nat

namespace BytesIO

variable (io : BytesIO)

def read (size : Nat) : List UInt8 × BytesIO :=
  let bytes := slice io.buffer io.pos size
  (bytes, { io with pos := io.pos + bytes.length })

def seek (pos : Nat) : BytesIO := { io with pos }

end BytesIO

def decode (bytes : List UInt8) : Except ParseError String :=
  match String.fromUTF8? ⟨bytes.toArray⟩ with
  | some s => .ok s
  | none => .error .UnicodeDecodeError

def MAGIC_SIZE : Nat := 8

def HEADER_SIZE : Nat := MAGIC_SIZE + 6 * 8

def parse_executable (executable_io : BytesIO) :
    Except ParseError (String × String × List UInt8) := do
  let (magic, executable_io) := executable_io.read MAGIC_SIZE
  ensure (magic = TTSERv00)
    (.ValueError "Invalid magic number in extracted payload" magic)
  let total_size := executable_io.buffer.length
  let (offset_ttir, executable_io) := executable_io.read 8
  let offset_ttir := from_bytes offset_ttir
  let (size_ttir, executable_io) := executable_io.read 8
  let size_ttir := from_bytes size_ttir
  let (offset_ttnn, executable_io) := executable_io.read 8
  let offset_ttnn := from_bytes offset_ttnn
  let (size_ttnn, executable_io) := executable_io.read 8
  let size_ttnn := from_bytes size_ttnn
  let (offset_flatbuffer, executable_io) := executable_io.read 8
  let offset_flatbuffer := from_bytes offset_flatbuffer
  let (size_flatbuffer, executable_io) := executable_io.read 8
  let size_flatbuffer := from_bytes size_flatbuffer
  ensure (offset_ttir ≤ offset_ttnn ∧ offset_ttnn ≤ offset_flatbuffer)
    (.AssertionError "Unexpected order of sections in body")
  ensure (offset_ttir + size_ttir ≤ offset_ttnn)
    (.AssertionError "TTIR and TTNN segments overlap")
  ensure (offset_ttnn + size_ttnn ≤ offset_flatbuffer)
    (.AssertionError "TTNN and flatbuffer segments overlap")
  ensure ((offset_flatbuffer + size_flatbuffer : Int) ≤ (total_size : Int) - HEADER_SIZE)
    (.AssertionError "Flatbuffer segment exceeds executable size")
  let executable_io := executable_io.seek (HEADER_SIZE + offset_ttir)
  let (ttir_mlir, executable_io) := executable_io.read size_ttir
  let ttir_mlir ← decode ttir_mlir
  let executable_io := executable_io.seek (HEADER_SIZE + offset_ttnn)
  let (ttnn_mlir, executable_io) := executable_io.read size_ttnn
  let ttnn_mlir ← decode ttnn_mlir
  let executable_io := executable_io.seek (HEADER_SIZE + offset_flatbuffer)
  let (flatbuffer_binary, _) := executable_io.read size_flatbuffer
  return (ttir_mlir, ttnn_mlir, flatbuffer_binary)

end Serialization

end TTXla.PJRT
