import TTXla.Lib.Dict
import TTXla.Lib.OrderedSet
import TTXla.Lib.Wire
import TTXla.PJRT.Status

-- Serialized compile options: the custom options and the device assignment.
namespace TTXla.PJRT

open Wire (UnknownField)

-- The functions of protocol buffers that the parser calls.
structure CodedInputStream where
  merge_from_coded_stream : List UInt8 → Option (List UnknownField)
  read_varint64 : List UInt8 → Option (UInt64 × List UInt8)

inductive Failure where
  | status (status : tt_pjrt_status)
  -- undefined behaviour: a member of a union that is not the active one, an element that is
  -- not there
  | undefined
deriving DecidableEq

-- A `std::string`, with a character for each byte.
def std_string (bytes : List UInt8) : String := String.ofList (bytes.map Char.ofUInt8)

namespace CompileOptionsParser

variable (cis : CodedInputStream)

def parseNestedProtobufField : UnknownField → Option (List UnknownField)
  | .length_delimited _ data => cis.merge_from_coded_stream data
  | _ => none

-- `while (packed_stream.ReadVarint64(&value))`; every number takes a byte at least.
def read_packed : Nat → List UInt8 → List Int
  | 0, _ => []
  | fuel + 1, packed_data =>
      match cis.read_varint64 packed_data with
      | none => []
      | some (value, rest) => value.toInt64.toInt :: read_packed fuel rest

def extractDeviceIdsFromComputationDevice (comp_device_fields : List UnknownField)
    (out_device_ids : OrderedSet Int) : OrderedSet Int :=
  comp_device_fields.foldl (fun out_device_ids field =>
    match field with
    | .varint 1 value => out_device_ids.insert value.toInt64.toInt
    | .length_delimited 1 packed_data =>
        out_device_ids.insert_all (read_packed cis packed_data.length packed_data)
    | _ => out_device_ids) out_device_ids

-- The messages in the fields with a number, each of which adds to the ids; the others are
-- skipped.
def for_nested (number : Nat) (extract : List UnknownField → OrderedSet Int → OrderedSet Int)
    (fields : List UnknownField) (out_device_ids : OrderedSet Int) : OrderedSet Int :=
  fields.foldl (fun out_device_ids field =>
    if field.number ≠ number then out_device_ids
    else
      match parseNestedProtobufField cis field with
      | none => out_device_ids
      | some nested_fields => extract nested_fields out_device_ids) out_device_ids

def extractDeviceIdsFromDeviceAssignment :
    List UnknownField → OrderedSet Int → OrderedSet Int :=
  for_nested cis 3 (extractDeviceIdsFromComputationDevice cis)

def extractReplicaDeviceIds (unknown_fields : List UnknownField) : Option (List Int) :=
  let unique_device_ids := for_nested cis 3
    (for_nested cis 9 (extractDeviceIdsFromDeviceAssignment cis)) unknown_fields OrderedSet.empty
  if unique_device_ids.elems = [] then none else some unique_device_ids.elems

-- The text of the value of an option; the accessors of a field may only be called on their own
-- type.
def override_value (value_field : UnknownField) : Except Failure String :=
  match value_field.number with
  | 1 =>
      match value_field with
      | .length_delimited _ data => .ok (std_string data)
      | _ => .error .undefined
  | 2 =>
      match value_field with
      | .varint _ value => .ok (if value ≠ 0 then "true" else "false")
      | _ => .error .undefined
  | 3 =>
      match value_field with
      | .varint _ value => .ok (toString value.toNat)
      | _ => .error .undefined
  | 4 =>
      match value_field with
      | .fixed64 _ value => .ok (toString value.toNat)
      | _ => .error .undefined
  | _ => .error (.status .kInternal)

def parse_override (override_bytes : List UInt8) : Except Failure String :=
  match cis.merge_from_coded_stream override_bytes with
  | none => .error (.status .kInternal)
  | some [value_field] => override_value value_field
  | some _ => .error (.status .kInternal)

-- A field of a map entry; `s` is the key and the value.
def entry_step (s : List UInt8 × String) : UnknownField → Except Failure (List UInt8 × String)
  | .length_delimited 1 key => .ok (key, s.2)
  | .length_delimited 2 override_bytes => do
      let value ← parse_override cis override_bytes
      return (s.1, value)
  | _ => .ok s

def option_step (out_compile_options : Dict String String) :
    UnknownField → Except Failure (Dict String String)
  | .length_delimited 7 bytes =>
      match cis.merge_from_coded_stream bytes with
      | none => .error (.status .kInternal)
      | some map_entry_fields => do
          let (key, value) ← map_entry_fields.foldlM (entry_step cis) ([], "")
          return if key ≠ [] then out_compile_options.insert (std_string key) value
            else out_compile_options
  | _ => .ok out_compile_options

def extractCustomProtobufFields (unknown_fields : List UnknownField) :
    Except Failure (Dict String String) :=
  unknown_fields.foldlM (option_step cis) ∅

def parseCompileOptions (compile_options : List UInt8) :
    Except Failure (Dict String String × Option (List Int)) :=
  match cis.merge_from_coded_stream compile_options with
  | none => .error (.status .kInternal)
  | some unknown_fields => do
      let out_compile_options ← extractCustomProtobufFields cis unknown_fields
      return (out_compile_options, extractReplicaDeviceIds cis unknown_fields)

end CompileOptionsParser

end TTXla.PJRT
