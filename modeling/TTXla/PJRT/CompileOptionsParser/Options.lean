import Mathlib
import TTXla.Lib.Decimal
import TTXla.Lib.Excepts
import TTXla.PJRT.CompileOptions
import TTXla.PJRT.CompileOptionsParser.DeviceIds

-- The map of options that serialized compile options carry, and what the parser makes of it.
namespace TTXla.PJRT

open Wire (UnknownField Spells encode)
open CompileOptions (parseBoolOption parseIntOption stoi digitsToNat isspace)

-- The value of an option; of a double, its bits.
inductive OptionValue where
  | string (bytes : List UInt8)
  | bool (value : Bool)
  | int (value : Int64)
  | double (bits : UInt64)

namespace OptionValue

-- The field of `OptionOverrideProto` that holds the value.
def field : OptionValue → UnknownField
  | .string bytes => .length_delimited 1 bytes
  | .bool value => .varint 2 (if value then 1 else 0)
  | .int value => .varint 3 value.toUInt64
  | .double bits => .fixed64 4 bits

def text (double_text : UInt64 → String) : OptionValue → String
  | .string bytes => std_string bytes
  | .bool value => if value then "true" else "false"
  | .int value => toString value.toInt
  | .double bits => double_text bits

-- The values whose text the parser gives.
def Plain : OptionValue → Prop
  | .int value => 0 ≤ value.toInt
  | .double _ => False
  | _ => True

-- A later parse yields the value; the options of the compiler are numbers of 32 bits.
def ReadsBack (compile_options : Dict String String) (name : String) : OptionValue → Prop
  | .bool value => parseBoolOption compile_options name = .ok (some value)
  | .int value =>
      (compile_options.lookup name).bind String.toInt? = some value.toInt ∧
        (-2 ^ 31 ≤ value.toInt → value.toInt < 2 ^ 31 →
          parseIntOption compile_options name = .ok (some value.toInt))
  | _ => True

-- What the parser makes of the field.
def decoded : OptionValue → String
  | .string bytes => std_string bytes
  | .bool value => if value then "true" else "false"
  | .int value => toString value.toUInt64.toNat
  | .double bits => toString bits.toNat

theorem override_value_field (value : OptionValue) :
    CompileOptionsParser.override_value value.field = .ok value.decoded := by
  cases value with
  | bool value => cases value <;> rfl
  | string bytes => rfl
  | int value => rfl
  | double bits => rfl

end OptionValue

-- The fields of the oneof of `OptionOverrideProto`.
def is_override : UnknownField → Bool
  | .length_delimited number _ => number = 1
  | .varint number _ => number = 2 ∨ number = 3
  | .fixed64 number _ => number = 4
  | _ => false

def delimited (number : Nat) : UnknownField → Option (List UInt8)
  | .length_delimited n data => if n = number then some data else none
  | _ => none

-- An entry of the map, in the fields of its message and in those of the message of its value.
structure SerializedOption where
  key : List UInt8
  value : OptionValue
  map_entry_fields : List UnknownField
  value_fields : List UnknownField

namespace SerializedOption

-- Any other field may stand before, between or after those that belong to the entry.
structure WellFormed (option : SerializedOption) : Prop where
  map_entry : IsMessage option.map_entry_fields
  value_message : IsMessage option.value_fields
  key : option.map_entry_fields.filterMap (delimited 1) = [option.key]
  value : option.map_entry_fields.filterMap (delimited 2) = [encode option.value_fields]
  own : option.value_fields.filter is_override = [option.value.field]

def name (option : SerializedOption) : String := std_string option.key

structure Decodable (option : SerializedOption) : Prop where
  key : option.key ≠ []
  alone : option.value_fields = [option.value.field]
  plain : option.value.Plain

end SerializedOption

-- The message carries the map in its fields number 7, among any other fields.
structure Serializes (unknown_fields : List UnknownField) (options : List SerializedOption) :
    Prop where
  message : IsMessage unknown_fields
  entries : unknown_fields.filterMap (delimited 7) =
    options.map fun option => encode option.map_entry_fields
  wellFormed : ∀ option ∈ options, option.WellFormed
  keys : (options.map SerializedOption.key).Nodup

-- The parser gives the map, each value as its text.
def Decodes (cis : CodedInputStream) (double_text : UInt64 → String) (bytes : List UInt8)
    (options : List SerializedOption) : Prop :=
  ∃ compile_options device_ids,
    CompileOptionsParser.parseCompileOptions cis bytes = .ok (compile_options, device_ids) ∧
    (∀ name text, compile_options.lookup name = some text ↔
      ∃ option ∈ options, option.name = name ∧ option.value.text double_text = text) ∧
    ∀ option ∈ options, option.value.ReadsBack compile_options option.name

-- A message, the entry of an option or the value of one is not a message.
inductive Malformed (cis : CodedInputStream) : List UInt8 → Prop
  | message {bytes : List UInt8} (h : ¬∃ fields, Spells bytes fields) : Malformed cis bytes
  | map_entry {bytes data : List UInt8} {unknown_fields : List UnknownField}
      (hmerge : cis.merge_from_coded_stream bytes = some unknown_fields)
      (hdata : data ∈ unknown_fields.filterMap (delimited 7))
      (h : ¬∃ fields, Spells data fields) : Malformed cis bytes
  | value {bytes data override_bytes : List UInt8}
      {unknown_fields map_entry_fields : List UnknownField}
      (hmerge : cis.merge_from_coded_stream bytes = some unknown_fields)
      (hdata : data ∈ unknown_fields.filterMap (delimited 7))
      (hentry : cis.merge_from_coded_stream data = some map_entry_fields)
      (hvalue : override_bytes ∈ map_entry_fields.filterMap (delimited 2))
      (h : ¬∃ fields, Spells override_bytes fields) : Malformed cis bytes

section Texts

theorem ofUInt8_injective : Function.Injective Char.ofUInt8 := by
  intro a b h
  have hval : a.toUInt32 = b.toUInt32 := congrArg Char.val h
  have hnat := congrArg UInt32.toNat hval
  rw [UInt8.toNat_toUInt32, UInt8.toNat_toUInt32] at hnat
  exact UInt8.toNat_inj.mp hnat

theorem std_string_injective : Function.Injective std_string := fun _ _ h =>
  ofUInt8_injective.list_map (String.ofList_injective h)

theorem toUInt64_toNat_eq_iff (value : Int64) :
    (value.toUInt64.toNat : Int) = value.toInt ↔ 0 ≤ value.toInt := by
  have hcond : value.toInt = if 2 * value.toUInt64.toNat < 2 ^ 64 then
      (value.toUInt64.toNat : Int) else value.toUInt64.toNat - (2 ^ 64 : Nat) :=
    BitVec.toInt_eq_toNat_cond value.toBitVec
  have hlt := value.toUInt64.toNat_lt
  split at hcond <;> omega

-- No text of a double is a run of digits.
theorem decoded_eq_text_iff {double_text : UInt64 → String}
    (hdouble : ∀ bits, ∃ c ∈ (double_text bits).toList, c.isDigit = false) (value : OptionValue) :
    value.decoded = value.text double_text ↔ value.Plain := by
  cases value with
  | string bytes => exact iff_of_true rfl trivial
  | bool value => exact iff_of_true rfl trivial
  | int value =>
      refine Iff.trans ⟨fun h => ?_, fun h => ?_⟩ (toUInt64_toNat_eq_iff value)
      · exact Decimal.toString_int_inj h
      · exact congrArg toString h
  | double bits =>
      refine iff_of_false (fun h => ?_) id
      obtain ⟨c, hc, hdigit⟩ := hdouble bits
      have hmem : c ∈ (toString bits.toNat).toList := by
        rw [show toString bits.toNat = double_text bits from h]
        exact hc
      rw [Decimal.isDigit_of_mem_toString hmem] at hdigit
      cases hdigit

theorem isspace_of_isDigit {c : Char} (h : c.isDigit = true) : isspace c = false := by
  have hlow : 48 ≤ c.val.toNat := by
    simp only [Char.isDigit, Bool.and_eq_true, decide_eq_true_eq] at h
    exact UInt32.le_iff_toNat_le.mp h.1
  have hblank : c ≠ ' ' := by
    rintro rfl
    cases h
  have hbreak : ¬c ≤ '\r' := by
    intro hle
    have hval : c.val.toNat ≤ 13 := UInt32.le_iff_toNat_le.mp hle
    omega
  simp [isspace, hblank, hbreak]

theorem digitsToNat_toString (n : Nat) : digitsToNat (toString n).toList = n := by
  rw [Decimal.toList_toString_nat]
  exact Nat.ofDigitChars_ten_toDigits

theorem stoi_toString {n : Nat} (hn : n < 2 ^ 31) : stoi (toString n) = some (n : Int) := by
  have hdigits : ∀ c ∈ (toString n).toList, c.isDigit = true := fun c hc =>
    Decimal.isDigit_of_mem_toString hc
  have hvalue := digitsToNat_toString n
  have hne : (toString n).toList ≠ [] := by
    rw [Decimal.toList_toString_nat]
    exact Nat.toDigits_ne_nil
  unfold stoi
  generalize (toString n).toList = chars at *
  obtain ⟨c, cs, rfl⟩ := List.exists_cons_of_ne_nil hne
  have hc := hdigits c List.mem_cons_self
  have hminus : c ≠ '-' := by
    rintro rfl
    cases hc
  have hplus : c ≠ '+' := by
    rintro rfl
    cases hc
  have htake : (c :: cs).takeWhile Char.isDigit = c :: cs := List.takeWhile_eq_self_iff.mpr hdigits
  rw [List.dropWhile_cons_of_neg (by simp [isspace_of_isDigit hc])]
  simp only [List.head?_cons, Option.some.injEq, hminus, hplus, or_false, if_false, htake, hvalue,
    reduceCtorEq, false_or]
  exact if_neg (by omega)

theorem toLower_eq {s t : String} (h : s.toList.map Char.toLower = t.toList) : s.toLower = t := by
  rw [← String.toList_inj, String.toLower, String.toList_map]
  exact h

variable {compile_options : Dict String String} {name : String}

theorem parse_bool_text {value : Bool}
    (h : compile_options.lookup name = some (if value then "true" else "false")) :
    parseBoolOption compile_options name = .ok (some value) := by
  have htrue : "true".toLower = "true" := toLower_eq rfl
  have hfalse : "false".toLower = "false" := toLower_eq rfl
  unfold parseBoolOption
  rw [h]
  cases value with
  | true => simp only [if_true, htrue, List.mem_cons, true_or]
  | false => simp [hfalse]

theorem parse_int_text {n : Nat} (h : compile_options.lookup name = some (toString n))
    (hn : n < 2 ^ 31) : parseIntOption compile_options name = .ok (some (n : Int)) := by
  unfold parseIntOption
  rw [h]
  simp only [stoi_toString hn]

-- The text of a value, when it is in the map, is read back.
theorem readsBack_of_text {value : OptionValue} {double_text : UInt64 → String}
    (hplain : value.Plain)
    (h : compile_options.lookup name = some (value.text double_text)) :
    value.ReadsBack compile_options name := by
  cases value with
  | string bytes => trivial
  | bool value => exact parse_bool_text h
  | int value =>
      obtain ⟨n, hn⟩ := Int.eq_ofNat_of_zero_le hplain
      have hlookup : compile_options.lookup name = some (toString n) := by
        rw [h, OptionValue.text, hn, Decimal.toString_int_ofNat]
      refine ⟨?_, fun _ hlt => ?_⟩
      · rw [hlookup, hn]
        exact Nat.toInt?_repr n
      · rw [hn]
        exact parse_int_text hlookup (by omega)
  | double bits => exact hplain.elim

end Texts

section Entries

variable {cis : CodedInputStream}

open CompileOptionsParser

theorem entry_step_skip {field : UnknownField} (h1 : delimited 1 field = none)
    (h2 : delimited 2 field = none) (s : List UInt8 × String) : entry_step cis s field = .ok s := by
  cases field with
  | length_delimited number data =>
      have hkey : number ≠ 1 := fun h => by simp [delimited, h] at h1
      have hvalue : number ≠ 2 := fun h => by simp [delimited, h] at h2
      unfold entry_step
      split
      · rename_i heq
        cases heq
        exact absurd rfl hkey
      · rename_i heq
        cases heq
        exact absurd rfl hvalue
      · rfl
  | varint number value => rfl
  | fixed32 number value => rfl
  | fixed64 number value => rfl
  | group number fields => rfl

theorem delimited_eq_some {number : Nat} {field : UnknownField} {data : List UInt8} :
    delimited number field = some data ↔ field = .length_delimited number data := by
  cases field with
  | length_delimited n data' =>
      by_cases hn : n = number <;> simp [delimited, hn]
  | varint n value => simp [delimited]
  | fixed32 n value => simp [delimited]
  | fixed64 n value => simp [delimited]
  | group n fields => simp [delimited]

-- The last key and the last value count, and every value has to be one.
theorem entry_fold (fields : List UnknownField) (s : List UInt8 × String) :
    fields.foldlM (entry_step cis) s =
      ((fields.filterMap (delimited 2)).foldlM (fun _ bytes => parse_override cis bytes)
        s.2).map fun value => ((fields.filterMap (delimited 1)).getLastD s.1, value) := by
  induction fields generalizing s with
  | nil => rfl
  | cons field fields ih =>
      rw [List.foldlM_cons]
      cases hkey : delimited 1 field with
      | some key =>
          obtain rfl := delimited_eq_some.mp hkey
          rw [List.filterMap_cons_some hkey, List.filterMap_cons_none rfl]
          simp only [List.getLastD_cons]
          exact ih (key, s.2)
      | none =>
          rw [List.filterMap_cons_none hkey]
          cases hvalue : delimited 2 field with
          | some override_bytes =>
              obtain rfl := delimited_eq_some.mp hvalue
              rw [List.filterMap_cons_some hvalue, List.foldlM_cons]
              have hstep : entry_step cis s (.length_delimited 2 override_bytes) =
                  (do let value ← parse_override cis override_bytes; return (s.1, value)) := rfl
              rw [hstep]
              cases parse_override cis override_bytes with
              | error failure => rfl
              | ok value => exact ih (s.1, value)
          | none =>
              rw [List.filterMap_cons_none hvalue, entry_step_skip hkey hvalue]
              exact ih s

-- The loop over the fields is one over the entries.
theorem extract_eq_entries (unknown_fields : List UnknownField) :
    extractCustomProtobufFields cis unknown_fields =
      (unknown_fields.filterMap (delimited 7)).foldlM
        (fun compile_options bytes =>
          option_step cis compile_options (.length_delimited 7 bytes)) ∅ := by
  refine Excepts.foldlM_filterMap (fun compile_options field hfield => ?_)
    (fun compile_options field bytes hfield => ?_) unknown_fields ∅
  · cases field with
    | length_delimited number data =>
        have hnumber : number ≠ 7 := fun h => by simp [delimited, h] at hfield
        unfold option_step
        split
        · rename_i heq
          cases heq
          exact absurd rfl hnumber
        · rfl
    | varint number value => rfl
    | fixed32 number value => rfl
    | fixed64 number value => rfl
    | group number fields => rfl
  · rw [delimited_eq_some.mp hfield]

section Option

variable (hcis : cis.Conforms) {option : SerializedOption} (h : option.WellFormed)
include hcis h

theorem parse_override_of_alone (halone : option.value_fields = [option.value.field]) :
    parse_override cis (encode option.value_fields) = .ok option.value.decoded := by
  unfold parse_override
  rw [hcis.merge _ h.value_message, halone]
  exact option.value.override_value_field

theorem parse_override_of_not_alone (halone : option.value_fields ≠ [option.value.field]) :
    parse_override cis (encode option.value_fields) = .error (.status .kInternal) := by
  have hown := h.own
  unfold parse_override
  rw [hcis.merge _ h.value_message]
  generalize option.value_fields = value_fields at *
  match value_fields with
  | [] => rfl
  | [value_field] =>
      have hsub : [option.value.field] ⊆ [value_field] := hown ▸ List.filter_subset_self _
      have hmem := List.mem_singleton.mp (hsub List.mem_cons_self)
      exact absurd (by rw [hmem]) halone
  | _ :: _ :: _ => rfl

theorem option_step_of_alone (halone : option.value_fields = [option.value.field])
    (compile_options : Dict String String) :
    option_step cis compile_options (.length_delimited 7 (encode option.map_entry_fields)) =
      .ok (if option.key ≠ [] then compile_options.insert option.name option.value.decoded
        else compile_options) := by
  have hfold : option.map_entry_fields.foldlM (entry_step cis) ([], "") =
      .ok (option.key, option.value.decoded) := by
    rw [entry_fold, h.key, h.value]
    rw [List.foldlM_cons, parse_override_of_alone hcis h halone]
    rfl
  unfold option_step
  simp only [hcis.merge _ h.map_entry, hfold]
  rfl

theorem option_step_of_not_alone (halone : option.value_fields ≠ [option.value.field])
    (compile_options : Dict String String) :
    option_step cis compile_options (.length_delimited 7 (encode option.map_entry_fields)) =
      .error (.status .kInternal) := by
  have hfold : option.map_entry_fields.foldlM (entry_step cis) ([], "") =
      .error (.status .kInternal) := by
    rw [entry_fold, h.key, h.value]
    rw [List.foldlM_cons, parse_override_of_not_alone hcis h halone]
    rfl
  unfold option_step
  simp only [hcis.merge _ h.map_entry, hfold]
  rfl

end Option

end Entries

section Map

variable {cis : CodedInputStream} {options : List SerializedOption}

open CompileOptionsParser

def add_option (compile_options : Dict String String) (option : SerializedOption) :
    Dict String String :=
  if option.key ≠ [] then compile_options.insert option.name option.value.decoded
  else compile_options

-- The loop goes on as long as each value is alone in its message.
theorem options_fold_iff (hcis : cis.Conforms)
    (hoptions : ∀ option ∈ options, option.WellFormed)
    {compile_options result : Dict String String} :
    (options.map fun option => encode option.map_entry_fields).foldlM
        (fun compile_options bytes =>
          option_step cis compile_options (.length_delimited 7 bytes)) compile_options =
        .ok result ↔
      (∀ option ∈ options, option.value_fields = [option.value.field]) ∧
        options.foldl add_option compile_options = result := by
  induction options generalizing compile_options with
  | nil => exact ⟨fun h => ⟨fun _ h => (nomatch h), Except.ok.inj h⟩, fun h => congrArg _ h.2⟩
  | cons option options ih =>
      have hoption := hoptions option List.mem_cons_self
      rw [List.map_cons, List.foldlM_cons, List.forall_mem_cons, List.foldl_cons]
      by_cases halone : option.value_fields = [option.value.field]
      · rw [option_step_of_alone hcis hoption halone]
        refine (ih fun o ho => hoptions o (List.mem_cons_of_mem _ ho)).trans ?_
        rw [and_iff_right halone]
        rfl
      · rw [option_step_of_not_alone hcis hoption halone]
        exact iff_of_false (fun h => nomatch h) fun h => halone h.1.1

theorem lookup_add_option (compile_options : Dict String String) (option : SerializedOption)
    (name : String) :
    (add_option compile_options option).lookup name =
      if option.key ≠ [] ∧ name = option.name then some option.value.decoded
      else compile_options.lookup name := by
  unfold add_option
  by_cases hkey : option.key = []
  · rw [if_neg (not_not.mpr hkey), if_neg (fun h => h.1 hkey)]
  · rw [if_pos hkey, Dict.lookup_insert']
    exact if_congr (iff_and_self.mpr fun _ => hkey) rfl rfl

-- The keys are distinct, so at most one option has the name.
theorem lookup_options (hkeys : (options.map SerializedOption.key).Nodup)
    (compile_options : Dict String String) (name text : String) :
    (options.foldl add_option compile_options).lookup name = some text ↔
      (∃ option ∈ options, option.key ≠ [] ∧ option.name = name ∧ option.value.decoded = text) ∨
        (∀ option ∈ options, option.key ≠ [] → option.name ≠ name) ∧
          compile_options.lookup name = some text := by
  induction options generalizing compile_options with
  | nil => simp
  | cons option options ih =>
      rw [List.map_cons, List.nodup_cons] at hkeys
      obtain ⟨hnew, hkeys⟩ := hkeys
      rw [List.foldl_cons, ih hkeys, lookup_add_option, List.forall_mem_cons,
        List.exists_mem_cons_iff]
      by_cases hoption : option.key ≠ [] ∧ name = option.name
      · obtain ⟨hkey, rfl⟩ := hoption
        have hothers : ∀ o ∈ options, o.name ≠ option.name := fun o ho hname =>
          hnew (List.mem_map.mpr ⟨o, ho, std_string_injective hname⟩)
        rw [if_pos ⟨hkey, rfl⟩, Option.some.injEq]
        constructor
        · rintro (⟨o, ho, -, hname, -⟩ | ⟨-, htext⟩)
          · exact absurd hname (hothers o ho)
          · exact .inl (.inl ⟨hkey, rfl, htext⟩)
        · rintro ((⟨-, -, htext⟩ | ⟨o, ho, -, hname, -⟩) | ⟨⟨hne, -⟩, -⟩)
          · exact .inr ⟨fun o ho _ => hothers o ho, htext⟩
          · exact absurd hname (hothers o ho)
          · exact absurd rfl (hne hkey)
      · have hne : option.key ≠ [] → option.name ≠ name := fun hkey hname =>
          hoption ⟨hkey, hname.symm⟩
        rw [if_neg hoption, and_iff_right hne]
        refine or_congr_left ⟨.inr, ?_⟩
        rintro (⟨hkey, hname, -⟩ | h)
        · exact absurd hname (hne hkey)
        · exact h

end Map

section Decoding

variable {cis : CodedInputStream} (hcis : cis.Conforms)
include hcis

open CompileOptionsParser

theorem parse_encode_eq {unknown_fields : List UnknownField} (h : IsMessage unknown_fields) :
    parseCompileOptions cis (encode unknown_fields) =
      (extractCustomProtobufFields cis unknown_fields).map fun compile_options =>
        (compile_options, extractReplicaDeviceIds cis unknown_fields) := by
  unfold parseCompileOptions
  simp only [hcis.merge _ h]
  cases extractCustomProtobufFields cis unknown_fields <;> rfl

theorem parse_eq_ok_iff {unknown_fields : List UnknownField} {options : List SerializedOption}
    (h : Serializes unknown_fields options) (result : Dict String String)
    (device_ids : Option (List Int)) :
    parseCompileOptions cis (encode unknown_fields) = .ok (result, device_ids) ↔
      (∀ option ∈ options, option.value_fields = [option.value.field]) ∧
        options.foldl add_option ∅ = result ∧
          extractReplicaDeviceIds cis unknown_fields = device_ids := by
  rw [parse_encode_eq hcis h.message, Excepts.map_eq_ok, extract_eq_entries, h.entries]
  simp only [options_fold_iff hcis h.wellFormed, Prod.mk.injEq]
  constructor
  · rintro ⟨_, ⟨halone, rfl⟩, rfl, hids⟩
    exact ⟨halone, rfl, hids⟩
  · rintro ⟨halone, rfl, hids⟩
    exact ⟨_, ⟨halone, rfl⟩, rfl, hids⟩

theorem decodes_iff {double_text : UInt64 → String}
    (hdouble : ∀ bits, ∃ c ∈ (double_text bits).toList, c.isDigit = false)
    {unknown_fields : List UnknownField} {options : List SerializedOption}
    (h : Serializes unknown_fields options) :
    Decodes cis double_text (encode unknown_fields) options ↔
      ∀ option ∈ options, option.Decodable := by
  have hlookup : ∀ name text, (options.foldl add_option ∅).lookup name = some text ↔
      ∃ option ∈ options, option.key ≠ [] ∧ option.name = name ∧ option.value.decoded = text := by
    intro name text
    rw [lookup_options h.keys, AList.lookup_empty]
    simp
  have hsame : ∀ o ∈ options, ∀ o' ∈ options, o.name = o'.name → o = o' := fun o ho o' ho' hname =>
    List.inj_on_of_nodup_map h.keys ho ho' (std_string_injective hname)
  constructor
  · rintro ⟨_, device_ids, hparse, hmap, -⟩ option hoption
    obtain ⟨halone, rfl, -⟩ := (parse_eq_ok_iff hcis h _ _).mp hparse
    have hfound := (hmap option.name _).mpr ⟨option, hoption, rfl, rfl⟩
    obtain ⟨other, hother, hkey, hname, htext⟩ := (hlookup _ _).mp hfound
    obtain rfl := hsame other hother option hoption hname
    exact ⟨hkey, halone other hother, (decoded_eq_text_iff hdouble other.value).mp htext⟩
  · intro hdecodable
    have hmap : ∀ name text, (options.foldl add_option ∅).lookup name = some text ↔
        ∃ option ∈ options, option.name = name ∧ option.value.text double_text = text := by
      intro name text
      rw [hlookup]
      refine exists_congr fun option => and_congr_right fun hoption => ?_
      have hplain := (hdecodable option hoption).plain
      rw [(decoded_eq_text_iff hdouble option.value).mpr hplain,
        and_iff_right (hdecodable option hoption).key]
    refine ⟨_, _, (parse_eq_ok_iff hcis h _ _).mpr ⟨fun option hoption =>
      (hdecodable option hoption).alone, rfl, rfl⟩, hmap, fun option hoption => ?_⟩
    exact readsBack_of_text (hdecodable option hoption).plain
      ((hmap _ _).mpr ⟨option, hoption, rfl, rfl⟩)

-- The merge of bytes that are no message fails, wherever they are.
theorem merge_eq_none {bytes : List UInt8} (h : ¬∃ fields, Spells bytes fields) :
    cis.merge_from_coded_stream bytes = none := by
  cases hmerge : cis.merge_from_coded_stream bytes with
  | none => rfl
  | some fields => exact absurd ⟨fields, hcis.refuse bytes fields hmerge⟩ h

omit hcis in
theorem parse_error_of_entry {bytes data : List UInt8} {unknown_fields : List UnknownField}
    (hmerge : cis.merge_from_coded_stream bytes = some unknown_fields)
    (hdata : data ∈ unknown_fields.filterMap (delimited 7))
    (hentry : ∀ compile_options, ∃ failure,
      option_step cis compile_options (.length_delimited 7 data) = .error failure) :
    ∃ failure, parseCompileOptions cis bytes = .error failure := by
  obtain ⟨failure, hfold⟩ := Excepts.foldlM_error_of_mem (f := fun compile_options bytes =>
    option_step cis compile_options (.length_delimited 7 bytes)) hdata hentry ∅
  refine ⟨failure, ?_⟩
  unfold parseCompileOptions
  rw [← extract_eq_entries] at hfold
  simp only [hmerge, hfold]
  rfl

theorem parse_error_of_malformed {bytes : List UInt8} (h : Malformed cis bytes) :
    ∃ failure, parseCompileOptions cis bytes = .error failure := by
  cases h with
  | message h =>
      refine ⟨.status .kInternal, ?_⟩
      unfold parseCompileOptions
      simp only [merge_eq_none hcis h]
  | map_entry hmerge hdata h =>
      refine parse_error_of_entry hmerge hdata fun compile_options => ⟨.status .kInternal, ?_⟩
      unfold option_step
      simp only [merge_eq_none hcis h]
  | value hmerge hdata hentry hvalue h =>
      refine parse_error_of_entry hmerge hdata fun compile_options => ?_
      have hoverride := fun _ : String => show ∃ failure, parse_override cis _ = .error failure from
        ⟨.status .kInternal, by unfold parse_override; rw [merge_eq_none hcis h]⟩
      obtain ⟨failure, hfold⟩ := Excepts.foldlM_error_of_mem hvalue hoverride ""
      refine ⟨failure, ?_⟩
      unfold option_step
      simp only [hentry, entry_fold, hfold]
      rfl

end Decoding

section Examples

-- A map with one option, among another field.
def one_option (key : List UInt8) (value : OptionValue) : SerializedOption where
  key := key
  value := value
  map_entry_fields := [.length_delimited 1 key, .length_delimited 2 (encode [value.field])]
  value_fields := [value.field]

def one_option_fields (option : SerializedOption) : List UnknownField :=
  [.varint 2 1, .length_delimited 7 (encode option.map_entry_fields)]

-- `fp32_dest_acc_en` with `true`, and `optimization_level` with `-1`.
def fp32_dest_acc_en_option : SerializedOption :=
  one_option [102, 112, 51, 50, 95, 100, 101, 115, 116, 95, 97, 99, 99, 95, 101, 110] (.bool true)

def optimization_level_option : SerializedOption :=
  one_option [111, 112, 116, 105, 109, 105, 122, 97, 116, 105, 111, 110, 95, 108, 101, 118, 101,
    108] (.int (-1))

-- What has to be checked of the three messages.
theorem one_option_serializes {key : List UInt8} {value : OptionValue}
    (hfields : ∀ field ∈ one_option_fields (one_option key value), field.fits_flat)
    (hsmall : (encode (one_option_fields (one_option key value))).length < 2 ^ 31)
    (hentry : ∀ field ∈ (one_option key value).map_entry_fields, field.fits_flat)
    (hentry_small : (encode (one_option key value).map_entry_fields).length < 2 ^ 31)
    (hvalue : value.field.fits_flat) (hvalue_small : (encode [value.field]).length < 2 ^ 31) :
    Serializes (one_option_fields (one_option key value)) [one_option key value] := by
  have hown : [value.field].filter is_override = [value.field] := by
    cases value <;> rfl
  refine ⟨.of_flat hfields hsmall, rfl, fun option hoption => ?_, List.nodup_singleton _⟩
  obtain rfl := List.mem_singleton.mp hoption
  exact ⟨.of_flat hentry hentry_small, .of_flat (List.forall_mem_singleton.mpr hvalue)
    hvalue_small, rfl, rfl, hown⟩

end Examples

end TTXla.PJRT
